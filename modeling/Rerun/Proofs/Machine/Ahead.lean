import Rerun.Proofs.Machine.Deadline

/-!
# The way to host input

Until a machine asks the host for something, its steps need none of what a run is given: not the
start state, not the messages and not the contents. So it makes no difference whether a machine gets
an input before it walks there or afterwards (`Ahead.run_given`), and there is one place where the
way ends (`Ahead.unique`).
-/

namespace Rerun.Machine

/-! ## Steps without the host -/

/-- Whether the machine has to be given an input before it can go on, or cannot go on at all. -/
def waits (m : Machine) : Bool := m.progress.status.isHalted || m.atHostIo

/-- The machine with a start state, messages and a token in place of its own. -/
def given (m : Machine) (g : GlobalState) (inbox : List ((Inbox × UInt64) × Bytes))
    (context : Nat) : Machine :=
  { m with progress := { m.progress with global := g }, inbox, context }

@[simp] theorem given_status (m : Machine) (g : GlobalState)
    (inbox : List ((Inbox × UInt64) × Bytes)) (context : Nat) :
    (m.given g inbox context).progress.status = m.progress.status := rfl

@[simp] theorem given_current (m : Machine) (g : GlobalState)
    (inbox : List ((Inbox × UInt64) × Bytes)) (context : Nat) :
    (m.given g inbox context).current = m.current := rfl

@[simp] theorem given_self (m : Machine) :
    m.given m.progress.global m.inbox m.context = m := rfl

/-- The step of a machine that does not ask the host. -/
def nextAlone (m : Machine) : Machine :=
  let p := m.progress
  match m.current with
  | none => m.setStatus .finished
  | some i =>
    let p : Progress :=
      match i with
      | .mix value => { p with acc := fold p.acc (Bytes.be64 value), pc := p.pc + 1 }
      | .jump target =>
        if target.toNat < m.program.instructions.length then { p with pc := target }
        else { p with status := .errored }
      | .halt => { p with status := .finished }
      | .fail => { p with status := .errored }
      | .readInbox _ | .readPreimage _ => p
    { m with progress := { p with steps := p.steps + 1 } }

/-- A step that does not ask the host does not fail, whoever answers. -/
theorem next_eq_nextAlone (resolve : Resolve) {m : Machine} (h : m.atHostIo = false) :
    m.next resolve = .ok m.nextAlone := by
  unfold next nextAlone
  unfold atHostIo at h
  cases hc : m.current with
  | none => rfl
  | some i =>
    rw [hc] at h
    cases i with
    | mix value => rfl
    | jump target =>
      simp only [perform]
      split <;> rfl
    | halt => rfl
    | fail => rfl
    | readInbox inbox => cases h
    | readPreimage hash => cases h

/-- A step that does not ask the host commutes with giving an input. -/
theorem nextAlone_given (m : Machine) (g : GlobalState)
    (inbox : List ((Inbox × UInt64) × Bytes)) (context : Nat) :
    (m.given g inbox context).nextAlone = m.nextAlone.given g inbox context := by
  unfold nextAlone
  rw [given_current]
  cases m.current with
  | none => rfl
  | some i =>
    cases i with
    | jump target =>
      by_cases h : target.toNat < m.program.instructions.length <;> simp [given, h]
    | mix value => rfl
    | readInbox inbox => rfl
    | readPreimage hash => rfl
    | halt => rfl
    | fail => rfl

theorem nextAlone_given_eq (m : Machine) :
    m.nextAlone.program = m.program ∧ m.nextAlone.inbox = m.inbox ∧
      m.nextAlone.context = m.context := by
  unfold nextAlone
  split <;> exact ⟨rfl, rfl, rfl⟩

/-! ## The way -/

/-- A machine comes to another by steps that do not ask the host. -/
inductive Ahead : Machine → Machine → Prop where
  | here (m : Machine) : Ahead m m
  | step {m m' : Machine} (goes : m.waits = false) (rest : Ahead m.nextAlone m') : Ahead m m'

namespace Ahead

variable {m a b : Machine}

theorem trans (h : Ahead m a) (h' : Ahead a b) : Ahead m b := by
  induction h with
  | here m => exact h'
  | step goes _ ih => exact .step goes (ih h')

/-- A way can only go on where another one ends. -/
theorem linear (ha : Ahead m a) (hb : Ahead m b) : Ahead a b ∨ Ahead b a := by
  induction ha with
  | here m => exact .inl hb
  | step goes rest ih =>
    cases hb with
    | here => exact .inr (.step goes rest)
    | step _ rest' => exact ih rest'

theorem eq_of_waits (h : Ahead a b) (hw : a.waits = true) : a = b := by
  cases h with
  | here => rfl
  | step goes _ => rw [hw] at goes; cases goes

/-- Every way of a machine ends in the same place. -/
theorem unique (ha : Ahead m a) (hb : Ahead m b) (hwa : a.waits = true) (hwb : b.waits = true) :
    a = b := by
  obtain h | h := ha.linear hb
  · exact h.eq_of_waits hwa
  · exact (h.eq_of_waits hwb).symm

/-- A way changes nothing but the progress. -/
theorem given_eq (h : Ahead m a) :
    a.program = m.program ∧ a.inbox = m.inbox ∧ a.context = m.context := by
  induction h with
  | here m => exact ⟨rfl, rfl, rfl⟩
  | @step m m' _ _ ih =>
    obtain ⟨hp, hi, hc⟩ := nextAlone_given_eq m
    exact ⟨ih.1.trans hp, ih.2.1.trans hi, ih.2.2.trans hc⟩

/-- A machine that was given an input comes by the same way to the one that is given it there. -/
theorem run_given (h : Ahead m a) (resolve : Resolve) (g : GlobalState)
    (inbox : List ((Inbox × UInt64) × Bytes)) (context : Nat) :
    ∃ n, (m.given g inbox context).run resolve n = (.ok (), a.given g inbox context) := by
  induction h with
  | here m => exact ⟨0, rfl⟩
  | @step m m' goes rest ih =>
    obtain ⟨n, hn⟩ := ih
    have hw : m.progress.status.isHalted = false ∧ m.atHostIo = false := by
      simpa [waits] using goes
    refine ⟨n + 1, ?_⟩
    have hnext : (m.given g inbox context).next resolve =
        .ok (m.nextAlone.given g inbox context) := by
      rw [← nextAlone_given]
      exact next_eq_nextAlone resolve hw.2
    rw [run_succ_ok (by exact hw.1) hnext, hn]

end Ahead

/-! ## Walking it under a deadline -/

theorem stepUntilHostIo_follows (resolve : Resolve) (fuel : Nat) (d : Deadline) (m : Machine) :
    d.Follows (m.stepUntilHostIo resolve fuel d).deadline := by
  induction fuel generalizing d m with
  | zero => exact .refl d
  | succ fuel ih =>
    rw [stepUntilHostIo]
    split
    · exact .refl d
    · split
      · exact .tick d
      · split
        · exact .tick d
        · split
          · exact .tick d
          · exact (Deadline.Follows.tick d).trans (ih _ _)

/-- However the walk ends, it went the way, and nothing but its length kept it from the end of it:
it does not fail, and if it was not for the deadline it has arrived. -/
theorem stepUntilHostIo_ahead (resolve : Resolve) (fuel : Nat) (d : Deadline) (m : Machine) :
    Ahead m (m.stepUntilHostIo resolve fuel d).machine ∧
      ((m.stepUntilHostIo resolve fuel d).result = .error .endless ∨
        (m.stepUntilHostIo resolve fuel d).result = .ok () ∧
          ((m.stepUntilHostIo resolve fuel d).deadline.isExpired = false →
            (m.stepUntilHostIo resolve fuel d).machine.waits = true)) := by
  induction fuel generalizing d m with
  | zero => exact ⟨.here m, .inl rfl⟩
  | succ fuel ih =>
    rw [stepUntilHostIo]
    split
    · rename_i hh
      exact ⟨.here m, .inr ⟨rfl, fun _ => by rw [waits, hh, Bool.true_or]⟩⟩
    · rename_i hh
      split
      · rename_i he
        refine ⟨.here m, .inr ⟨rfl, fun hf => ?_⟩⟩
        rw [(Deadline.Follows.tick d).unexpired hf] at he
        cases he
      · split
        · rename_i hi
          exact ⟨.here m, .inr ⟨rfl, fun _ => by rw [waits, hi, Bool.or_true]⟩⟩
        · rename_i hi
          rw [next_eq_nextAlone resolve (by simpa using hi)]
          obtain ⟨ha, hr⟩ := ih d.tick m.nextAlone
          refine ⟨.step ?_ ha, hr⟩
          rw [waits, Bool.or_eq_false_iff]
          exact ⟨by simpa using hh, by simpa using hi⟩

/-! ## The length of it -/

/-- Whether the way of a machine ends within `n` steps. -/
def waitsWithin : Nat → Machine → Bool
  | 0, m => m.waits
  | n + 1, m => m.waits || m.nextAlone.waitsWithin n

theorem waitsWithin_succ {n : Nat} {m : Machine} (h : m.waitsWithin n = true) :
    m.waitsWithin (n + 1) = true := by
  induction n generalizing m with
  | zero => simp [waitsWithin, show m.waits = true from h]
  | succ n ih =>
    rw [waitsWithin, Bool.or_eq_true] at h ⊢
    exact h.imp_right ih

/-- On the way there is less of it left. -/
theorem Ahead.waitsWithin {m a : Machine} (ha : Ahead m a) {n : Nat}
    (h : m.waitsWithin n = true) : a.waitsWithin n = true := by
  induction ha generalizing n with
  | here m => exact h
  | step goes rest ih =>
    cases n with
    | zero =>
      rw [Machine.waitsWithin, goes] at h
      cases h
    | succ n =>
      rw [Machine.waitsWithin, goes, Bool.false_or] at h
      exact waitsWithin_succ (ih h)

/-- A way that ends has a length. -/
theorem Ahead.exists_waitsWithin {m a : Machine} (ha : Ahead m a) (hw : a.waits = true) :
    ∃ n, m.waitsWithin n = true := by
  induction ha with
  | here m => exact ⟨0, hw⟩
  | step goes rest ih =>
    obtain ⟨n, hn⟩ := ih hw
    exact ⟨n + 1, by rw [Machine.waitsWithin, hn, Bool.or_true]⟩

/-- Whoever has more patience than the way is long sees the end of it. -/
theorem stepUntilHostIo_ok (resolve : Resolve) {n fuel : Nat} {d : Deadline} {m : Machine}
    (hd : d.limit = none) (h : m.waitsWithin n = true) (hf : n < fuel) :
    (m.stepUntilHostIo resolve fuel d).result = .ok () := by
  induction fuel generalizing n d m with
  | zero => omega
  | succ fuel ih =>
    rw [stepUntilHostIo]
    split
    · rfl
    · rename_i hh
      rw [if_neg (by simp [Deadline.isExpired_of_limit_none hd])]
      split
      · rfl
      · rename_i hi
        have hgoes : m.waits = false := by simp [waits, hh, hi]
        rw [next_eq_nextAlone resolve (by simpa using hi)]
        cases n with
        | zero =>
          rw [waitsWithin, hgoes] at h
          cases h
        | succ n =>
          rw [waitsWithin, hgoes, Bool.false_or] at h
          exact ih hd h (by omega)

end Rerun.Machine
