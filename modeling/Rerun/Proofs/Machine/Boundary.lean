import Rerun.Proofs.Machine.Looks

/-!
# The first boundary of a run

A machine is at a boundary if it has halted or its next instruction asks the host for something;
behind the last instruction there is none, and a machine there goes on to its halt. The way to host
input ends at the first boundary of the run (`Ahead.exists_comesFirstTo`,
`ComesFirstTo.walk_eq`), and what the machine is given makes no difference to where that is
(`ComesFirstTo.given`).
-/

namespace Rerun.Machine

/-- Whether a machine has halted, or asks for a message or for content next. -/
def AtBoundary (m : Machine) : Prop :=
  m.progress.status ≠ .running ∨ (∃ inbox, m.current = some (.readInbox inbox)) ∨
    ∃ hash, m.current = some (.readPreimage hash)

variable {resolve resolve' : Resolve} {m a : Machine} {n k : Nat}

theorem atHostIo_iff : m.atHostIo = true ↔
    (∃ inbox, m.current = some (.readInbox inbox)) ∨
      ∃ hash, m.current = some (.readPreimage hash) := by
  unfold atHostIo
  cases m.current with
  | none => simp
  | some i => cases i <;> simp [Instruction.isHostIo]

theorem waits_iff : m.waits = true ↔ m.AtBoundary := by
  rw [waits, Bool.or_eq_true, atHostIo_iff, AtBoundary, ne_eq, ← isHalted_eq_false_iff,
    Bool.not_eq_false]

theorem waits_eq_false_iff : m.waits = false ↔ ¬ m.AtBoundary := by
  rw [← waits_iff, Bool.not_eq_true]

/-- A machine comes to another one in as many steps, and is at no boundary before. -/
structure ComesFirstTo (resolve : Resolve) (m : Machine) (n : Nat) (a : Machine) : Prop where
  run : m.run resolve n = (.ok (), a)
  boundary : a.AtBoundary
  least : ∀ k < n, ¬ (m.run resolve k).2.AtBoundary

/-- Short of a boundary the run goes the way to host input. -/
theorem run_succ_of_goes (resolve : Resolve) (h : m.waits = false) (n : Nat) :
    m.run resolve (n + 1) = m.nextAlone.run resolve n := by
  obtain ⟨hrunning, hgoes⟩ : m.progress.status.isHalted = false ∧ m.atHostIo = false := by
    simpa [waits] using h
  exact run_succ_ok hrunning (next_eq_nextAlone resolve hgoes) n

namespace ComesFirstTo

theorem here (h : m.AtBoundary) : m.ComesFirstTo resolve 0 m := ⟨rfl, h, nofun⟩

theorem succ_iff (h : m.waits = false) :
    m.ComesFirstTo resolve (n + 1) a ↔ m.nextAlone.ComesFirstTo resolve n a := by
  have hrun := run_succ_of_goes resolve h
  constructor
  · intro hc
    refine ⟨(hrun n).symm.trans hc.run, hc.boundary, fun k hk => ?_⟩
    rw [← hrun k]
    exact hc.least (k + 1) (by omega)
  · intro hc
    refine ⟨(hrun n).trans hc.run, hc.boundary, fun k hk => ?_⟩
    cases k with
    | zero => exact waits_eq_false_iff.1 h
    | succ k =>
      rw [hrun k]
      exact hc.least k (by omega)

theorem goes (h : m.ComesFirstTo resolve (n + 1) a) : m.waits = false :=
  waits_eq_false_iff.2 (h.least 0 (Nat.succ_pos n))

/-- The walk is over there. -/
theorem walk_eq (h : m.ComesFirstTo resolve n a) (hk : n ≤ k) : m.walk k = a := by
  induction n generalizing m k with
  | zero =>
    obtain rfl : m = a := congrArg Prod.snd h.run
    exact walk_of_waits (waits_iff.2 h.boundary) k
  | succ n ih =>
    obtain ⟨k, rfl⟩ : ∃ j, k = j + 1 := ⟨k - 1, by omega⟩
    rw [walk_succ h.goes]
    exact ih ((succ_iff h.goes).1 h) (by omega)

theorem ahead (h : m.ComesFirstTo resolve n a) : m.Ahead a := by
  rw [← h.walk_eq (Nat.le_refl n)]
  exact m.ahead_walk n

/-- What a machine is given moves no boundary, whoever answers for contents. -/
theorem given (h : m.ComesFirstTo resolve n a) (resolve' : Resolve) (g : GlobalState)
    (inbox : List ((Inbox × UInt64) × Bytes)) (context : Nat) :
    (m.given g inbox context).ComesFirstTo resolve' n (a.given g inbox context) := by
  induction n generalizing m with
  | zero =>
    obtain rfl : m = a := congrArg Prod.snd h.run
    exact here h.boundary
  | succ n ih =>
    rw [succ_iff (by exact h.goes), nextAlone_given]
    exact ih ((succ_iff h.goes).1 h)

end ComesFirstTo

/-- A way that ends has a first boundary, which is where it ends. -/
theorem Ahead.exists_comesFirstTo (h : m.Ahead a) (hw : a.waits = true) (resolve : Resolve) :
    ∃ n, m.ComesFirstTo resolve n a := by
  induction h with
  | here m => exact ⟨0, .here (waits_iff.1 hw)⟩
  | step goes rest ih =>
    obtain ⟨n, hn⟩ := ih hw
    exact ⟨n + 1, (ComesFirstTo.succ_iff goes).2 hn⟩

theorem nextAlone_global (m : Machine) : m.nextAlone.progress.global = m.progress.global := by
  unfold nextAlone
  split
  · rfl
  · rename_i i _
    cases i with
    | jump target => dsimp only; split <;> rfl
    | mix value => rfl
    | readInbox inbox => rfl
    | readPreimage hash => rfl
    | halt => rfl
    | fail => rfl

/-- On the way to host input nothing happens to the global state. -/
theorem Ahead.global_eq (h : m.Ahead a) : a.progress.global = m.progress.global := by
  induction h with
  | here m => rfl
  | @step m m' _ _ ih => exact ih.trans m.nextAlone_global

/-- Nobody is asked before the first boundary. -/
theorem ComesFirstTo.whoever (h : m.ComesFirstTo resolve n a) (resolve' : Resolve) :
    m.ComesFirstTo resolve' n a := by
  have hgiven := h.given resolve' m.progress.global m.inbox m.context
  obtain ⟨-, hinbox, hcontext⟩ := h.ahead.given_eq
  have hsame : a.given m.progress.global m.inbox m.context = a := by
    rw [← h.ahead.global_eq, ← hinbox, ← hcontext, given_self]
  rwa [given_self, hsame] at hgiven

end Rerun.Machine
