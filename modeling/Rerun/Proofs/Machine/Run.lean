import Rerun.Machine.Basic

/-!
# Uninterrupted runs

What a machine does when nobody stops it: `Machine.run` takes steps until the machine halts or a
step fails. A run can be cut anywhere (`run_add`), and two runs of a machine that are over ended in
the same way (`run_unique`). A call under a deadline that has not expired when the call ends does
the same as the run (`step_eq_run`).
-/

namespace Rerun.Machine

/-! ## A single step -/

/-- Whether the next step halts the machine without being counted: there is no instruction left, or
the message that it asks for is not there. -/
def haltsUncounted (m : Machine) : Bool :=
  match m.current with
  | none => true
  | some (.readInbox inbox) => (m.message? inbox (nextIndex m.progress.global inbox)).isNone
  | some _ => false

/-- No instruction changes the count of steps; `next` does it afterwards. -/
theorem perform_steps {resolve : Resolve} {m : Machine} {i : Instruction} {p : Progress}
    (h : m.perform resolve i = .ok (some p)) : p.steps = m.progress.steps := by
  cases i with
  | mix value => cases h; rfl
  | readInbox inbox =>
    simp only [perform] at h
    split at h
    · cases h
    · cases h; rfl
  | readPreimage hash =>
    simp only [perform] at h
    cases hr : resolve m.context hash with
    | error f => rw [hr] at h; cases h
    | ok data => rw [hr] at h; cases h; rfl
  | jump target =>
    simp only [perform] at h
    split at h
    · cases h; rfl
    · cases h; rfl
  | halt => cases h; rfl
  | fail => cases h; rfl

/-- An instruction has nothing to do only if it waits for a message that is not there. -/
theorem perform_eq_none_iff {resolve : Resolve} {m : Machine} {i : Instruction}
    (hi : m.current = some i) : m.perform resolve i = .ok none ↔ m.haltsUncounted = true := by
  unfold haltsUncounted
  rw [hi]
  cases i with
  | mix value => simp [perform, pure, Except.pure]
  | readInbox inbox =>
    simp only [perform]
    cases m.message? inbox (nextIndex m.progress.global inbox) <;> simp [pure, Except.pure]
  | readPreimage hash =>
    simp only [perform]
    cases resolve m.context hash <;> simp [bind, Except.bind, pure, Except.pure]
  | jump target =>
    simp only [perform]
    split <;> simp [pure, Except.pure]
  | halt => simp [perform, pure, Except.pure]
  | fail => simp [perform, pure, Except.pure]

/-- What a step that succeeds does: it is counted and keeps the machine as it was given, or it halts
the machine where it is. -/
theorem next_cases {resolve : Resolve} {m m' : Machine} (h : m.next resolve = .ok m') :
    (m.haltsUncounted = false ∧ ∃ i p, m.current = some i ∧ m.perform resolve i = .ok (some p) ∧
      m' = { m with progress := { p with steps := m.progress.steps + 1 } }) ∨
    (m.haltsUncounted = true ∧ ∃ s : Status, s.isHalted = true ∧ m' = m.setStatus s) := by
  unfold next at h
  split at h
  · rename_i hc
    cases h
    exact .inr ⟨by simp [haltsUncounted, hc], .finished, rfl, rfl⟩
  · rename_i i hc
    cases hp : m.perform resolve i with
    | error f => rw [hp] at h; cases h
    | ok o =>
      rw [hp] at h
      cases o with
      | none =>
        cases h
        exact .inr ⟨(perform_eq_none_iff hc).1 hp, .tooFar, rfl, rfl⟩
      | some p =>
        cases h
        refine .inl ⟨?_, i, p, hc, hp, ?_⟩
        · rw [← Bool.not_eq_true, ← perform_eq_none_iff hc, hp]
          simp
        · rw [perform_steps hp]

/-- A step changes nothing but the progress. -/
theorem next_given {resolve : Resolve} {m m' : Machine} (h : m.next resolve = .ok m') :
    m'.program = m.program ∧ m'.inbox = m.inbox ∧ m'.context = m.context := by
  obtain ⟨-, i, p, -, -, rfl⟩ | ⟨-, s, -, rfl⟩ := next_cases h
  · exact ⟨rfl, rfl, rfl⟩
  · exact ⟨rfl, rfl, rfl⟩

/-- The count after a step that is counted. -/
theorem next_steps {resolve : Resolve} {m m' : Machine} (h : m.next resolve = .ok m')
    (hu : m.haltsUncounted = false) : m'.progress.steps = m.progress.steps + 1 := by
  obtain ⟨-, i, p, -, -, rfl⟩ | ⟨hc, -⟩ := next_cases h
  · rfl
  · rw [hu] at hc; cases hc

/-- A step that is not counted halts the machine and leaves the rest of it. -/
theorem next_uncounted (resolve : Resolve) {m : Machine} (hu : m.haltsUncounted = true) :
    ∃ s : Status, s.isHalted = true ∧ m.next resolve = .ok (m.setStatus s) := by
  unfold next
  split
  · exact ⟨.finished, rfl, rfl⟩
  · rename_i i hc
    rw [(perform_eq_none_iff hc).2 hu]
    exact ⟨.tooFar, rfl, rfl⟩

/-! ## Runs -/

/-- Takes `n` steps, fewer if the machine halts or a step fails: how it ends, and the machine. -/
def run (resolve : Resolve) : Nat → Machine → Result Unit × Machine
  | 0, m => (.ok (), m)
  | n + 1, m =>
    if m.progress.status.isHalted then (.ok (), m)
    else
      match m.next resolve with
      | .error f => (.error f, m)
      | .ok m => run resolve n m

/-- A run is over if a step failed or the machine halted. -/
def IsOver (r : Result Unit × Machine) : Prop :=
  r.1 ≠ .ok () ∨ r.2.progress.status.isHalted = true

variable {resolve : Resolve} {m : Machine}

theorem run_of_halted (h : m.progress.status.isHalted = true) (n : Nat) :
    m.run resolve n = (.ok (), m) := by
  cases n with
  | zero => rfl
  | succ n => rw [run, if_pos h]

theorem run_succ_error {f : Failure} (h : m.progress.status.isHalted = false)
    (hn : m.next resolve = .error f) (n : Nat) : m.run resolve (n + 1) = (.error f, m) := by
  rw [run, if_neg (by simp [h]), hn]

theorem run_succ_ok {m' : Machine} (h : m.progress.status.isHalted = false)
    (hn : m.next resolve = .ok m') (n : Nat) : m.run resolve (n + 1) = m'.run resolve n := by
  rw [run, if_neg (by simp [h]), hn]

/-- What a run without a failure begins with: nothing at a halt, and else a step. -/
theorem run_succ_cases {n : Nat} {m' : Machine} (h : m.run resolve (n + 1) = (.ok (), m')) :
    m.progress.status.isHalted = true ∧ m' = m ∨
      m.progress.status.isHalted = false ∧
        ∃ m₁, m.next resolve = .ok m₁ ∧ m₁.run resolve n = (.ok (), m') := by
  cases hh : m.progress.status.isHalted with
  | true =>
    rw [run_of_halted hh] at h
    cases h
    exact .inl ⟨rfl, rfl⟩
  | false =>
    cases hn : m.next resolve with
    | error f => rw [run_succ_error hh hn] at h; cases h
    | ok m₁ =>
      rw [run_succ_ok hh hn] at h
      exact .inr ⟨rfl, m₁, rfl, h⟩

/-- A run that is over does not go on. -/
theorem run_add_of_isOver (a b : Nat) (h : IsOver (m.run resolve a)) :
    m.run resolve (a + b) = m.run resolve a := by
  induction a generalizing m with
  | zero =>
    obtain h | h := h
    · exact absurd rfl h
    · rw [Nat.zero_add]
      exact run_of_halted h b
  | succ a ih =>
    cases hh : m.progress.status.isHalted with
    | true => rw [run_of_halted hh, run_of_halted hh]
    | false =>
      rw [Nat.add_right_comm]
      cases hn : m.next resolve with
      | error f => rw [run_succ_error hh hn, run_succ_error hh hn]
      | ok m' =>
        rw [run_succ_ok hh hn] at h ⊢
        rw [run_succ_ok hh hn]
        exact ih h

/-- A run that did not fail goes on from where it came to. -/
theorem run_add (a b : Nat) {m' : Machine} (h : m.run resolve a = (.ok (), m')) :
    m.run resolve (a + b) = m'.run resolve b := by
  induction a generalizing m with
  | zero =>
    obtain rfl : m = m' := congrArg Prod.snd h
    rw [Nat.zero_add]
  | succ a ih =>
    rw [Nat.add_right_comm]
    cases hh : m.progress.status.isHalted with
    | true =>
      obtain rfl : m = m' := by rw [run_of_halted hh] at h; exact congrArg Prod.snd h
      rw [run_of_halted hh, run_of_halted hh]
    | false =>
      cases hn : m.next resolve with
      | error f => rw [run_succ_error hh hn] at h; cases h
      | ok m'' =>
        rw [run_succ_ok hh hn] at h ⊢
        exact ih h

/-- All runs of a machine that are over ended in the same way. -/
theorem run_unique {a b : Nat} (ha : IsOver (m.run resolve a)) (hb : IsOver (m.run resolve b)) :
    m.run resolve a = m.run resolve b := by
  rw [← run_add_of_isOver a b ha, Nat.add_comm, run_add_of_isOver b a hb]

/-- A run changes nothing but the progress. -/
theorem run_given (resolve : Resolve) (n : Nat) (m : Machine) :
    (m.run resolve n).2.program = m.program ∧ (m.run resolve n).2.inbox = m.inbox ∧
      (m.run resolve n).2.context = m.context := by
  induction n generalizing m with
  | zero => exact ⟨rfl, rfl, rfl⟩
  | succ n ih =>
    cases hh : m.progress.status.isHalted with
    | true => rw [run_of_halted hh]; exact ⟨rfl, rfl, rfl⟩
    | false =>
      cases hn : m.next resolve with
      | error f => rw [run_succ_error hh hn]; exact ⟨rfl, rfl, rfl⟩
      | ok m' =>
        rw [run_succ_ok hh hn]
        obtain ⟨h1, h2, h3⟩ := ih m'
        obtain ⟨g1, g2, g3⟩ := next_given hn
        exact ⟨h1.trans g1, h2.trans g2, h3.trans g3⟩

/-! ## Where a run comes to -/

/-- A step that fails leaves the machine where the steps before it brought it. -/
theorem run_error {n : Nat} {f : Failure} {m' : Machine} (h : m.run resolve n = (.error f, m')) :
    ∃ k < n, m.run resolve k = (.ok (), m') ∧ m'.progress.status.isHalted = false ∧
      m'.next resolve = .error f := by
  induction n generalizing m with
  | zero => cases h
  | succ n ih =>
    cases hh : m.progress.status.isHalted with
    | true => rw [run_of_halted hh] at h; cases h
    | false =>
      cases hn : m.next resolve with
      | error g =>
        rw [run_succ_error hh hn] at h
        cases h
        exact ⟨0, by omega, rfl, hh, hn⟩
      | ok m'' =>
        rw [run_succ_ok hh hn] at h
        obtain ⟨k, hk, hr, hs⟩ := ih h
        exact ⟨k + 1, by omega, by rw [run_succ_ok hh hn, hr], hs⟩

/-- Whatever way a run ends, its machine is one that steps without a failure bring it to. -/
theorem exists_run_eq_ok (resolve : Resolve) (n : Nat) (m : Machine) :
    ∃ k ≤ n, m.run resolve k = (.ok (), (m.run resolve n).2) := by
  cases h : m.run resolve n with
  | mk r m' =>
    cases r with
    | ok u => exact ⟨n, Nat.le_refl n, h⟩
    | error f =>
      obtain ⟨k, hk, hr, -⟩ := run_error h
      exact ⟨k, by omega, hr⟩

/-- A run is over within `k` counted steps: by then a step failed, the machine halted, or it is
about to halt without another step being counted. -/
def EndsIn (resolve : Resolve) (k : Nat) (m : Machine) : Prop :=
  IsOver (m.run resolve k) ∨ (m.run resolve k).2.haltsUncounted = true

theorem EndsIn.isOver {k : Nat} (h : m.EndsIn resolve k) : IsOver (m.run resolve (k + 1)) := by
  obtain h | h := h
  · rwa [run_add_of_isOver k 1 h]
  · cases hr : m.run resolve k with
    | mk r m' =>
      rw [hr] at h
      cases r with
      | error f =>
        rw [run_add_of_isOver k 1 (by rw [hr]; exact .inl (by simp)), hr]
        exact .inl (by simp)
      | ok u =>
        rw [run_add k 1 hr]
        cases hh : m'.progress.status.isHalted with
        | true => rw [run_of_halted hh]; exact .inr hh
        | false =>
          obtain ⟨s, hs, hn⟩ := next_uncounted resolve h
          rw [run_succ_ok hh hn]
          exact .inr hs

/-- Where a machine can be that started with no steps counted: it has as many steps behind it as are
counted, or it halted in one more that was not counted. -/
inductive Reached (resolve : Resolve) (m₀ : Machine) (m : Machine) : Prop where
  | counted (run : m₀.run resolve m.progress.steps.toNat = (.ok (), m))
  | uncounted (m' : Machine) (run : m₀.run resolve m.progress.steps.toNat = (.ok (), m'))
      (running : m'.progress.status.isHalted = false) (halts : m'.haltsUncounted = true)
      (next : m'.next resolve = .ok m)

theorem Reached.halted_of_uncounted {m' : Machine} (hu : m'.haltsUncounted = true)
    (h : m'.next resolve = .ok m) :
    m.progress.status.isHalted = true ∧ m.progress.steps = m'.progress.steps := by
  obtain ⟨s, hs, hn⟩ := next_uncounted resolve hu
  rw [hn] at h
  cases h
  exact ⟨hs, rfl⟩

/-- Fewer than `2 ^ 64` steps are counted one by one. -/
theorem reached_of_run {m₀ : Machine} (h0 : m₀.progress.steps = 0) {k : Nat}
    (hk : k < UInt64.size) (h : m₀.run resolve k = (.ok (), m)) :
    Reached resolve m₀ m ∧
      (m.progress.status.isHalted = false → m.progress.steps.toNat = k) := by
  induction k generalizing m with
  | zero =>
    obtain rfl : m₀ = m := congrArg Prod.snd h
    refine ⟨.counted ?_, fun _ => by rw [h0]; rfl⟩
    rw [h0]
    rfl
  | succ k ih =>
    cases hr : m₀.run resolve k with
    | mk r m' =>
      cases r with
      | error f =>
        rw [run_add_of_isOver k 1 (by rw [hr]; exact .inl (by simp)), hr] at h
        cases h
      | ok u =>
        rw [run_add k 1 hr] at h
        obtain ⟨hreached, hsteps⟩ := ih (by omega) hr
        cases hh : m'.progress.status.isHalted with
        | true =>
          rw [run_of_halted hh] at h
          cases h
          exact ⟨hreached, fun hf => by rw [hh] at hf; cases hf⟩
        | false =>
          have hk' := hsteps hh
          cases hn : m'.next resolve with
          | error f => rw [run_succ_error hh hn] at h; cases h
          | ok m'' =>
            rw [run_succ_ok hh hn] at h
            obtain rfl : m'' = m := congrArg Prod.snd h
            cases hu : m'.haltsUncounted with
            | true =>
              obtain ⟨hhalted, hsame⟩ := Reached.halted_of_uncounted hu hn
              refine ⟨.uncounted m' ?_ hh hu hn, fun hf => by rw [hhalted] at hf; cases hf⟩
              rw [hsame, hk', hr]
            | false =>
              have hnext : m''.progress.steps.toNat = k + 1 := by
                rw [next_steps hn hu, UInt64.toNat_add, hk']
                exact Nat.mod_eq_of_lt hk
              refine ⟨.counted ?_, fun _ => hnext⟩
              rw [hnext, run_add k 1 hr, run_succ_ok hh hn]
              rfl

/-- If the run ends before the count is full, every machine on it is counted right. -/
theorem reached_of_endsIn {m₀ : Machine} (h0 : m₀.progress.steps = 0) {k n : Nat}
    (hk : k < UInt64.size) (he : m₀.EndsIn resolve k) (h : m₀.run resolve n = (.ok (), m)) :
    Reached resolve m₀ m := by
  by_cases hn : n ≤ k
  · exact (reached_of_run h0 (by omega) h).1
  · -- the run was over at the latest one step behind the counted ones
    have hover := he.isOver
    have hlast : m₀.run resolve (k + 1) = (.ok (), m) := by
      rw [← h, ← run_add_of_isOver (k + 1) (n - (k + 1)) hover]
      congr 1
      omega
    cases hr : m₀.run resolve k with
    | mk r m' =>
      cases r with
      | error f =>
        rw [run_add_of_isOver k 1 (by rw [hr]; exact .inl (by simp)), hr] at hlast
        cases hlast
      | ok u =>
        rw [run_add k 1 hr] at hlast
        obtain ⟨hreached, hsteps⟩ := reached_of_run h0 hk hr
        cases hh : m'.progress.status.isHalted with
        | true =>
          rw [run_of_halted hh] at hlast
          cases hlast
          exact hreached
        | false =>
          have hu : m'.haltsUncounted = true := by
            obtain (ho | ho) | ho := he
            · rw [hr] at ho; exact absurd rfl ho
            · rw [hr, hh] at ho; cases ho
            · rwa [hr] at ho
          cases hnext : m'.next resolve with
          | error f => rw [run_succ_error hh hnext] at hlast; cases hlast
          | ok m'' =>
            rw [run_succ_ok hh hnext] at hlast
            obtain rfl : m'' = m := congrArg Prod.snd hlast
            refine .uncounted m' ?_ hh hu hnext
            rw [(Reached.halted_of_uncounted hu hnext).2, hsteps hh, hr]

/-! ## Counts of steps -/

theorem next_steps_le {m' : Machine} (h : m.next resolve = .ok m') :
    m'.progress.steps.toNat ≤ m.progress.steps.toNat + 1 := by
  obtain ⟨-, i, p, -, -, rfl⟩ | ⟨-, s, -, rfl⟩ := next_cases h
  · simp only [UInt64.toNat_add]
    exact Nat.mod_le _ _
  · exact Nat.le_succ _

/-- No more steps are counted than are taken. -/
theorem run_steps_le {n : Nat} {m' : Machine} (h : m.run resolve n = (.ok (), m')) :
    m'.progress.steps.toNat ≤ m.progress.steps.toNat + n := by
  induction n generalizing m with
  | zero =>
    cases h
    omega
  | succ n ih =>
    rcases run_succ_cases h with ⟨-, rfl⟩ | ⟨-, m₁, hn, hr⟩
    · omega
    · have hfirst := next_steps_le hn
      have hrest := ih hr
      omega

/-- A machine that still runs has counted all its steps. -/
theorem run_steps_eq {n : Nat} {m' : Machine} (h : m.run resolve n = (.ok (), m'))
    (hrunning : m'.progress.status.isHalted = false) :
    m'.progress.steps = m.progress.steps + UInt64.ofNat n := by
  induction n generalizing m with
  | zero =>
    cases h
    simp
  | succ n ih =>
    rcases run_succ_cases h with ⟨hhalted, rfl⟩ | ⟨-, m₁, hn, hr⟩
    · rw [hhalted] at hrunning
      cases hrunning
    · have hu : m.haltsUncounted = false := by
        rw [← Bool.not_eq_true]
        intro hu
        have hhalted := (Reached.halted_of_uncounted hu hn).1
        rw [run_of_halted hhalted] at hr
        cases hr
        rw [hhalted] at hrunning
        cases hrunning
      rw [ih hr, next_steps hn hu, Nat.add_comm n 1, UInt64.ofNat_add, UInt64.add_assoc]
      rfl

end Rerun.Machine
