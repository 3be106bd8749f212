import Rerun.Proofs.Machine.Run

/-!
# Runs under a deadline

A deadline can only cut a run short. Whoever finds it unexpired at the end of a call knows that it
was unexpired all the time, so the call did what the uninterrupted run does (`step_eq_run`).
-/

namespace Rerun

namespace Deadline

/-- The same deadline, at the same time or later. -/
structure Follows (d d' : Deadline) : Prop where
  limit : d'.limit = d.limit
  spent : d.spent ≤ d'.spent

theorem Follows.refl (d : Deadline) : d.Follows d := ⟨rfl, Nat.le_refl _⟩

theorem Follows.tick (d : Deadline) : d.Follows d.tick := ⟨rfl, Nat.le_succ _⟩

theorem Follows.trans {a b c : Deadline} (h : a.Follows b) (h' : b.Follows c) : a.Follows c :=
  ⟨h'.limit.trans h.limit, Nat.le_trans h.spent h'.spent⟩

/-- A deadline that has not expired had not expired before. -/
theorem Follows.unexpired {d d' : Deadline} (h : d.Follows d') (he : d'.isExpired = false) :
    d.isExpired = false := by
  unfold isExpired at he ⊢
  rw [h.limit] at he
  split
  · rfl
  · rename_i n hn
    rw [hn] at he
    have hs := h.spent
    simp only [decide_eq_false_iff_not] at he ⊢
    omega

theorem isExpired_of_limit_none {d : Deadline} (h : d.limit = none) : d.isExpired = false := by
  unfold isExpired
  rw [h]

/-- A call under a deadline that has not expired sees the deadline as it is. -/
theorem watched_eq {d : Deadline} (h : d.isExpired = false) : d.watched = d := by
  unfold watched
  rw [if_neg (by simp [h])]

/-- Watching a deadline can put it off, but does not set one. -/
theorem watched_limit_none {d : Deadline} (h : d.limit = none) : d.watched = d :=
  watched_eq (isExpired_of_limit_none h)

end Deadline

namespace Machine

variable {resolve : Resolve}

theorem step_follows (resolve : Resolve) (n : Nat) (d : Deadline) (m : Machine) :
    d.Follows (m.step resolve n d).deadline := by
  induction n generalizing d m with
  | zero => exact .refl d
  | succ n ih =>
    rw [step]
    split
    · exact .refl d
    · split
      · exact .tick d
      · split
        · exact .tick d
        · exact (Deadline.Follows.tick d).trans (ih _ _)

/-- Steps under a deadline that does not expire are those of the run. -/
theorem step_eq_run {n : Nat} {d : Deadline} {m : Machine}
    (h : (m.step resolve n d).deadline.isExpired = false) :
    ((m.step resolve n d).result, (m.step resolve n d).machine) = m.run resolve n := by
  induction n generalizing d m with
  | zero => rfl
  | succ n ih =>
    have hd := (step_follows resolve (n + 1) d m).unexpired h
    cases hh : m.progress.status.isHalted with
    | true => rw [run_of_halted hh, step, if_pos hh]
    | false =>
      rw [step, if_neg (by simp [hh]), if_neg (by simp [hd])] at h ⊢
      cases hn : m.next resolve with
      | error f => rw [run_succ_error hh hn]
      | ok m' =>
        rw [hn] at h
        rw [run_succ_ok hh hn]
        exact ih h

/-- Whatever the deadline does, the machine is one that the run comes to. -/
theorem step_machine (resolve : Resolve) (n : Nat) (d : Deadline) (m : Machine) :
    ∃ k ≤ n, m.run resolve k = (.ok (), (m.step resolve n d).machine) := by
  induction n generalizing d m with
  | zero => exact ⟨0, Nat.le_refl 0, rfl⟩
  | succ n ih =>
    rw [step]
    split
    · exact ⟨0, Nat.zero_le _, rfl⟩
    · rename_i hh
      split
      · exact ⟨0, Nat.zero_le _, rfl⟩
      · cases hn : m.next resolve with
        | error f => exact ⟨0, Nat.zero_le _, rfl⟩
        | ok m' =>
          obtain ⟨k, hk, hr⟩ := ih d.tick m'
          exact ⟨k + 1, by omega, by rw [run_succ_ok (by simpa using hh) hn]; exact hr⟩

/-! ## Some steps at a time -/

/-- Takes `chunk` steps at a time until the machine halts or a step fails; after `fuel` chunks it is
taken for endless. -/
def runInChunks (resolve : Resolve) (chunk : Nat) : Nat → Machine → Result Unit × Machine
  | 0, m => (.error .endless, m)
  | fuel + 1, m =>
    if m.progress.status ≠ .running then (.ok (), m)
    else
      match m.run resolve chunk with
      | (.error f, m) => (.error f, m)
      | (.ok (), m) => runInChunks resolve chunk fuel m

theorem isHalted_eq_false_iff {s : Status} : s.isHalted = false ↔ s = .running := by
  cases s <;> simp [Status.isHalted]

/-- A run that is over in `n` steps is over in any chunks, if there are more of them than steps. -/
theorem runInChunks_eq_run {chunk n : Nat} {m : Machine} (hc : 0 < chunk) {fuel : Nat}
    (hn : n < fuel) (h : IsOver (m.run resolve n)) :
    m.runInChunks resolve chunk fuel = m.run resolve n := by
  induction fuel generalizing n m with
  | zero => omega
  | succ fuel ih =>
    rw [runInChunks]
    cases hh : m.progress.status.isHalted with
    | true =>
      rw [if_pos (fun hr => by rw [hr] at hh; cases hh), run_of_halted hh]
    | false =>
      rw [if_neg (by simpa using isHalted_eq_false_iff.1 hh)]
      cases hr : m.run resolve chunk with
      | mk r m' =>
        cases r with
        | error f =>
          have hover : IsOver (m.run resolve chunk) := by rw [hr]; exact .inl (by simp)
          exact hr.symm.trans (run_unique hover h)
        | ok u =>
          -- a running machine needs at least one step, so the chunk brings the end nearer
          have hpos : 0 < n := by
            obtain hn0 | hn0 := Nat.eq_zero_or_pos n
            · rw [hn0] at h
              obtain h | h := h
              · exact absurd rfl h
              · rw [run, hh] at h; cases h
            · exact hn0
          dsimp only
          by_cases hle : chunk ≤ n
          · have hrun : m.run resolve n = m'.run resolve (n - chunk) := by
              rw [← run_add chunk (n - chunk) hr]
              congr 1
              omega
            rw [hrun] at h ⊢
            exact ih (by omega) h
          · have hrun : m.run resolve n = (.ok (), m') := by
              rw [← hr, ← run_add_of_isOver n (chunk - n) h]
              congr 1
              omega
            rw [hrun] at h ⊢
            have hover : IsOver (m'.run resolve 0) := h
            exact ih (by omega) hover

end Machine

end Rerun
