import Mathlib.Tactic.Ring
import Rerun.Proofs.Machine.Ahead

/-!
# How far the looks at the clock carry

A call takes a look at the clock before every step. So the looks that find the deadline unexpired
say how many steps of the uninterrupted run the call takes, unless the run is over before
(`step_eq_run_min`); on the way to host input they say how far the machine walks
(`stepUntilHostIo_eq_walk`).
-/

namespace Rerun

namespace Deadline

/-- The looks that find the deadline unexpired, if it ever expires. -/
def left (d : Deadline) : Option Nat := d.limit.map (· - d.spent)

variable {d : Deadline} {n : Nat}

theorem left_eq_none : d.left = none ↔ d.limit = none := Option.map_eq_none_iff

theorem isExpired_of_left_zero (h : d.left = some 0) : d.isExpired = true := by
  obtain ⟨limit, hl, h0⟩ := Option.map_eq_some_iff.1 h
  unfold isExpired
  rw [hl]
  simp only [decide_eq_true_eq]
  omega

theorem isExpired_of_left_succ (h : d.left = some (n + 1)) : d.isExpired = false := by
  obtain ⟨limit, hl, h0⟩ := Option.map_eq_some_iff.1 h
  unfold isExpired
  rw [hl]
  simp only [decide_eq_false_iff_not]
  omega

theorem left_of_isExpired (h : d.isExpired = true) : d.left = some 0 := by
  unfold isExpired at h
  unfold left
  cases hl : d.limit with
  | none =>
    rw [hl] at h
    cases h
  | some limit =>
    rw [hl, decide_eq_true_eq] at h
    exact congrArg some (Nat.sub_eq_zero_of_le h)

/-- Every look is one less. -/
theorem left_tick (h : d.left = some n) : d.tick.left = some (n - 1) := by
  obtain ⟨limit, hl, hn⟩ := Option.map_eq_some_iff.1 h
  refine Option.map_eq_some_iff.2 ⟨limit, hl, ?_⟩
  show limit - (d.spent + 1) = n - 1
  omega

theorem left_tick_none (h : d.left = none) : d.tick.left = none :=
  left_eq_none.2 (left_eq_none (d := d).1 h)

end Deadline

namespace Machine

variable {resolve : Resolve} {d : Deadline} {m : Machine}

/-! ## Steps -/

/-- A call takes as many steps as it is asked for, but no more than the looks carry. -/
theorem step_eq_run_min (resolve : Resolve) (m : Machine) {n : Nat} (h : d.left = some n)
    (count : Nat) :
    ((m.step resolve count d).result, (m.step resolve count d).machine) =
      m.run resolve (min n count) := by
  induction count generalizing d m n with
  | zero =>
    rw [Nat.min_zero]
    rfl
  | succ count ih =>
    rw [step]
    cases hh : m.progress.status.isHalted with
    | true =>
      rw [if_pos rfl, run_of_halted hh]
    | false =>
      rw [if_neg (by simp)]
      cases n with
      | zero =>
        rw [if_pos (Deadline.isExpired_of_left_zero h), Nat.zero_min]
        rfl
      | succ n =>
        rw [if_neg (by simp [Deadline.isExpired_of_left_succ h]), Nat.succ_min_succ]
        cases hn : m.next resolve with
        | error f => rw [run_succ_error hh hn]
        | ok m' =>
          rw [run_succ_ok hh hn]
          exact ih m' (Deadline.left_tick h)

/-- A call that left its machine running has taken a look for every step, and one more if that was
what stopped it. -/
theorem left_step {n : Nat} (h : d.left = some n) (count : Nat)
    (hr : (m.step resolve count d).result = .ok ())
    (hm : (m.step resolve count d).machine.progress.status.isHalted = false) :
    (m.step resolve count d).deadline.left = some (n - count) := by
  induction count generalizing d m n with
  | zero => exact h
  | succ count ih =>
    rw [step] at hr hm ⊢
    cases hh : m.progress.status.isHalted with
    | true =>
      rw [hh, if_pos rfl] at hm
      rw [hm] at hh
      cases hh
    | false =>
      rw [hh, if_neg (by simp)] at hr hm
      rw [if_neg (by simp)]
      cases n with
      | zero =>
        rw [if_pos (Deadline.isExpired_of_left_zero h), Nat.zero_sub]
        exact Deadline.left_tick h
      | succ n =>
        rw [if_neg (by simp [Deadline.isExpired_of_left_succ h])] at hr hm ⊢
        cases hn : m.next resolve with
        | error f =>
          rw [hn] at hr
          cases hr
        | ok m' =>
          rw [hn] at hr hm
          rw [Nat.add_sub_add_right]
          exact ih (Deadline.left_tick h) hr hm

/-! ## The way to host input -/

/-- Walks `n` steps of the way to host input, fewer if it ends before. -/
def walk : Nat → Machine → Machine
  | 0, m => m
  | n + 1, m => if m.waits then m else m.nextAlone.walk n

theorem walk_of_waits (h : m.waits = true) (n : Nat) : m.walk n = m := by
  cases n with
  | zero => rfl
  | succ n => rw [walk, if_pos h]

theorem walk_succ (h : m.waits = false) (n : Nat) : m.walk (n + 1) = m.nextAlone.walk n := by
  rw [walk, if_neg (by simp [h])]

theorem ahead_walk (m : Machine) (n : Nat) : Ahead m (m.walk n) := by
  induction n generalizing m with
  | zero => exact .here m
  | succ n ih =>
    cases hw : m.waits with
    | true =>
      rw [walk_of_waits hw]
      exact .here m
    | false =>
      rw [walk_succ hw]
      exact .step hw (ih m.nextAlone)

theorem stepUntilHostIo_of_waits (h : m.waits = true) (fuel : Nat) (d : Deadline) :
    ((m.stepUntilHostIo resolve (fuel + 1) d).result,
        (m.stepUntilHostIo resolve (fuel + 1) d).machine) = (.ok (), m) := by
  rw [stepUntilHostIo]
  split
  · rfl
  · rename_i hh
    split
    · rfl
    · rw [waits, Bool.eq_false_iff.2 hh, Bool.false_or] at h
      rw [if_pos h]

theorem stepUntilHostIo_of_goes (h : m.waits = false) (hd : d.isExpired = false) (fuel : Nat) :
    m.stepUntilHostIo resolve (fuel + 1) d =
      m.nextAlone.stepUntilHostIo resolve fuel d.tick := by
  have hgoes : m.progress.status.isHalted = false ∧ m.atHostIo = false := by
    simpa [waits] using h
  rw [stepUntilHostIo, if_neg (by simp [hgoes.1]), if_neg (by simp [hd]),
    if_neg (by simp [hgoes.2]), next_eq_nextAlone resolve hgoes.2]

/-- A call walks as far as the looks carry. It is not taken for endless if it has patience for that
many. -/
theorem stepUntilHostIo_eq_walk {n fuel : Nat} (h : d.left = some n) (hf : n < fuel) :
    ((m.stepUntilHostIo resolve fuel d).result, (m.stepUntilHostIo resolve fuel d).machine) =
      (.ok (), m.walk n) := by
  induction fuel generalizing d m n with
  | zero => omega
  | succ fuel ih =>
    cases hw : m.waits with
    | true => rw [stepUntilHostIo_of_waits hw, walk_of_waits hw]
    | false =>
      cases n with
      | zero =>
        rw [stepUntilHostIo, if_pos (Deadline.isExpired_of_left_zero h)]
        split <;> rfl
      | succ n =>
        rw [stepUntilHostIo_of_goes hw (Deadline.isExpired_of_left_succ h), walk_succ hw]
        exact ih (Deadline.left_tick h) (by omega)

/-- Under a deadline that never expires the walk comes to its end, if that is near enough. -/
theorem stepUntilHostIo_never {horizon : Nat} (h : d.left = none) :
    ((m.stepUntilHostIo resolve (horizon + 1) d).result,
        (m.stepUntilHostIo resolve (horizon + 1) d).machine) =
      (if (m.walk horizon).waits then .ok () else .error .endless, m.walk (horizon + 1)) := by
  induction horizon generalizing d m with
  | zero =>
    cases hw : m.waits with
    | true => rw [stepUntilHostIo_of_waits hw, walk, if_pos hw, walk_of_waits hw]
    | false =>
      have hd := Deadline.isExpired_of_limit_none (Deadline.left_eq_none.1 h)
      rw [stepUntilHostIo_of_goes hw hd, walk, if_neg (by simp [hw]), walk_succ hw]
      rfl
  | succ horizon ih =>
    cases hw : m.waits with
    | true => rw [stepUntilHostIo_of_waits hw, walk_of_waits hw, if_pos hw, walk_of_waits hw]
    | false =>
      have hd := Deadline.isExpired_of_limit_none (Deadline.left_eq_none.1 h)
      rw [stepUntilHostIo_of_goes hw hd, walk_succ hw, walk_succ hw]
      exact ih (Deadline.left_tick_none h)

/-- A walk that comes to its end has a length. -/
theorem Ahead.exists_walk {a : Machine} (h : Ahead m a) (hw : a.waits = true) :
    ∃ n, ∀ k, n ≤ k → m.walk k = a := by
  induction h with
  | here m => exact ⟨0, fun k _ => walk_of_waits hw k⟩
  | step goes rest ih =>
    obtain ⟨n, hn⟩ := ih hw
    refine ⟨n + 1, fun k hk => ?_⟩
    obtain ⟨k, rfl⟩ : ∃ j, k = j + 1 := ⟨k - 1, by omega⟩
    rw [walk_succ goes, hn k (by omega)]

/-- The way to host input is part of the run. -/
theorem Ahead.exists_run {a : Machine} (h : Ahead m a) (resolve : Resolve) :
    ∃ n, m.run resolve n = (.ok (), a) := by
  induction h with
  | here m => exact ⟨0, rfl⟩
  | @step m m' goes rest ih =>
    obtain ⟨n, hn⟩ := ih
    have hgoes : m.progress.status.isHalted = false ∧ m.atHostIo = false := by
      simpa [waits] using goes
    exact ⟨n + 1, by rw [run_succ_ok hgoes.1 (next_eq_nextAlone resolve hgoes.2), hn]⟩

/-! ## Some steps at a time -/

/-- With one look before every chunk, `n` looks carry this many steps, `chunk` at a time. -/
def chunked (chunk n : Nat) : Nat := n * chunk / (chunk + 1)

theorem chunked_zero (chunk : Nat) : chunked chunk 0 = 0 := by
  simp [chunked]

/-- The first chunk takes a look of its own, and one for every step. -/
theorem chunked_succ (chunk n : Nat) :
    chunked chunk (n + 1) = min n chunk + chunked chunk (n - chunk) := by
  unfold chunked
  by_cases hle : chunk ≤ n
  · obtain ⟨more, rfl⟩ := Nat.exists_eq_add_of_le hle
    have hsplit : (chunk + more + 1) * chunk = more * chunk + (chunk + 1) * chunk := by ring
    rw [Nat.min_eq_right hle, Nat.add_sub_cancel_left, hsplit,
      Nat.add_mul_div_left _ _ (Nat.succ_pos chunk), Nat.add_comm]
  · have hmin : min n chunk = n := by omega
    have hsub : n - chunk = 0 := by omega
    have hlow : n * (chunk + 1) ≤ (n + 1) * chunk := by
      have hexpand : n * (chunk + 1) = n * chunk + n := by ring
      have hexpand' : (n + 1) * chunk = n * chunk + chunk := by ring
      omega
    have hhigh : (n + 1) * chunk < (n + 1) * (chunk + 1) :=
      Nat.mul_lt_mul_of_pos_left (Nat.lt_succ_self chunk) (Nat.succ_pos n)
    rw [hmin, hsub, Nat.zero_mul, Nat.zero_div, Nat.add_zero]
    exact Nat.div_eq_of_lt_le hlow hhigh

/-- Where a run ends is a number of steps without a failure away, and if it failed, the step behind
them fails. -/
theorem run_comes (resolve : Resolve) (n : Nat) (m : Machine) :
    ∃ k ≤ n, m.run resolve k = (.ok (), (m.run resolve n).2) ∧
      ∀ f, (m.run resolve n).1 = .error f →
        (m.run resolve n).2.progress.status.isHalted = false ∧
          (m.run resolve n).2.next resolve = .error f := by
  cases hr : m.run resolve n with
  | mk r m' =>
    cases r with
    | ok u => exact ⟨n, Nat.le_refl n, hr, fun f hf => by cases hf⟩
    | error g =>
      obtain ⟨k, hk, hrun, hh, hn⟩ := run_error hr
      refine ⟨k, by omega, hrun, ?_⟩
      rintro f ⟨⟩
      exact ⟨hh, hn⟩

/-- So is where chunks end. They can also be taken for endless. -/
theorem runInChunks_comes (resolve : Resolve) (chunk fuel : Nat) (m : Machine) :
    ∃ k, m.run resolve k = (.ok (), (m.runInChunks resolve chunk fuel).2) ∧
      ∀ f, (m.runInChunks resolve chunk fuel).1 = .error f →
        f = .endless ∨ (m.runInChunks resolve chunk fuel).2.progress.status.isHalted = false ∧
          (m.runInChunks resolve chunk fuel).2.next resolve = .error f := by
  induction fuel generalizing m with
  | zero =>
    refine ⟨0, rfl, ?_⟩
    rintro f ⟨⟩
    exact .inl rfl
  | succ fuel ih =>
    rw [runInChunks]
    split
    · exact ⟨0, rfl, fun f hf => by cases hf⟩
    · obtain ⟨k, -, hrun, hnext⟩ := run_comes resolve chunk m
      cases hr : m.run resolve chunk with
      | mk r m' =>
        rw [hr] at hrun hnext
        cases r with
        | error g => exact ⟨k, hrun, fun f hf => .inr (hnext f hf)⟩
        | ok u =>
          obtain ⟨k', hrun', hnext'⟩ := ih m'
          exact ⟨k + k', by rw [run_add k k' hrun]; exact hrun', hnext'⟩

/-- Chunks that come to an end were a run that is over. -/
theorem runInChunks_isOver {chunk fuel : Nat}
    (h : (m.runInChunks resolve chunk fuel).1 ≠ .error .endless) :
    ∃ n, IsOver (m.run resolve n) ∧ m.runInChunks resolve chunk fuel = m.run resolve n := by
  induction fuel generalizing m with
  | zero => exact absurd rfl h
  | succ fuel ih =>
    rw [runInChunks] at h ⊢
    split at h
    · rename_i hs
      rw [if_pos hs]
      refine ⟨0, .inr ?_, rfl⟩
      show m.progress.status.isHalted = true
      by_contra hh
      exact hs (isHalted_eq_false_iff.1 (Bool.eq_false_iff.2 hh))
    · rename_i hs
      rw [if_neg hs]
      cases hr : m.run resolve chunk with
      | mk r m' =>
        rw [hr] at h
        cases r with
        | error f => exact ⟨chunk, .inl (by simp [hr]), hr.symm⟩
        | ok u =>
          obtain ⟨n, hover, heq⟩ := ih h
          refine ⟨chunk + n, ?_, ?_⟩
          · rwa [run_add chunk n hr]
          · rw [run_add chunk n hr]
            exact heq

end Machine

end Rerun
