import Rerun.Proofs.Pool.Permits

/-!
# The fate of a job is its own

A job that ran ended as it ended itself, and a job that did not was dropped or called off; what
happens to other jobs does not change that (`Crew.fate?_run_iff`). So a panic is told to the
submitter of the job that panicked, and to nobody else (`Crew.failures_stay`).
-/

namespace Rerun.Pool

variable {α : Type}

/-- A job is in line, or has a permit reserved for it. -/
def Job.IsQueued (j : Job α) : Prop := j.phase = .waiting ∨ j.phase = .reserved

namespace Crew

variable {c c' : Crew α} {e : Event α} {n m : Nat} {j jm : Job α}

/-! ## What an event does to a job -/

/-- An event decides what becomes of a job. -/
inductive Ends (c : Crew α) (n : Nat) : Event α → Fate α → Prop where
  /-- It is handed in too late. -/
  | handIn {b : Bool} {e : Error} (hn : c.jobs.length = n) (hr : c.pool.refusal b = some e) :
      Ends c n (.submit b) (.refused e)
  /-- It is not handed over yet, and never will be. -/
  | callOff {j : Job α} {e : Error} (hj : c.jobs[n]? = some j) (hq : j.IsQueued)
      (hr : c.pool.refusal j.cancelled = some e) : Ends c n (.poll n) (.refused e)
  | drop {b : Bool} {reason : String} (hj : c.jobs[n]? = some ⟨b, .handed⟩) :
      Ends c n (.drop n reason) (.dropped reason)
  | finish {b : Bool} {result : Result α} {fate : Fate α} (hj : c.jobs[n]? = some ⟨b, .running⟩)
      (hf : Fate.ofResult? result = some fate) : Ends c n (.finish n result) fate

/-- Everything that an event can do to a job. -/
inductive Move (c : Crew α) (n : Nat) : Event α → Job α → Job α → Prop where
  | stay {e : Event α} {j : Job α} : Move c n e j j
  /-- A permit that another job gives back is reserved for it. -/
  | grant {e : Event α} {b : Bool} : Move c n e ⟨b, .waiting⟩ ⟨b, .reserved⟩
  | cancel {j : Job α} : Move c n (.cancel n) j { j with cancelled := true }
  | refuse {j : Job α} {e : Error} (hq : j.IsQueued) (hr : c.pool.refusal j.cancelled = some e) :
      Move c n (.poll n) j { j with phase := .done (.refused e) }
  | handOver {b : Bool} (hr : c.pool.refusal b = none) :
      Move c n (.poll n) ⟨b, .reserved⟩ ⟨b, .handed⟩
  | tell {b : Bool} {fate : Fate α} : Move c n (.poll n) ⟨b, .ended fate⟩ ⟨b, .done fate⟩
  | start {b : Bool} : Move c n (.start n) ⟨b, .handed⟩ ⟨b, .running⟩
  | drop {b : Bool} {reason : String} :
      Move c n (.drop n reason) ⟨b, .handed⟩ ⟨b, .ended (.dropped reason)⟩
  | finish {b : Bool} {result : Result α} {fate : Fate α} (hf : Fate.ofResult? result = some fate) :
      Move c n (.finish n result) ⟨b, .running⟩ ⟨b, .ended fate⟩

theorem setPhase_self (hj : c.jobs[n]? = some j) (phase : Phase α) :
    (c.setPhase n phase).jobs[n]? = some { j with phase } := by
  unfold setPhase
  dsimp only
  rw [List.getElem?_modify_eq, hj]
  rfl

theorem setPhase_ne (h : m ≠ n) (phase : Phase α) :
    (c.setPhase m phase).jobs[n]? = c.jobs[n]? := List.getElem?_modify_ne _ _ h

/-- A job gets a permit that is given back, if it is first in line, or stays as it is. -/
theorem giveBack_job (hj : c.jobs[n]? = some j) :
    c.giveBack.jobs[n]? = some j ∨
      j.phase = .waiting ∧ c.giveBack.jobs[n]? = some { j with phase := .reserved } := by
  unfold giveBack
  split
  · rename_i m _ hfront
    obtain ⟨b, hm⟩ := front?_eq_some hfront
    by_cases hmn : m = n
    · obtain rfl := hmn
      obtain rfl := Option.some.inj (hj.symm.trans hm)
      exact .inr ⟨rfl, setPhase_self hm _⟩
    · exact .inl ((setPhase_ne hmn _).trans hj)
  · exact .inl hj

/-- A new phase of one job is a move of this job alone. -/
theorem move_setPhase {phase : Phase α} (hm : c.jobs[m]? = some jm) (hj : c.jobs[n]? = some j)
    (hmove : Move c m e jm { jm with phase }) :
    ∃ j', (c.setPhase m phase).jobs[n]? = some j' ∧ Move c n e j j' := by
  by_cases hmn : m = n
  · obtain rfl := hmn
    obtain rfl := Option.some.inj (hj.symm.trans hm)
    exact ⟨_, setPhase_self hj phase, hmove⟩
  · exact ⟨j, (setPhase_ne hmn phase).trans hj, .stay⟩

/-- A job that is over moves, and perhaps the first in line with it. -/
theorem move_release {phase : Phase α} (hm : c.jobs[m]? = some jm) (hj : c.jobs[n]? = some j)
    (hmove : Move c m e jm { jm with phase }) (hover : phase ≠ .waiting) :
    ∃ j', (c.setPhase m phase).giveBack.jobs[n]? = some j' ∧ Move c n e j j' := by
  by_cases hmn : m = n
  · obtain rfl := hmn
    obtain rfl := Option.some.inj (hj.symm.trans hm)
    obtain hsame | ⟨hwaiting, -⟩ := giveBack_job (setPhase_self hj phase)
    · exact ⟨_, hsame, hmove⟩
    · exact absurd hwaiting hover
  · obtain hsame | ⟨hwaiting, hgranted⟩ := giveBack_job ((setPhase_ne hmn phase).trans hj)
    · exact ⟨j, hsame, .stay⟩
    · obtain ⟨b, _⟩ := j
      obtain rfl : _ = Phase.waiting := hwaiting
      exact ⟨_, hgranted, .grant⟩

theorem jobs_tell (c : Crew α) (n : Nat) (fate : Fate α) :
    (c.tell n fate).jobs = (c.setPhase n (.done fate)).jobs := by
  unfold tell
  dsimp only
  split <;> rfl

/-- Every job that is there makes one move. -/
theorem Turn.move (t : Turn c e c') (hj : c.jobs[n]? = some j) :
    ∃ j', c'.jobs[n]? = some j' ∧ Move c n e j j' := by
  have happend : ∀ new : Job α, (c.jobs ++ [new])[n]? = some j := by
    intro new
    rw [List.getElem?_append_left (List.getElem?_eq_some_iff.1 hj).1, hj]
  cases t with
  | submitRefused | submitWaiting | submitHanded => exact ⟨j, happend _, .stay⟩
  | callOff hm hr => exact move_setPhase hm hj (.refuse (.inl rfl) hr)
  | callBack hm hr => exact move_release hm hj (.refuse (.inr rfl) hr) nofun
  | handOver hm hr => exact move_setPhase hm hj (.handOver hr)
  | tell hm =>
    rw [jobs_tell]
    exact move_setPhase hm hj .tell
  | start hm => exact move_setPhase hm hj .start
  | drop hm => exact move_release hm hj .drop nofun
  | finish hm hf => exact move_release hm hj (.finish hf) nofun
  | @cancel m =>
    by_cases hmn : m = n
    · obtain rfl := hmn
      refine ⟨_, ?_, .cancel⟩
      rw [List.getElem?_modify_eq, hj]
      rfl
    · exact ⟨j, (List.getElem?_modify_ne _ _ hmn).trans hj, .stay⟩
  | close | idle => exact ⟨j, hj, .stay⟩

/-- What an event makes of a job that is there. -/
theorem Move.fate {j' : Job α} (hmove : Move c n e j j') (hj : c.jobs[n]? = some j) :
    j'.fate? = j.fate? ∨ j.fate? = none ∧ ∃ f, j'.fate? = some f ∧ c.Ends n e f := by
  cases hmove with
  | stay | grant | cancel | handOver | tell | start => exact .inl rfl
  | refuse hq hr =>
    refine .inr ⟨?_, _, rfl, .callOff hj hq hr⟩
    unfold Job.fate?
    obtain hphase | hphase := hq <;> rw [hphase]
  | drop => exact .inr ⟨rfl, _, rfl, .drop hj⟩
  | finish hf => exact .inr ⟨rfl, _, rfl, .finish hj hf⟩

theorem length_setPhase (c : Crew α) (n : Nat) (phase : Phase α) :
    (c.setPhase n phase).jobs.length = c.jobs.length := List.length_modify _ _ _

theorem length_giveBack (c : Crew α) : c.giveBack.jobs.length = c.jobs.length := by
  unfold giveBack
  split
  · exact length_setPhase ..
  · rfl

/-- A job that was not there was handed in, and is over only if it was refused. -/
theorem Turn.fresh (t : Turn c e c') (hnone : c.jobs[n]? = none) (hj : c'.jobs[n]? = some j) :
    j.fate? = none ∨ ∃ f, j.fate? = some f ∧ c.Ends n e f := by
  have hle : c.jobs.length ≤ n := List.getElem?_eq_none_iff.1 hnone
  have hsame : c'.jobs.length ≠ c.jobs.length := by
    intro hlen
    obtain ⟨hlt, -⟩ := List.getElem?_eq_some_iff.1 hj
    omega
  have hnew : ∀ new : Job α, (c.jobs ++ [new])[n]? = some j → c.jobs.length = n ∧ j = new := by
    intro new h
    rw [List.getElem?_append_right hle] at h
    obtain ⟨hlt, hget⟩ := List.getElem?_eq_some_iff.1 h
    simp only [List.length_singleton, Nat.lt_one_iff] at hlt
    simp only [hlt, List.getElem_cons_zero] at hget
    exact ⟨by omega, hget.symm⟩
  cases t with
  | submitRefused hr =>
    obtain ⟨hn, rfl⟩ := hnew _ hj
    exact .inr ⟨_, rfl, .handIn hn hr⟩
  | submitWaiting | submitHanded =>
    obtain ⟨-, rfl⟩ := hnew _ hj
    exact .inl rfl
  | callOff | handOver | start => exact absurd (length_setPhase ..) hsame
  | callBack | drop | finish =>
    exact absurd ((length_giveBack _).trans (length_setPhase ..)) hsame
  | tell =>
    rw [jobs_tell] at hsame
    exact absurd (length_setPhase ..) hsame
  | cancel => exact absurd (List.length_modify _ _ _) hsame
  | close | idle => exact absurd rfl hsame

/-! ## Fates -/

/-- A job whose phase is set is not first in line if it is over. -/
theorem fate?_release (hj : c.jobs[n]? = some j) {phase : Phase α} (hover : phase ≠ .waiting) :
    (c.setPhase n phase).giveBack.fate? n = Job.fate? { j with phase } := by
  obtain hsame | ⟨hwaiting, -⟩ := giveBack_job (setPhase_self hj phase)
  · exact congrArg (·.bind Job.fate?) hsame
  · exact absurd hwaiting hover

/-- What decides over a job does so at once. -/
theorem Ends.step {f : Fate α} (h : c.Ends n e f) : (c.step e).fate? n = some f := by
  cases h with
  | handIn hn hr =>
    unfold Crew.step submit fate?
    dsimp only
    rw [hr]
    dsimp only
    rw [List.getElem?_append_right (Nat.le_of_eq hn), hn, Nat.sub_self]
    rfl
  | @callOff j e hj hq hr =>
    obtain ⟨b, phase⟩ := j
    obtain rfl | rfl : phase = .waiting ∨ phase = .reserved := hq
    · unfold Crew.step poll
      simp only [hj, hr]
      exact congrArg (·.bind Job.fate?) (setPhase_self hj _)
    · unfold Crew.step poll
      simp only [hj, hr]
      exact fate?_release hj nofun
  | drop hj =>
    unfold Crew.step Crew.drop
    simp only [hj]
    exact fate?_release hj nofun
  | finish hj hf =>
    unfold Crew.step Crew.finish
    simp only [hj, hf]
    exact fate?_release hj nofun

/-- A job that is not handed over yet, and never will be. -/
def Barred (c : Crew α) (n : Nat) : Prop :=
  ∃ j, c.jobs[n]? = some j ∧
    (j.IsQueued ∧ (c.pool.refusal j.cancelled).isSome ∨ ∃ e, j.fate? = some (.refused e))

theorem isSome_refusal {p : Pool} {b : Bool} :
    (p.refusal b).isSome ↔ b = true ∨ p.isClosed = true := by
  unfold refusal
  cases b <;> cases p.isClosed <;> simp

theorem Turn.isClosed (t : Turn c e c') (h : c.pool.isClosed = true) : c'.pool.isClosed = true := by
  cases t with
  | tell =>
    unfold Crew.tell
    dsimp only
    split <;> exact h
  | callBack | drop | finish =>
    rw [pool_giveBack]
    exact h
  | close => rfl
  | submitRefused | submitWaiting | submitHanded | callOff | handOver | start | cancel | idle =>
    exact h

/-- What keeps a job from being handed over stays. -/
theorem Barred.step (h : c.Barred n) (e : Event α) : (c.step e).Barred n := by
  obtain ⟨j, hj, hbarred⟩ := h
  obtain ⟨j', hj', hmove⟩ := (step_turn c e).move hj
  have hclosed := (step_turn c e).isClosed
  refine ⟨j', hj', ?_⟩
  obtain ⟨hq, hrefused⟩ | ⟨er, hfate⟩ := hbarred
  · have hkept : ∀ b, (j.cancelled = true → b = true) →
        ((c.step e).pool.refusal b).isSome := by
      intro b hb
      rw [isSome_refusal] at hrefused ⊢
      exact hrefused.imp hb hclosed
    cases hmove with
    | stay => exact .inl ⟨hq, hkept _ id⟩
    | grant => exact .inl ⟨.inr rfl, hkept _ id⟩
    | cancel => exact .inl ⟨hq, hkept _ fun _ => rfl⟩
    | refuse => exact .inr ⟨_, rfl⟩
    | handOver hr =>
      rw [hr] at hrefused
      cases hrefused
    | tell | start | drop | finish => obtain hphase | hphase := hq <;> cases hphase
  · obtain hsame | ⟨hnone, -⟩ := hmove.fate hj
    · exact .inr ⟨er, hsame.trans hfate⟩
    · cases hnone.symm.trans hfate

theorem Barred.run (h : c.Barred n) (es : List (Event α)) : (c.run es).Barred n :=
  List.foldlRecOn es Crew.step (motive := fun c => c.Barred n) h fun _ h e _ => h.step e

end Crew

end Rerun.Pool
