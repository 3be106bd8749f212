import Rerun.Proofs.Site.Lasting
import Rerun.Proofs.Site.Request

/-!
# What runs depend on

Without a limit the outcome of a run depends on nothing but its input and what the directory of its
module root yields, up to the token in an error (`run_outcome_unique`).
-/

namespace Rerun

/-! ## Outcomes -/

/-- The outcome without the token that its error names. -/
def Run.untoken (outcome : Option (Except Error GlobalState)) :
    Option (Except Error GlobalState) :=
  outcome.map (Except.mapError Error.untoken)

namespace Handle

theorem runCopy_limit (host : Host) (x : Input) (d : Deadline) (way : Way) (horizon : Nat)
    (m : Machine) (isFrozen : Bool) :
    ((plain m isFrozen none).runCopy host x d (way.advance horizon)).deadline.limit = d.limit := by
  rw [runCopy_plain]
  cases way with
  | atOnce => rfl
  | inChunks chunk =>
    show ((plain _ false _).stepInChunks _ horizon d chunk).1.deadline.limit = d.limit
    unfold stepInChunks
    split <;> rfl

/-- A run without a limit ends in one way, whatever else happened before. -/
theorem runCopy_untoken {host host' : Host} {x : Input} {d d' : Deadline} (way : Way)
    {horizon : Nat} {m : Machine} {isFrozen : Bool} (hd : d.limit = none) (hd' : d'.limit = none) :
    Result.untoken
        ((plain m isFrozen none).runCopy host x d (way.advance horizon)).result =
      Result.untoken
        ((plain m isFrozen none).runCopy host' x d' (way.advance horizon)).result := by
  have hopen : ∀ (host : Host) (d : Deadline), d.limit = none →
      ((plain m isFrozen none).runCopy host x d (way.advance horizon)).deadline.isExpired =
        false := by
    intro host d hd
    have hlimit := runCopy_limit host x d way horizon m isFrozen
    exact Deadline.isExpired_of_limit_none (hlimit.trans hd)
  have h := hopen host d hd
  have h' := hopen host' d' hd'
  cases way with
  | atOnce => exact (runCopy_runNatively h).trans (runCopy_runNatively h').symm
  | inChunks chunk =>
    have hsame : d.remaining horizon = d'.remaining horizon := by
      unfold Deadline.remaining
      rw [hd, hd']
    have hrun := runCopy_interpret 0 h (.inl rfl)
    rw [hsame] at hrun
    exact hrun.trans (runCopy_interpret 0 h' (.inl rfl)).symm

end Handle

namespace Site

theorem settle_untoken {α : Type} {s s' : Site} {r r' : Result α} (h : r.untoken = r'.untoken) :
    Result.untoken (s.settle r).1 = Result.untoken (s'.settle r').1 := by
  cases r with
  | ok a =>
    rw [Result.untoken_ok] at h
    rw [Result.untoken_eq_ok.1 h.symm]
    rfl
  | error f =>
    obtain ⟨g, rfl, hg⟩ := Result.untoken_eq_error h.symm
    cases f with
    | error e =>
      cases g with
      | error e' =>
        have he : e'.untoken = e.untoken := Failure.error.inj hg
        show Result.untoken (fail e) = Result.untoken (fail e')
        exact congrArg fail he.symm
      | panic payload => cases hg
      | endless => cases hg
    | panic payload =>
      cases g with
      | error e' => cases hg
      | panic payload' =>
        cases hg
        rfl
      | endless => cases hg
    | endless =>
      cases g with
      | error e' => cases hg
      | panic payload' => cases hg
      | endless => rfl

end Site

namespace Runner

open Site (After Calm Yields)

variable {s₀ s s' : Site}

/-! ## The work on a run -/

/-- A worker that is there runs the input on a copy, and settles how that ended. -/
theorem onWorker_eq {r : Runner} (h : r.pool.refusal r.isStopped = none) (s : Site) (x : Input)
    (d : Deadline) (pair : MachinePair) :
    let finished := (r.source pair).runCopy s.host x d (r.way.advance s.clock.horizon)
    let settled := Site.settle { s with host := finished.host } finished.result
    r.onWorker s x d pair = (settled.1, finished.deadline.spent, settled.2) := by
  intro finished settled
  unfold onWorker
  rw [h]

/-- A run that is not refused asks for its machines, does its work, and lets time pass for all
builds in flight. -/
theorem work_eq {r : Runner} {isClosed : Bool} (h : r.refusal isClosed = none) (s : Site)
    (root : Digest) (x : Input) (patience : Option Nat) :
    let limit := r.limit s.clock patience
    let found := s.pair limit root
    let ended := r.withPair found.2.2 x (deadline found.2.2.clock limit found.2.1) found.1
    r.work s root x isClosed patience =
      (ended.1, ended.2.1, ended.2.2.pass (ended.2.1 - found.2.1) ended.2.2.inFlight) := by
  intro limit found ended
  unfold work
  rw [h]

/-! ## What a run depends on -/

/-- The outcome that is handed to a run. -/
def told : Result GlobalState → Option (Except Error GlobalState)
  | .ok g => some (.ok g)
  | .error (.error e) => some (.error e)
  | .error _ => none

theorem told_untoken (result : Result GlobalState) :
    told result.untoken = Run.untoken (told result) := by
  rcases result with (e | payload | -) | g <;> rfl

theorem deliver_outcome (s : Site) (id : UInt64) (root : Digest) (isClosed : Bool) (looks : Nat)
    (result : Result GlobalState) :
    (deliver s { id, root, isClosed } looks result).1.outcome? = told result := by
  rcases result with (e | payload | -) | g <;> rfl

/-- The outcome of a run is what the work on it tells. -/
theorem run_outcome (r : Runner) (s : Site) (root : Digest) (x : Input) :
    (r.run s root x).1.outcome? =
      told (r.work (r.launch s root x).2 root x r.isStopped none).1 := by
  unfold run complete
  dsimp only
  unfold launch
  exact deliver_outcome _ _ _ _ _ _

theorem source_frozen (r : Runner) (p : Program) (m : Machine) :
    ∃ m', r.source (.frozen p m) = .plain m' true none := by
  unfold source
  cases r.kind with
  | interpreter => exact ⟨m, rfl⟩
  | native => exact ⟨.ofProgram p, rfl⟩

/-- With the same answer to the request for its machines, a run without a limit ends in the same
way. -/
theorem withPair_untoken (r : Runner) {root : Digest} {o : Except Error MachinePair}
    (ho : s₀.Yields root o) (hclock : s'.clock = s.clock) (x : Input) {d d' : Deadline}
    (hd : d.limit = none) (hd' : d'.limit = none) :
    Result.untoken (r.withPair s x d (some o)).1 =
      Result.untoken (r.withPair s' x d' (some o)).1 := by
  rcases o with e | pair
  · rfl
  · obtain ⟨p, m, rfl⟩ := ho.pair_eq
    show Result.untoken (r.onWorker s x d _).1 = Result.untoken (r.onWorker s' x d' _).1
    cases hr : r.pool.refusal r.isStopped with
    | some e =>
      unfold onWorker
      rw [hr]
    | none =>
      obtain ⟨m', hsource⟩ := r.source_frozen p m
      rw [onWorker_eq hr, onWorker_eq hr, hclock, hsource]
      exact Site.settle_untoken (Handle.runCopy_untoken r.way hd hd')

/-- Nobody is told anything as long as there is no answer. -/
theorem told_withPair_none (r : Runner) (s : Site) (x : Input) {d : Deadline}
    (hd : d.limit = none) : told (r.withPair s x d none).1 = none := by
  unfold withPair
  rw [hd]
  rfl

/-- Without a limit, the work on a run tells one thing whatever its site was asked before: if both
times it tells something, and anyway if the machines are there in time. -/
theorem work_unique (hc : s₀.Calm) (h : After s₀ s) (h' : After s₀ s') {r : Runner}
    (ht : r.timeoutMs = 0) (root : Digest) (x : Input) (isClosed : Bool) :
    let a := told (r.work s root x isClosed none).1
    let b := told (r.work s' root x isClosed none).1
    (a.isSome = true → b.isSome = true → Run.untoken a = Run.untoken b) ∧
      (s₀.Fits root → Run.untoken a = Run.untoken b) := by
  intro a b
  cases hr : r.refusal isClosed with
  | some e =>
    have hsame : Run.untoken a = Run.untoken b := by
      unfold a b work
      rw [hr]
    exact ⟨fun _ _ => hsame, fun _ => hsame⟩
  | none =>
    have hlimit : ∀ clock, r.limit clock none = none := by
      intro clock
      unfold limit
      rw [ht]
      rfl
    have hunique := fun hf : s₀.Fits root => Site.pair_unique hc hf h h'
    obtain ⟨hafter, hyields⟩ := Site.pair_yields hc none root h
    obtain ⟨hafter', hyields'⟩ := Site.pair_yields hc none root h'
    unfold a b
    rw [work_eq hr, work_eq hr, hlimit, hlimit]
    generalize s.pair none root = found at *
    generalize s'.pair none root = found' at *
    obtain ⟨answer, looks, s₁⟩ := found
    obtain ⟨answer', looks', s₁'⟩ := found'
    dsimp only at *
    have hclock : s₁'.clock = s₁.clock := by rw [hafter'.clock, hafter.clock]
    have hnone : ∀ s looks, told (r.withPair s x (deadline s.clock none looks) none).1 = none :=
      fun s looks => r.told_withPair_none s x rfl
    have hsome : ∀ {o}, s₀.Yields root o →
        Run.untoken (told (r.withPair s₁ x (deadline s₁.clock none looks) (some o)).1) =
          Run.untoken (told (r.withPair s₁' x (deadline s₁'.clock none looks') (some o)).1) := by
      intro o ho
      rw [← told_untoken, ← told_untoken]
      exact congrArg told (r.withPair_untoken ho hclock x rfl rfl)
    constructor
    · intro ha hb
      cases answer with
      | none => rw [hnone] at ha; cases ha
      | some o =>
        cases answer' with
        | none => rw [hnone] at hb; cases hb
        | some o' =>
          rw [← (hyields o rfl).unique (hyields' o' rfl)]
          exact hsome (hyields o rfl)
    · intro hf
      rw [← hunique hf]
      cases answer with
      | none => rw [hnone, hnone]
      | some o => exact hsome (hyields o rfl)

/-- So the outcome of a run does not depend on what its site was asked before. -/
theorem run_outcome_unique (hc : s₀.Calm) (h : After s₀ s) (h' : After s₀ s') {r : Runner}
    (ht : r.timeoutMs = 0) (root : Digest) (x : Input) :
    let a := (r.run s root x).1.outcome?
    let b := (r.run s' root x).1.outcome?
    (a.isSome = true → b.isSome = true → Run.untoken a = Run.untoken b) ∧
      (s₀.Fits root → Run.untoken a = Run.untoken b) := by
  intro a b
  unfold a b
  rw [run_outcome, run_outcome]
  have hlaunched : ∀ {s}, After s₀ s → After s₀ (r.launch s root x).2 := fun h =>
    (Site.Onward.counted _ h).1
  exact work_unique hc (hlaunched h) (hlaunched h') ht root x r.isStopped

end Runner

end Rerun
