import Rerun.Proofs.Handle.Plain
import Rerun.Proofs.Machine.Looks
import Rerun.Session.Basic

/-!
# How runs on copies end

With the reference engine a step fails only because the content that it asks for cannot be found. So
a run on a copy of a machine ends with the state, with one of the two faults of a halted machine,
with content that its input does not hold, or because its caller gave up. Only a run that takes all
its steps at once may find its machine still running, and only after as many steps as can be asked
for (`finish_ends`).
-/

namespace Rerun

/-! ## Failures of machines -/

namespace Machine

variable {resolve : Resolve} {m : Machine} {f : Failure}

theorem perform_error {i : Instruction} (h : m.perform resolve i = .error f) :
    ∃ hash, i = .readPreimage hash ∧ resolve m.context hash = .error f := by
  cases i with
  | readPreimage hash =>
    refine ⟨hash, rfl, ?_⟩
    simp only [perform] at h
    cases hr : resolve m.context hash with
    | ok data => rw [hr] at h; cases h
    | error g => rw [hr] at h; cases h; rfl
  | mix value => cases h
  | readInbox inbox =>
    simp only [perform] at h
    split at h <;> cases h
  | jump target =>
    simp only [perform] at h
    split at h <;> cases h
  | halt => cases h
  | fail => cases h

/-- A step fails only because the content that it asks for cannot be found. -/
theorem next_error (h : m.next resolve = .error f) :
    ∃ hash, m.current = some (.readPreimage hash) ∧ resolve m.context hash = .error f := by
  unfold next at h
  split at h
  · cases h
  · rename_i i hi
    cases hp : m.perform resolve i with
    | error g =>
      rw [hp] at h
      cases h
      obtain ⟨hash, rfl, hfound⟩ := perform_error hp
      exact ⟨hash, hi, hfound⟩
    | ok o =>
      rw [hp] at h
      cases o <;> cases h

theorem step_error {n : Nat} {d : Deadline} (h : (m.step resolve n d).result = .error f) :
    ∃ hash, resolve m.context hash = .error f := by
  induction n generalizing d m with
  | zero => cases h
  | succ n ih =>
    rw [step] at h
    split at h
    · cases h
    · split at h
      · cases h
      · split at h
        · rename_i g hn
          cases h
          obtain ⟨hash, -, hfound⟩ := next_error hn
          exact ⟨hash, hfound⟩
        · rename_i m' hn
          have hfound := ih h
          rwa [(next_given hn).2.2] at hfound

end Machine

/-- Why a call does not come to its end: nobody waits so long, its caller gave up, or something
cannot be found. -/
inductive Machine.Stops (resolve : Resolve) (m : Machine) : Failure → Prop
  | endless : m.Stops resolve .endless
  | cancelled : m.Stops resolve (.error .cancelled)
  | unresolved {f : Failure} (hash : Digest) (h : resolve m.context hash = .error f) :
    m.Stops resolve f

theorem Instance.stepInChunks_error {host : Host} {chunk fuel : Nat} {d : Deadline} {m : Machine}
    {f : Failure} (h : ((plain m).stepInChunks chunk fuel host d).1.result = .error f) :
    m.Stops host.registry.resolve f := by
  induction fuel generalizing d m with
  | zero =>
    cases h
    exact .endless
  | succ fuel ih =>
    rw [stepInChunks, step_plain] at h
    split at h
    · cases h
    · split at h
      · cases h
      · dsimp only at h
        split at h
        · obtain ⟨hash, hfound⟩ := Machine.step_error h
          exact .unresolved hash hfound
        · obtain ⟨k, -, hk⟩ := Machine.step_machine host.registry.resolve chunk d.tick m
          have hcontext : (m.step host.registry.resolve chunk d.tick).machine.context =
              m.context := by
            have hgiven := (Machine.run_given host.registry.resolve k m).2.2
            rwa [hk] at hgiven
          cases ih h with
          | endless => exact .endless
          | cancelled => exact .cancelled
          | unresolved hash hfound => exact .unresolved hash (hcontext ▸ hfound)

/-! ## Calls on handles -/

namespace Handle

section Calls

variable {host : Host} {d : Deadline} {m : Machine} {family : Option Nat} {f : Failure}
  {run : Deadline → Instance → Ran Instance × Host}

theorem advance_error (h : ((plain m false family).advance host d run).1.result = .error f) :
    (run d.watched (.plain m)).1.result = .error f ∨ f = .error .cancelled := by
  rw [advance_plain] at h
  unfold watchedResult at h
  split at h
  · rename_i g hr
    cases h
    exact .inl hr
  · split at h
    · cases h
      exact .inr rfl
    · cases h

/-- A call that came to its end did so in time. -/
theorem advance_ok (h : ((plain m false family).advance host d run).1.result = .ok ()) :
    ((plain m false family).advance host d run).1.deadline.isExpired = false := by
  rw [advance_plain] at h ⊢
  unfold watchedResult at h
  split at h
  · cases h
  · split at h
    · cases h
    · rename_i hd
      exact Bool.eq_false_iff.2 hd

theorem step_error {count : UInt64}
    (h : ((plain m false family).step host d count).1.result = .error f) :
    m.Stops host.registry.resolve f := by
  obtain hr | rfl := advance_error h
  · obtain ⟨hash, hfound⟩ := Machine.step_error hr
    exact .unresolved hash hfound
  · exact .cancelled

theorem step_ok {count : UInt64}
    (h : ((plain m false family).step host d count).1.result = .ok ()) :
    ∃ m', ((plain m false family).step host d count).1.machine = plain m' false family ∧
      m.run host.registry.resolve count.toNat = (.ok (), m') := by
  obtain ⟨hresult, hmachine⟩ := step_plain (advance_ok h)
  refine ⟨_, hmachine, ?_⟩
  rw [h] at hresult
  rw [hresult]

theorem stepInChunks_error {horizon : Nat} {chunk : UInt64}
    (h : ((plain m false family).stepInChunks host horizon d chunk).1.result = .error f) :
    m.Stops host.registry.resolve f := by
  unfold stepInChunks at h
  split at h
  · obtain hr | rfl := advance_error h
    · cases hr
    · exact .cancelled
  · obtain hr | rfl := advance_error h
    · exact Instance.stepInChunks_error hr
    · exact .cancelled

/-- Whoever takes some steps at a time goes on until the machine halts. -/
theorem stepInChunks_ok {horizon : Nat} {chunk : UInt64}
    (h : ((plain m false family).stepInChunks host horizon d chunk).1.result = .ok ()) :
    ∃ m', ((plain m false family).stepInChunks host horizon d chunk).1.machine =
        plain m' false family ∧ m'.progress.status.isHalted = true := by
  have hopen : ((plain m false family).stepInChunks host horizon d chunk).1.deadline.isExpired =
      false := by
    unfold stepInChunks at h ⊢
    split at h
    · rename_i hd
      rw [if_pos hd]
      exact advance_ok h
    · rename_i hd
      rw [if_neg hd]
      exact advance_ok h
  obtain ⟨hresult, hmachine⟩ := stepInChunks_plain 0 hopen (.inl rfl)
  rw [h] at hresult
  obtain ⟨n, hover, hrun⟩ := Machine.runInChunks_isOver (by rw [← hresult]; nofun)
  rw [hrun] at hresult hmachine
  refine ⟨_, hmachine, ?_⟩
  obtain hfailed | hhalted := hover
  · exact absurd hresult.symm hfailed
  · exact hhalted

end Calls

end Handle

/-! ## Runs on copies -/

/-- What a run can come to for reasons that lie with its module root, its input or its caller. -/
inductive Run.Expected (root : Digest) (x : Input) : Except Error GlobalState → Prop
  | finished (g : GlobalState) : Expected root x (.ok g)
  | errored : Expected root x (.error (.engineFault "machine entered errored state"))
  | tooFar : Expected root x
      (.error (.engineFault "machine reached inbox position beyond supplied input"))
  | unbuilt (reason : String) : Expected root x (.error (.buildFailed root reason))
  | unsupplied {hash : Digest} {token : Nat} (absent : hash ∉ x.preimages.map Prod.fst)
      (registered : token ≠ 0) :
      Expected root x (.error (.preimageFailed hash token Handle.unsupplied))
  | cancelled : Expected root x (.error .cancelled)

/-- Whether a machine that gets an input still runs after as many steps as can be asked for. -/
def Machine.RunsOn (m : Machine) (x : Input) : Prop :=
  ¬ IsOver ((m.loaded x 0).run x.resolver.under Handle.allSteps.toNat)

/-- The outcome of a machine that was left while it still ran. -/
def Run.unfinished : Except Error GlobalState :=
  .error (.engineFault "machine stopped while still running")

namespace Handle

section Copies

variable {host : Host} {x : Input} {token : Nat}

/-- What is not found under the token of an input is not in the input. -/
theorem unfound_error (ht : host.registry.found? token = some x.resolver) (h0 : token ≠ 0)
    {hash : Digest} {f : Failure} (h : host.registry.resolve token hash = .error f) :
    ∃ e, f = .error e ∧ ∀ root, Run.Expected root x (.error e) := by
  obtain ⟨e, he, hresolver⟩ := Option.map_eq_some_iff.1 ht
  rw [Registry.resolve_eq_under he, hresolver] at h
  unfold Resolver.under Input.resolver Resolver.ofContents at h
  cases hfound : x.preimages.lookup hash with
  | some content =>
    rw [hfound] at h
    cases h
  | none =>
    rw [hfound] at h
    cases h
    have habsent : hash ∉ x.preimages.map Prod.fst := by
      intro hmem
      obtain ⟨y, hy, rfl⟩ := List.mem_map.1 hmem
      simpa using List.lookup_eq_none_iff.1 hfound y hy
    exact ⟨_, rfl, fun root => .unsupplied habsent h0⟩

theorem outcomeOf_halted {status : Status} (h : status.isHalted = true) (g : GlobalState)
    (root : Digest) (x : Input) : Run.Expected root x (outcomeOf status g) := by
  cases status with
  | running => cases h
  | finished => exact .finished g
  | errored => exact .errored
  | tooFar => exact .tooFar

section Finish

variable (ht : host.registry.found? token = some x.resolver) (h0 : token ≠ 0)

include ht h0

/-- A call that stops comes to no end, or to one that is expected. -/
theorem stops_ends {m : Machine} {f : Failure} (root : Digest)
    (hf : (m.loaded x token).Stops host.registry.resolve f) :
    (.error f : Result GlobalState) = .error .endless ∨
      ∃ o, (.error f : Result GlobalState) = Instance.lift o ∧ Run.Expected root x o := by
  cases hf with
  | endless => exact .inl rfl
  | cancelled => exact .inr ⟨.error .cancelled, rfl, .cancelled⟩
  | unresolved hash h =>
    obtain ⟨e, rfl, he⟩ := unfound_error ht h0 h
    exact .inr ⟨.error e, rfl, he root⟩

/-- Whoever takes some steps at a time comes to an end that is expected, if to any. -/
theorem finish_interpret_ends (d : Deadline) (horizon : Nat) (chunk : UInt64) (m : Machine)
    (root : Digest) :
    let finished := (plain (m.loaded x token) false (some token)).finish host d
      (interpret horizon chunk)
    finished.result = .error .endless ∨
      ∃ o, finished.result = Instance.lift o ∧ Run.Expected root x o := by
  unfold finish interpret
  dsimp only
  cases hr : ((plain (m.loaded x token) false (some token)).stepInChunks host horizon d
      chunk).1.result with
  | error f => exact stops_ends ht h0 root (stepInChunks_error hr)
  | ok u =>
    obtain ⟨m', hmachine, hhalted⟩ := stepInChunks_ok hr
    dsimp only
    rw [hmachine]
    exact .inr ⟨_, rfl, outcomeOf_halted hhalted _ root x⟩

/-- So does who takes all steps at once, unless the machine goes on after the last of them. -/
theorem finish_runNatively_ends (d : Deadline) (m : Machine) (root : Digest) :
    let finished := (plain (m.loaded x token) false (some token)).finish host d runNatively
    finished.result = .error .endless ∨
      ∃ o, finished.result = Instance.lift o ∧
        (Run.Expected root x o ∨ m.RunsOn x ∧ o = Run.unfinished) := by
  unfold finish runNatively
  dsimp only
  cases hr : ((plain (m.loaded x token) false (some token)).step host d allSteps).1.result with
  | error f =>
    obtain h | ⟨o, h, ho⟩ := stops_ends ht h0 root (step_error hr)
    · exact .inl h
    · exact .inr ⟨o, h, .inl ho⟩
  | ok u =>
    obtain ⟨m', hmachine, hrun⟩ := step_ok hr
    dsimp only
    rw [hmachine]
    cases hhalted : m'.progress.status.isHalted with
    | true => exact .inr ⟨_, rfl, .inl (outcomeOf_halted hhalted _ root x)⟩
    | false =>
      have hrunning := Machine.isHalted_eq_false_iff.1 hhalted
      obtain ⟨h1, h2⟩ := Machine.run_withToken (found_matches ht m) allSteps.toNat
      rw [Machine.loaded_withToken, hrun] at h1 h2
      refine .inr ⟨Run.unfinished, ?_, .inr ⟨?_, rfl⟩⟩
      · show Instance.lift (outcomeOf m'.progress.status m'.progress.global) = _
        rw [hrunning]
        rfl
      · rintro (hfailed | hover)
        · exact hfailed (Result.untoken_eq_ok.1 h1.symm)
        · dsimp only at h2
          rw [h2, Machine.withToken_progress, hover] at hhalted
          cases hhalted

/-- How it ends with a copy that has an input, as long as the input is found under its token: it
comes to no end, or to one that is expected, or it takes all steps at once and its machine goes on
after the last of them. -/
theorem finish_ends (d : Deadline) (way : Way) (horizon : Nat) (m : Machine) (root : Digest) :
    ((plain (m.loaded x token) false (some token)).finish host d
        (way.advance horizon)).result = .error .endless ∨
      ∃ o, ((plain (m.loaded x token) false (some token)).finish host d
          (way.advance horizon)).result = Instance.lift o ∧
        (Run.Expected root x o ∨ way = .atOnce ∧ m.RunsOn x ∧ o = Run.unfinished) := by
  cases way with
  | inChunks chunk =>
    obtain h | ⟨o, h, ho⟩ := finish_interpret_ends ht h0 d horizon chunk m root
    · exact .inl h
    · exact .inr ⟨o, h, .inl ho⟩
  | atOnce =>
    obtain h | ⟨o, h, ho | ho⟩ := finish_runNatively_ends ht h0 d m root
    · exact .inl h
    · exact .inr ⟨o, h, .inl ho⟩
    · exact .inr ⟨o, h, .inr ⟨rfl, ho⟩⟩

end Finish

end Copies

/-- A run on a copy supplies the input and finishes the copy. -/
theorem runCopy_eq_finish (host : Host) (x : Input) (d : Deadline) (advance : Advance)
    (m : Machine) (isFrozen : Bool) :
    let t := host.registry.lastToken + 1
    (plain m isFrozen none).runCopy host x d advance =
      (plain (m.loaded x t) false (some t)).finish (supplied host x) d advance := by
  unfold runCopy
  rw [copy_plain]
  dsimp only
  rw [supply_plain]
  rfl

/-- So it ends with every run on a copy. -/
theorem runCopy_ends (host : Host) (x : Input) (d : Deadline) (way : Way) (horizon : Nat)
    (m : Machine) (isFrozen : Bool) (root : Digest) :
    ((plain m isFrozen none).runCopy host x d (way.advance horizon)).result = .error .endless ∨
      ∃ o, ((plain m isFrozen none).runCopy host x d (way.advance horizon)).result =
          Instance.lift o ∧
        (Run.Expected root x o ∨ way = .atOnce ∧ m.RunsOn x ∧ o = Run.unfinished) := by
  rw [runCopy_eq_finish]
  exact finish_ends (supplied_found host x) (Nat.succ_ne_zero _) d way horizon m root

end Handle

/-- So a session is prepared with a copy that has its input. -/
theorem Session.prepare_plain (host : Host) (m : Machine) (isFrozen : Bool) (x : Input) :
    let t := host.registry.lastToken + 1
    prepare host (.plain m isFrozen none) x =
      (.ok (.plain (m.loaded x t) false (some t)), Handle.supplied host x) := by
  unfold prepare
  rw [Handle.copy_plain]
  dsimp only
  rw [Handle.supply_plain]
  rfl

end Rerun
