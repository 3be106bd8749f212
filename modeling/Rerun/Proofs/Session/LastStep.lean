import Rerun.Proofs.Agreement
import Rerun.Proofs.Session.Memory

/-!
# The last step

The last step that a session tells of is where the one uninterrupted run ends, wherever the cursor
was. So it is always the same, it says what a run of the same input comes to, and it is what a
session shows at every position behind it (`last_step_is_outcome`).
-/

namespace Rerun

namespace Machine

variable {resolve : Resolve} {m₀ m : Machine}

/-! ## Going on to the end -/

/-- A machine on a run was found there after as many steps as are counted, or one more. -/
theorem Reached.exists_run (h : Reached resolve m₀ m) :
    ∃ k ≤ m.progress.steps.toNat + 1, m₀.run resolve k = (.ok (), m) := by
  cases h with
  | counted run => exact ⟨_, Nat.le_succ _, run⟩
  | uncounted m' run running halts next =>
    refine ⟨_, Nat.le_refl _, ?_⟩
    rw [run_add _ 1 run, run_succ_ok running next]
    rfl

/-- From wherever a machine is on a run, it comes to where the run ends. -/
theorem Reached.run_eq_of_isOver (h : Reached resolve m₀ m) {n : Nat}
    (ho : IsOver (m₀.run resolve n)) : m.run resolve n = m₀.run resolve n := by
  obtain ⟨k, -, hk⟩ := h.exists_run
  rw [← run_add k n hk, Nat.add_comm, run_add_of_isOver n k ho]

/-- A halted machine is what the run shows behind its steps. -/
theorem Reached.run_of_lt (h : Reached resolve m₀ m) (hh : m.progress.status.isHalted = true)
    {k : Nat} (hk : m.progress.steps.toNat < k) : m₀.run resolve k = (.ok (), m) := by
  obtain ⟨j, hj, hrun⟩ := h.exists_run
  have hadd : j + (k - j) = k := by omega
  rw [← hadd, run_add _ _ hrun, run_of_halted hh]

/-- A run that is over without a failure has come to a halted machine. -/
theorem reached_of_isOver (h0 : m₀.progress.steps = 0) {n : Nat} (hn : n < UInt64.size)
    (ho : IsOver (m₀.run resolve n)) (hr : m₀.run resolve n = (.ok (), m)) :
    Reached resolve m₀ m ∧ m.progress.status.isHalted = true := by
  refine ⟨reached_of_endsIn h0 hn (.inl ho) hr, ?_⟩
  rw [hr] at ho
  exact ho.resolve_left fun h => h rfl

end Machine

namespace Handle

open Machine

variable {host : Host} {x : Input} {d : Deadline} {m : Machine} {isFrozen : Bool} {n : Nat}

/-! ## Runs that are over in time -/

theorem runNatively_of_isOver (ho : IsOver ((m.loaded x 0).run x.resolver.under n))
    (hn : n < UInt64.size)
    (h : ((plain m isFrozen none).runCopy host x d runNatively).deadline.isExpired = false) :
    Result.untoken ((plain m isFrozen none).runCopy host x d runNatively).result =
      Result.untoken (verdict ((m.loaded x 0).run x.resolver.under n)) := by
  have hle : n + (allSteps.toNat - n) = allSteps.toNat := by
    rw [allSteps_toNat]
    omega
  rw [runCopy_runNatively h, ← hle, run_add_of_isOver n _ ho]

theorem interpret_of_isOver (ho : IsOver ((m.loaded x 0).run x.resolver.under n)) {horizon : Nat}
    (hh : n ≤ horizon) {chunk : UInt64}
    (h : ((plain m isFrozen none).runCopy host x d
      (interpret horizon chunk)).deadline.isExpired = false) :
    Result.untoken ((plain m isFrozen none).runCopy host x d (interpret horizon chunk)).result =
      Result.untoken (verdict ((m.loaded x 0).run x.resolver.under n)) := by
  obtain ⟨more, hmore, hfuel⟩ : ∃ more, (more = 0 ∨ d.limit ≠ none) ∧
      n < d.remaining horizon + 1 + more := by
    cases hd : d.limit with
    | none =>
      refine ⟨0, .inl rfl, ?_⟩
      unfold Deadline.remaining
      rw [hd]
      dsimp only
      omega
    | some limit => exact ⟨n, .inr (by simp), by omega⟩
  rw [runCopy_interpret more h hmore, runInChunks_eq_run (by omega) hfuel ho]

end Handle

namespace Session

open Machine Handle

variable {x : Input} {m₀ : Machine} {token : Nat} {s : Session} {host : Host}

/-! ## The last step -/

/-- What is told of the end of a run. -/
def lastOf (r : Result Unit × Machine) : Result StepInfo :=
  match r.1 with
  | .error f => .error f
  | .ok () => .ok (.ofInstance (.plain r.2))

/-- A session that serves tells where the run ends when it is asked for the last step. -/
theorem Serves.last_eq (h : Serves x m₀ token s host) {horizon n : Nat}
    (ho : IsOver (m₀.run x.resolver.under n)) (hh : n ≤ horizon) :
    (s.job host horizon .never .last).result =
      (lastOf (m₀.run x.resolver.under n)).map .info := by
  obtain ⟨m, hc, hm⟩ := h.cursor
  have hrun : m.run host.registry.resolve n = m₀.run x.resolver.under n :=
    (h.run_eq hm n).trans (hm.run_eq_of_isOver ho)
  have hchunks : m.runInChunks host.registry.resolve (max s.stepChunk.toNat 1)
      (horizon + 1) = m₀.run x.resolver.under n := by
    rw [runInChunks_eq_run (by omega) (by omega) (hrun ▸ ho), hrun]
  obtain ⟨hresult, hmachine⟩ := Handle.stepInChunks_plain 0
    (show ((plain m false (some token)).stepInChunks host horizon .never
      s.stepChunk).1.deadline.isExpired = false from rfl) (.inl rfl)
  replace hresult := hresult.trans (congrArg Prod.fst hchunks)
  replace hmachine := hmachine.trans (congrArg (fun r => plain r.2 false (some token)) hchunks)
  have hanswer : (s.answer host horizon .never .last).result =
        (lastOf (m₀.run x.resolver.under n)).map .info ∧
      (s.answer host horizon .never .last).session.isCancelled = false := by
    rw [answer, runToHalt, hc]
    unfold goOn Asked.read
    dsimp only
    rw [hresult, hmachine]
    unfold lastOf
    cases (m₀.run x.resolver.under n).1 <;> exact ⟨rfl, h.isOpen⟩
  rw [job_of_open h.isOpen hanswer.2, hanswer.1]

/-- What a session answers to a question after others were asked. -/
def replyAfter (horizon : Nat) (history : List Ask) (s : Session) (host : Host) (ask : Ask) :
    Result Reply :=
  let r := afterAll horizon history (s, host)
  (r.1.job r.2 horizon .never ask).result

/-- Behind the last step a session shows the last step. -/
theorem Serves.stepAt_eq (h : Serves x m₀ token s host) (horizon : Nat) {m : Machine}
    (hm : Reached x.resolver.under m₀ m) (hh : m.progress.status.isHalted = true)
    {position : UInt64} (hp : m.progress.steps < position) :
    (s.job host horizon .never (.stepAt position)).result =
      .ok (.info (.ofInstance (.plain m))) := by
  have hlt := UInt64.lt_iff_toNat_lt.1 hp
  obtain ⟨c, hc, hcr⟩ := h.cursor
  obtain ⟨m', hm', hle, -, hr, -⟩ := h.job_eq hc hcr horizon (.stepAt : Asks position _ _)
  have hend : m'.advanceTo x.resolver.under position = (.ok (), m) := by
    obtain hadv | ⟨-, hadv⟩ := hm'.advanceTo_eq hle
    · rw [hadv, hm.run_of_lt hh hlt]
    · rw [hadv, hm.run_of_lt hh (Nat.lt_succ_of_lt hlt)]
  rw [hr, hend]
  rfl

/-! ## The outcome of the run -/

/-- What the last step says of the outcome. -/
def finalState (last : Result StepInfo) : Result GlobalState :=
  match last with
  | .error f => .error f
  | .ok info => Instance.lift (Handle.outcomeOf info.status info.global)

theorem finalState_lastOf (r : Result Unit × Machine) : finalState (lastOf r) = verdict r := by
  unfold finalState lastOf verdict
  cases r.1 <;> rfl

theorem isOver_loaded (x : Input) (m : Machine) (t n : Nat) :
    IsOver ((m.loaded x t).run x.resolver.under n) ↔
      IsOver ((m.loaded x 0).run x.resolver.under n) := by
  obtain ⟨h1, h2⟩ := run_withToken (matches_under x (m.loaded x 0) t) n
  rw [loaded_withToken] at h1 h2
  have hok : ((m.loaded x t).run x.resolver.under n).1 = .ok () ↔
      ((m.loaded x 0).run x.resolver.under n).1 = .ok () := by
    rw [← Result.untoken_eq_ok, h1, Result.untoken_eq_ok]
  unfold IsOver
  rw [Ne, Ne, hok, h2]
  rfl

/-- What a run comes to does not depend on its token, but for the token. -/
theorem verdict_run_loaded (x : Input) (m : Machine) (t n : Nat) :
    Result.untoken (verdict ((m.loaded x t).run x.resolver.under n)) =
      Result.untoken (verdict ((m.loaded x 0).run x.resolver.under n)) := by
  obtain ⟨h1, h2⟩ := run_withToken (matches_under x (m.loaded x 0) t) n
  rw [loaded_withToken] at h1 h2
  exact verdict_untoken h1 (by rw [h2]; rfl)

/-- For machines that were built from the image of a program, and every input whose run is over
before the count of steps is full: whatever a session was asked before, it tells of the same last
step, whose status and global state give the outcome of the run, interpreted or native, up to the
token in it, and which is what the session shows at every position behind it. -/
theorem last_step_is_outcome {backend : Backend} (hb : backend.IsReference) {p : Program}
    {pair : MachinePair} (hpair : MachinePair.Built backend p pair) (x : Input) {n horizon : Nat}
    (hover : IsOver (((ofProgram p).loaded x 0).run x.resolver.under n)) (hn : n < UInt64.size)
    (hh : n ≤ horizon) (before : Host) (root : Digest) (stepChunk : UInt64) :
    ∃ s host last, opened before root pair.zeroStep x stepChunk = (.ok s, host) ∧
      (∀ history, replyAfter horizon history s host .last = last.map .info) ∧
      (∀ host d chunk,
        (pair.hostIo.runCopy host x d (interpret horizon chunk)).deadline.isExpired = false →
          (pair.hostIo.runCopy host x d (interpret horizon chunk)).result.untoken =
            (finalState last).untoken) ∧
      (∀ host d, (pair.zeroStep.runCopy host x d runNatively).deadline.isExpired = false →
        (pair.zeroStep.runCopy host x d runNatively).result.untoken =
          (finalState last).untoken) ∧
      ∀ info, last = .ok info → ∀ history position, info.step < position →
        replyAfter horizon history s host (.stepAt position) = .ok (.info info) := by
  obtain ⟨m, ha, -, rfl⟩ := hpair.pair_eq hb
  obtain ⟨s, host, hopened, -, hserves⟩ :=
    opened_plain before root x stepChunk (rfl : (ofProgram p).progress.steps = 0) true
  have hover' := (isOver_loaded x (ofProgram p) (before.registry.lastToken + 1) n).2 hover
  have hends : ∃ k < UInt64.size, ((ofProgram p).loaded x
      (before.registry.lastToken + 1)).EndsIn x.resolver.under k := ⟨n, hn, .inl hover'⟩
  have hafter : ∀ history : List Ask, Serves x _ _ (afterAll horizon history (s, host)).1
      (afterAll horizon history (s, host)).2 :=
    fun history => hserves.afterAll horizon fun _ => hends
  refine ⟨s, host, lastOf (((ofProgram p).loaded x (before.registry.lastToken + 1)).run
    x.resolver.under n), hopened, fun history => (hafter history).last_eq hover' hh, ?_, ?_, ?_⟩
  · intro host d chunk hd
    obtain ⟨hover₁, hsame⟩ := ha.run_loaded hover
    rw [finalState_lastOf, verdict_run_loaded, ← hsame]
    exact interpret_of_isOver hover₁ hh hd
  · intro host d hd
    rw [finalState_lastOf, verdict_run_loaded]
    exact runNatively_of_isOver hover hn hd
  · intro info hinfo history position hp
    cases hr : ((ofProgram p).loaded x (before.registry.lastToken + 1)).run x.resolver.under n with
    | mk r e =>
      rw [hr] at hinfo
      cases r with
      | error f => cases hinfo
      | ok u =>
        obtain ⟨hreached, hhalted⟩ := reached_of_isOver hserves.steps hn hover' hr
        cases hinfo
        exact (hafter history).stepAt_eq horizon hreached hhalted hp

/-- Whatever a session over the reader was asked, its last step is the one that an interpreted run
comes to, and it is shown at later positions. -/
theorem last_step_is_outcome_on_reader :
    ∃ s host info, opened readerHost reader.root readerPair.zeroStep readerInput 0 =
        (.ok s, host) ∧
      replyAfter 9 [.proofAt 1, .last, .stepAt 0] s host .last = .ok (.info info) ∧
      (readerPair.hostIo.runCopy readerHost readerInput .never (interpret 9 3)).result.untoken =
        (finalState (.ok info)).untoken ∧
      replyAfter 9 [.last] s host (.stepAt 7) = .ok (.info info) := by
  have hover : IsOver (((ofProgram reader).loaded readerInput 0).run
      readerInput.resolver.under 2) := .inr rfl
  obtain ⟨s, host, last, hopened, hlast, hinterpreted, -, hbehind⟩ :=
    last_step_is_outcome referenceBackend_isReference readerPair_built readerInput hover
      (by decide) (show 2 ≤ 9 by decide) readerHost reader.root 0
  obtain ⟨g, hg⟩ : ∃ g, (readerPair.hostIo.runCopy readerHost readerInput .never
      (interpret 9 3)).result.untoken = .ok g := ⟨_, rfl⟩
  have hfinished := (hinterpreted readerHost .never 3 rfl).symm.trans hg
  cases last with
  | error f => cases Result.untoken_eq_ok.1 hfinished
  | ok info =>
    have hbefore : info.step < 7 := by
      have hfirst := hlast []
      cases hopened
      cases hfirst
      decide
    exact ⟨s, host, info, hopened, hlast _, hinterpreted readerHost .never 3 rfl,
      hbehind info rfl [.last] 7 hbefore⟩

end Session

end Rerun
