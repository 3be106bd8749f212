import Rerun.Proofs.MachinePair

/-!
# Agreement of the two ways to carry out a run

The interpreter starts from the machine at host input and takes some steps at a time; the native way
starts from the beginning and takes all steps at once. For every program whose machines were built,
every input and every number of steps at a time, both give the verdict on the one uninterrupted run
(`interpreted_run_agrees`).
-/

namespace Rerun

open Machine MachinePair Handle

/-- A run from a machine on the way to host input ends like the run from the beginning. -/
theorem Machine.Ahead.run_loaded {m m' : Machine} (ha : m.Ahead m') {resolve : Resolve} {x : Input}
    {token n : Nat} (h : IsOver ((m.loaded x token).run resolve n)) :
    IsOver ((m'.loaded x token).run resolve n) ∧
      (m'.loaded x token).run resolve n = (m.loaded x token).run resolve n := by
  obtain ⟨-, hinbox, -⟩ := ha.given_eq
  obtain ⟨k, hk⟩ := ha.run_given resolve x.startState (x.messages ++ m.inbox) token
  have hk' : (m.loaded x token).run resolve k = (.ok (), m'.loaded x token) := by
    unfold loaded
    rw [hk, hinbox]
  have hsame : (m'.loaded x token).run resolve n = (m.loaded x token).run resolve n := by
    rw [← run_add k n hk', Nat.add_comm, run_add_of_isOver n k h]
  exact ⟨hsame ▸ h, hsame⟩

theorem allSteps_toNat : allSteps.toNat = UInt64.size - 1 := rfl

/-- For machines that were built from the image of a program, every input and every number of steps
at a time: if the run with the input is over within `2 ^ 64 - 1` steps, and the two ways have the
time for it, they have the same outcome up to the token in it, the verdict on that run. -/
theorem interpreted_run_agrees {backend : Backend} (hb : backend.IsReference) {p : Program}
    {pair : MachinePair} (hpair : Built backend p pair) (x : Input) (chunk : UInt64)
    {host₁ host₂ : Host} {d₁ d₂ : Deadline} {horizon n : Nat}
    (hover : IsOver (((ofProgram p).loaded x 0).run x.resolver.under n)) (hn : n < UInt64.size)
    (hh : n ≤ horizon)
    (h₁ : (pair.hostIo.runCopy host₁ x d₁ (interpret horizon chunk)).deadline.isExpired = false)
    (h₂ : (pair.zeroStep.runCopy host₂ x d₂ runNatively).deadline.isExpired = false) :
    (pair.hostIo.runCopy host₁ x d₁ (interpret horizon chunk)).result.untoken =
        (pair.zeroStep.runCopy host₂ x d₂ runNatively).result.untoken ∧
      (pair.zeroStep.runCopy host₂ x d₂ runNatively).result.untoken =
        Result.untoken (verdict (((ofProgram p).loaded x 0).run x.resolver.under n)) := by
  obtain ⟨m, ha, -, rfl⟩ := hpair.pair_eq hb
  obtain ⟨hover', hsame⟩ := ha.run_loaded hover
  have hnative : ((frozen p m).zeroStep.runCopy host₂ x d₂ runNatively).result.untoken =
      Result.untoken (verdict (((ofProgram p).loaded x 0).run x.resolver.under n)) := by
    refine (runCopy_runNatively h₂).trans ?_
    have hle : n + (allSteps.toNat - n) = allSteps.toNat := by
      rw [allSteps_toNat]
      omega
    rw [← hle, run_add_of_isOver n _ hover]
  refine ⟨?_, hnative⟩
  rw [hnative, ← hsame]
  -- a run with a limit has at least as many chunks as looks; more of them make no difference
  obtain ⟨more, hmore, hfuel⟩ : ∃ more, (more = 0 ∨ d₁.limit ≠ none) ∧
      n < d₁.remaining horizon + 1 + more := by
    cases hd : d₁.limit with
    | none =>
      refine ⟨0, .inl rfl, ?_⟩
      unfold Deadline.remaining
      rw [hd]
      dsimp only
      omega
    | some limit => exact ⟨n, .inr (by simp), by omega⟩
  refine (runCopy_interpret more h₁ hmore).trans ?_
  rw [runInChunks_eq_run (by omega) hfuel hover']

/-- Both ways let the reader take its message, and it finishes. -/
theorem interpreted_run_agrees_on_reader :
    ∃ g, (readerPair.hostIo.runCopy readerHost readerInput .never
        (interpret 9 0)).result.untoken = .ok g ∧
      (readerPair.zeroStep.runCopy readerHost readerInput .never
        runNatively).result.untoken = .ok g := by
  have hover : IsOver (((ofProgram reader).loaded readerInput 0).run
      readerInput.resolver.under 2) := .inr rfl
  have h₁ : (readerPair.hostIo.runCopy readerHost readerInput .never
      (interpret 9 0)).deadline.isExpired = false := rfl
  have h₂ : (readerPair.zeroStep.runCopy readerHost readerInput .never
      runNatively).deadline.isExpired = false := rfl
  obtain ⟨hsame, hverdict⟩ := interpreted_run_agrees referenceBackend_isReference
    readerPair_built readerInput 0 hover (by decide) (by decide) h₁ h₂
  exact ⟨_, hsame.trans hverdict, hverdict⟩

end Rerun
