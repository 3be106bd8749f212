import Rerun.Proofs.Agreement
import Rerun.Proofs.Handle.Interrupt
import Rerun.Proofs.Handle.Outcome

/-!
# Steps in parts

A number of steps can be asked for in one call, in two, or in chunks until the machine halts. There
are two loops with two tests for the end: the engine stops at a halt, and whoever asks for chunks
goes on as long as the machine runs. As long as no deadline expires, none of this makes a difference
(`splitting_does_not_matter`).
-/

namespace Rerun

/-! ## Steps come to an end -/

/-- A lookup fails with an error that names what was looked up, or with the panic of a resolver. -/
theorem Registry.resolve_error {r : Registry} {token : Nat} {hash : Digest} {f : Failure}
    (h : r.resolve token hash = .error f) :
    (∃ reason, f = .error (.preimageFailed hash token reason)) ∨
      ∃ message, f = .panic (.text message) := by
  unfold resolve at h
  split at h
  · cases h
    exact .inl ⟨_, rfl⟩
  · split at h
    · cases h
    · cases h
      exact .inl ⟨_, rfl⟩
    · cases h
      exact .inr ⟨_, rfl⟩

/-- Any number of steps comes to an end. -/
theorem Machine.run_ne_endless (r : Registry) (n : Nat) (m : Machine) :
    (m.run r.resolve n).1 ≠ .error .endless := by
  intro h
  obtain ⟨k, -, -, -, hnext⟩ := run_error (Prod.ext h rfl)
  obtain ⟨hash, -, hunfound⟩ := next_error hnext
  obtain ⟨reason, hf⟩ | ⟨message, hf⟩ := Registry.resolve_error hunfound
  · cases hf
  · cases hf

namespace Handle

open Machine

/-- What a call leaves but for the clock: how it ended, the handle, and what all machines share. -/
def leaves (r : Ran Handle × Host) : Result Unit × Handle × Host := (r.1.result, r.1.machine, r.2)

/-- One call, and another one if it succeeds. -/
def andThen (r : Ran Handle × Host) (next : Host → Handle → Ran Handle × Host) :
    Ran Handle × Host :=
  match r.1.result with
  | .ok () => next r.2 r.1.machine
  | .error _ => r

variable {host : Host} {horizon : Nat} {d : Deadline} {m : Machine} {family : Option Nat}

/-- Steps that nobody interrupts leave what the run comes to. -/
theorem leaves_step {count : UInt64}
    (h : ((plain m false family).step host d count).1.deadline.isExpired = false) :
    leaves ((plain m false family).step host d count) =
      ((m.run host.registry.resolve count.toNat).1,
        plain (m.run host.registry.resolve count.toNat).2 false family, host) := by
  obtain ⟨hresult, hmachine⟩ := step_plain h
  have hhost := (call_plain (.step count) 0 host d m family).1
  exact Prod.ext hresult (Prod.ext hmachine hhost)

theorem step_ne_endless {count : UInt64}
    (h : ((plain m false family).step host d count).1.deadline.isExpired = false) :
    ((plain m false family).step host d count).1.result ≠ .error .endless := by
  rw [(step_plain h).1]
  exact run_ne_endless host.registry count.toNat m

/-- So does a call that comes to the end of the run. -/
theorem leaves_of_isOver {call : Call} {n : Nat} (hcall : call ≠ .untilHostIo)
    (ha : call.Admits n) (hn : n ≤ horizon) (ho : IsOver (m.run host.registry.resolve n))
    (h : (call.on horizon host d (plain m false family)).1.deadline.isExpired = false) :
    leaves (call.on horizon host d (plain m false family)) =
      ((m.run host.registry.resolve n).1,
        plain (m.run host.registry.resolve n).2 false family, host) := by
  cases call with
  | step count =>
    have hle : n + (count.toNat - n) = count.toNat := Nat.add_sub_cancel' ha
    refine (leaves_step h).trans ?_
    rw [← hle, run_add_of_isOver n _ ho]
  | inChunks chunk =>
    obtain ⟨hresult, hmachine⟩ := stepInChunks_of_isOver h ho hn
    have hhost := (call_plain (.inChunks chunk) horizon host d m family).1
    exact Prod.ext hresult (Prod.ext hmachine hhost)
  | untilHostIo => exact absurd rfl hcall

/-! ## Two parts -/

theorem step_add {a b : UInt64} (hab : a.toNat + b.toNat < UInt64.size) {d₁ d₂ : Deadline}
    (h : ((plain m false family).step host d (a + b)).1.deadline.isExpired = false)
    (h' : (andThen ((plain m false family).step host d₁ a) fun host h =>
      h.step host d₂ b).1.deadline.isExpired = false) :
    leaves (andThen ((plain m false family).step host d₁ a) fun host h => h.step host d₂ b) =
      leaves ((plain m false family).step host d (a + b)) := by
  have hsum : (a + b).toNat = a.toNat + b.toNat := by
    rw [UInt64.toNat_add]
    exact Nat.mod_eq_of_lt hab
  have hhost := (call_plain (.step a) 0 host d₁ m family).1
  rw [leaves_step h, hsum]
  unfold andThen at h' ⊢
  cases hr : ((plain m false family).step host d₁ a).1.result with
  | ok u =>
    obtain ⟨m', hmachine, hrun⟩ := step_ok hr
    rw [hr] at h'
    dsimp only at h' ⊢
    rw [hmachine, show ((plain m false family).step host d₁ a).2 = host from hhost] at h' ⊢
    rw [leaves_step h', run_add _ _ hrun]
  | error f =>
    -- the first part failed where the whole one does
    rw [hr] at h'
    have hfirst := leaves_step h'
    have hover : IsOver (m.run host.registry.resolve a.toNat) := by
      refine .inl fun hok => ?_
      rw [← (step_plain h').1, hr] at hok
      cases hok
    rw [run_add_of_isOver _ _ hover]
    exact hfirst

/-! ## Chunks -/

theorem stepInChunks_zero (host : Host) (horizon : Nat) (d : Deadline) (h : Handle) :
    h.stepInChunks host horizon d 0 = h.stepInChunks host horizon d 1 := rfl

/-- A run that is over when all steps are taken leaves what they leave in any chunks. -/
theorem stepInChunks_eq_allSteps {n : Nat} (ho : IsOver (m.run host.registry.resolve n))
    (hn : n < UInt64.size) (hh : n ≤ horizon) {chunk : UInt64} {d' : Deadline}
    (h : ((plain m false family).stepInChunks host horizon d chunk).1.deadline.isExpired = false)
    (h' : ((plain m false family).step host d' allSteps).1.deadline.isExpired = false) :
    leaves ((plain m false family).stepInChunks host horizon d chunk) =
      leaves ((plain m false family).step host d' allSteps) := by
  have hadmits : (Call.step allSteps).Admits n := Nat.le_of_lt_succ hn
  have hchunks : leaves ((Call.inChunks chunk).on horizon host d (plain m false family)) = _ :=
    leaves_of_isOver (by simp) trivial hh ho h
  have hwhole : leaves ((Call.step allSteps).on horizon host d' (plain m false family)) = _ :=
    leaves_of_isOver (by simp) hadmits hh ho h'
  exact hchunks.trans hwhole.symm

theorem stepInChunks_ne_endless {n : Nat} (ho : IsOver (m.run host.registry.resolve n))
    (hh : n ≤ horizon) {chunk : UInt64}
    (h : ((plain m false family).stepInChunks host horizon d chunk).1.deadline.isExpired =
      false) :
    ((plain m false family).stepInChunks host horizon d chunk).1.result ≠ .error .endless := by
  rw [(stepInChunks_of_isOver h ho hh).1]
  exact run_ne_endless host.registry n m

/-! ## Machines that have halted -/

/-- The engine has nothing to do for a halted machine. -/
theorem course_of_halted (h : m.progress.status.isHalted = true) (resolve : Resolve)
    (horizon : Nat) (call : Call) (looks : Option Nat) :
    call.course resolve horizon m looks = (.ok (), m) := by
  have hwaits : m.waits = true := by simp [waits, h]
  cases call with
  | step count => cases looks <;> exact run_of_halted h _
  | inChunks chunk =>
    cases looks with
    | none =>
      have hover : IsOver (m.run resolve 0) := .inr h
      exact runInChunks_eq_run (by omega) (Nat.succ_pos horizon) hover
    | some n => exact run_of_halted h _
  | untilHostIo => cases looks <;> simp [Call.course, walk_of_waits hwaits, hwaits]

/-- So whoever runs it, leaves it. -/
theorem call_of_halted (h : m.progress.status.isHalted = true) (call : Call) (horizon : Nat)
    (host : Host) (d : Deadline) (family : Option Nat) :
    let r := call.on horizon host d (plain m false family)
    r.1.machine = plain m false family ∧ r.2 = host ∧
      (r.1.deadline.isExpired = false → r.1.result = .ok ()) := by
  obtain ⟨hhost, hmachine, hresult⟩ := call_plain call horizon host d m family
  rw [course_of_halted h] at hmachine hresult
  refine ⟨hmachine, hhost, fun hd => ?_⟩
  rw [hresult, watchedResult, hd]
  rfl

/-- For every machine of the builtin engine, whatever its state, its messages and the resolvers, and
for calls whose deadlines do not expire: as many steps as two counts together leave what the one
count and then, if that succeeds, the other one leaves; if the run is over within `2 ^ 64 - 1`
steps, any chunks, of which zero are taken for one, come to an end and leave what all steps at once
leave; and no call changes a machine that has halted, whatever its deadline. -/
theorem splitting_does_not_matter (host : Host) (m : Machine) (family : Option Nat) :
    let h := plain m false family
    (∀ a b : UInt64, a.toNat + b.toNat < UInt64.size → ∀ d d₁ d₂ : Deadline,
      let whole := h.step host d (a + b)
      let parts := andThen (h.step host d₁ a) fun host h => h.step host d₂ b
      whole.1.deadline.isExpired = false → parts.1.deadline.isExpired = false →
        leaves parts = leaves whole) ∧
    (∀ n < UInt64.size, IsOver (m.run host.registry.resolve n) →
      ∀ horizon, n ≤ horizon → ∀ chunk d d',
        let chunks := h.stepInChunks host horizon d chunk
        let whole := h.step host d' allSteps
        chunks.1.deadline.isExpired = false → whole.1.deadline.isExpired = false →
          chunks.1.result ≠ .error .endless ∧ leaves chunks = leaves whole) ∧
    (∀ horizon d, h.stepInChunks host horizon d 0 = h.stepInChunks host horizon d 1) ∧
    (m.progress.status.isHalted = true → ∀ call : Call, ∀ horizon d,
      let r := call.on horizon host d h
      r.1.machine = h ∧ r.2 = host ∧ (r.1.deadline.isExpired = false → r.1.result = .ok ())) := by
  refine ⟨?_, ?_, ?_, ?_⟩
  · intro a b hab d d₁ d₂ whole parts hwhole hparts
    exact step_add hab hwhole hparts
  · intro n hn hover horizon hh chunk d d' chunks whole hchunks hwhole
    exact ⟨stepInChunks_ne_endless hover hh hchunks,
      stepInChunks_eq_allSteps hover hn hh hchunks hwhole⟩
  · intro horizon d
    exact stepInChunks_zero host horizon d _
  · intro hhalted call horizon d
    exact call_of_halted hhalted call horizon host d family

/-- A machine that jumps and then asks for content that nobody has: the second of two parts fails,
as do both of them together, all steps at once, and steps one by one. -/
theorem splitting_does_not_matter_before_failure :
    let m := ofProgram ⟨[.jump 1, .readPreimage default]⟩
    let host : Host := ⟨⟨[], []⟩, .empty, none⟩
    let h := plain m false none
    let parts := andThen (h.step host .never 1) fun host h => h.step host .never 1
    parts.1.result ≠ .ok () ∧ leaves parts = leaves (h.step host .never (1 + 1)) ∧
      leaves (h.stepInChunks host 9 .never 0) = leaves (h.step host .never allSteps) := by
  intro m host h parts
  have hover : IsOver (m.run host.registry.resolve 2) := .inl (by nofun)
  obtain ⟨hparts, hchunks, -, -⟩ := splitting_does_not_matter host m none
  exact ⟨by nofun, hparts 1 1 (by decide) .never .never .never rfl rfl,
    (hchunks 2 (by decide) hover 9 (by decide) 0 .never .never rfl rfl).2⟩

end Handle

end Rerun
