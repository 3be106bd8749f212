import Rerun.Proofs.Bench.Frame
import Rerun.Proofs.Handle.Interrupt
import Rerun.Proofs.Handle.Outcome
import Rerun.Proofs.Session.LastStep

/-!
# The step that a state belongs to

A handle tells from its count of steps and its status alone whether its state is the one at some
step. The state at a step is what a fresh machine shows after as many steps. The two agree but for
one step: a machine that halts behind its last instruction or for want of a message shows the count
that it had while it still ran, and claims to be valid for that step (`valid_for_iff_shown`).
-/

namespace Rerun

namespace Machine

variable {resolve : Resolve} {m₀ m m' : Machine}

/-! ## What is shown after some steps -/

/-- What is told of a machine where it is. -/
def info (m : Machine) : StepInfo := .ofInstance (.plain m)

/-- Whether a machine shows after some steps what another one shows. -/
def Shows (resolve : Resolve) (m₀ : Machine) (k : Nat) (m : Machine) : Prop :=
  ∃ m', m₀.run resolve k = (.ok (), m') ∧ m'.info = m.info

/-- Nothing shows a count before as many steps are taken. -/
theorem Shows.steps_le (h0 : m₀.progress.steps = 0) {k : Nat} (h : m₀.Shows resolve k m) :
    m.progress.steps.toNat ≤ k := by
  obtain ⟨m', hrun, hinfo⟩ := h
  have hsteps : m'.progress.steps = m.progress.steps := congrArg StepInfo.step hinfo
  have hle := run_steps_le hrun
  rw [h0, hsteps] at hle
  simpa using hle

/-- A machine that runs is shown at its count alone. -/
theorem Shows.steps_eq (h0 : m₀.progress.steps = 0) {k : Nat} (hk : k < UInt64.size)
    (h : m₀.Shows resolve k m) (hr : m.progress.status = .running) :
    m.progress.steps.toNat = k := by
  obtain ⟨m', hrun, hinfo⟩ := h
  have hsteps : m'.progress.steps = m.progress.steps := congrArg StepInfo.step hinfo
  have hstatus : m'.progress.status = m.progress.status := congrArg StepInfo.status hinfo
  rw [← hsteps]
  exact (reached_of_run h0 hk hrun).2 (isHalted_eq_false_iff.2 (hstatus.trans hr))

/-- Whether a machine is the one that halted at a count where another one still runs. -/
def HaltedInPlace (resolve : Resolve) (m₀ : Machine) (count : UInt64) (m : Machine) : Prop :=
  m.progress.steps = count ∧ m.progress.status.isHalted = true ∧
    m₀.HaltsUncountedAt resolve count.toNat

/-- A machine on a run is shown at its count, unless it halted there without another step. -/
theorem Reached.shows_iff (h : Reached resolve m₀ m) :
    m₀.Shows resolve m.progress.steps.toNat m ↔
      ¬ m₀.HaltedInPlace resolve m.progress.steps m := by
  cases h with
  | counted run =>
    refine ⟨fun _ => ?_, fun _ => ⟨m, run, rfl⟩⟩
    rintro ⟨-, hhalted, -, hrunning, -⟩
    rw [run, hhalted] at hrunning
    cases hrunning
  | uncounted m' run running halts next =>
    have hhalted := (Reached.halted_of_uncounted halts next).1
    have hat : m₀.HaltsUncountedAt resolve m.progress.steps.toNat := by
      unfold HaltsUncountedAt
      rw [run]
      exact ⟨rfl, running, halts⟩
    refine ⟨?_, fun h => absurd ⟨rfl, hhalted, hat⟩ h⟩
    rintro ⟨m'', run', hinfo⟩
    rw [run] at run'
    cases run'
    have hstatus : m'.progress.status = m.progress.status := congrArg StepInfo.status hinfo
    rw [hstatus, hhalted] at running
    cases running

end Machine

namespace Handle

open Machine

/-! ## Calls in a row -/

/-- What calls that run a machine lead to if all of them succeed, whatever their deadlines. -/
inductive Leads : Handle × Host → Handle × Host → Prop where
  | here (s : Handle × Host) : Leads s s
  | call {h : Handle} {host : Host} {s : Handle × Host} (call : Call) (horizon : Nat) (d : Deadline)
      (ok : (call.on horizon host d h).1.result = .ok ())
      (rest : Leads ((call.on horizon host d h).1.machine, (call.on horizon host d h).2) s) :
      Leads (h, host) s

/-- They lead along the run of the machine, and nowhere else. -/
theorem Leads.run {m₀ : Machine} {family : Option Nat} {host : Host} {s : Handle × Host}
    (h : Leads (plain m₀ false family, host) s) :
    ∃ m k, s = (plain m false family, host) ∧
      m₀.run host.registry.resolve k = (.ok (), m) := by
  generalize hs : (plain m₀ false family, host) = s₀ at h
  induction h generalizing m₀ with
  | here s => exact ⟨m₀, 0, hs.symm, rfl⟩
  | call call horizon d ok rest ih =>
    cases hs
    obtain ⟨hhost, hmachine, -⟩ := call_plain call horizon host d m₀ family
    obtain ⟨k, hcomes, -⟩ :=
      course_isPart host.registry.resolve horizon m₀ call (call.looks d)
    obtain ⟨m, j, hm, hj⟩ := ih (Prod.ext hmachine.symm hhost.symm)
    exact ⟨m, k + j, hm, by rw [run_add k j hcomes.run, hj]⟩

/-! ## The state at a step -/

/-- Whether a copy of a handle shows, after so many steps, what another handle shows. -/
def ShownAfter (host : Host) (source : Handle) (count : UInt64) (h : Handle) : Prop :=
  ∃ copy host', source.copy host = .ok (copy, host') ∧
    (copy.step host' .never count).1.result = .ok () ∧
    (copy.step host' .never count).1.machine.machine.map StepInfo.ofInstance =
      h.machine.map StepInfo.ofInstance

variable {host : Host} {m₀ m : Machine} {family : Option Nat}

/-- A copy is the same machine, and finds the same. -/
theorem copy_sound (host : Host) (hs : (plain m₀ false family).Sound) (isFrozen : Bool) :
    ∃ host', (plain m₀ isFrozen family).copy host = .ok (plain m₀ false family, host') ∧
      host'.registry.resolve = host.registry.resolve := by
  cases family with
  | none => exact ⟨host, copy_plain host m₀ isFrozen, rfl⟩
  | some t =>
    have hself : m₀.withToken t = m₀ := by
      rw [← show m₀.context = t from hs.context_eq _ rfl]
      rfl
    refine ⟨_, (copy_plain_some host m₀ isFrozen t).trans (by rw [hself]), ?_⟩
    funext token
    exact Registry.resolve_congr (host.registry.found?_retain t token)

theorem shownAfter_iff (hs : (plain m₀ false family).Sound) (isFrozen : Bool) (count : UInt64) :
    ShownAfter host (plain m₀ isFrozen family) count (plain m false family) ↔
      m₀.Shows host.registry.resolve count.toNat m := by
  obtain ⟨host', hcopy, hresolve⟩ := copy_sound host hs isFrozen
  obtain ⟨hresult, hmachine⟩ := step_plain
    (show ((plain m₀ false family).step host' .never count).1.deadline.isExpired = false from rfl)
  rw [hresolve] at hresult hmachine
  constructor
  · rintro ⟨copy, host'', hc, hr, hi⟩
    rw [hcopy] at hc
    cases hc
    rw [hmachine] at hi
    rw [hresult] at hr
    exact ⟨_, Prod.ext hr rfl, Option.some.inj hi⟩
  · rintro ⟨m', hrun, hinfo⟩
    refine ⟨_, host', hcopy, ?_, ?_⟩
    · rw [hresult, hrun]
    · rw [hmachine, hrun]
      exact congrArg some hinfo

/-- A state is taken for the one at its count, and at a halt for those at all later steps. -/
theorem isValidFor_iff {i : Instance} {count : UInt64} :
    isValidFor i count = true ↔
      i.steps = count ∨ i.steps < count ∧ i.status.isHalted = true := by
  unfold isValidFor
  by_cases hlt : count < i.steps
  · have hne : i.steps ≠ count := fun he => UInt64.lt_irrefl _ (he ▸ hlt)
    simp [hlt, hne, UInt64.not_lt.2 (UInt64.le_of_lt hlt)]
  · by_cases heq : i.steps = count
    · simp [heq]
    · have hgt : i.steps < count := UInt64.lt_of_le_of_ne (UInt64.not_lt.1 hlt) heq
      simp [hlt, heq, hgt]

/-- What a handle says of a step, and what is shown after it, for a machine that the run came to
before the count of steps was full. -/
theorem isValidFor_iff_shows (h0 : m₀.progress.steps = 0) {resolve : Resolve} {k : Nat}
    (hk : k < UInt64.size) (hrun : m₀.run resolve k = (.ok (), m)) (count : UInt64) :
    (isValidFor (.plain m) count = true ↔
        m₀.Shows resolve count.toNat m ∨ m₀.HaltedInPlace resolve count m) ∧
      (m₀.HaltedInPlace resolve count m → ¬ m₀.Shows resolve count.toNat m) := by
  obtain ⟨hreached, -⟩ := reached_of_run h0 hk hrun
  by_cases heq : m.progress.steps = count
  · subst heq
    have hshows := hreached.shows_iff
    refine ⟨⟨fun _ => ?_, fun _ => isValidFor_iff.2 (.inl rfl)⟩, fun hin h => hshows.1 h hin⟩
    by_cases hin : m₀.HaltedInPlace resolve m.progress.steps m
    · exact .inr hin
    · exact .inl (hshows.2 hin)
  · refine ⟨?_, fun hin => absurd hin.1 heq⟩
    rw [isValidFor_iff, Instance.plain_steps, Instance.plain_status]
    constructor
    · rintro (he | ⟨hlt, hhalted⟩)
      · exact absurd he heq
      · exact .inl ⟨m, hreached.run_of_lt hhalted (UInt64.lt_iff_toNat_lt.1 hlt), rfl⟩
    · rintro (h | hin)
      · have hle : m.progress.steps ≤ count := UInt64.le_iff_toNat_le.2 (h.steps_le h0)
        refine .inr ⟨UInt64.lt_of_le_of_ne hle heq, ?_⟩
        rw [← Bool.not_eq_false, isHalted_eq_false_iff]
        intro hr
        exact heq (UInt64.toNat_inj.1 (h.steps_eq h0 count.toNat_lt_size hr))
      · exact absurd hin.1 heq

/-- For every machine of the builtin engine that has taken no step yet, whatever it was given, and
every handle that calls which run it lead to if all of them succeed: the handle keeps to the run of
the machine. Wherever fewer than `2 ^ 64` steps bring the machine, it is valid for a step if and
only if a copy of the machine without steps shows the same after as many steps, the same hash,
count, status and global state; or if it halted there in place, without another step. Then the copy
still runs and does not show the same. -/
theorem valid_for_iff_shown {m₀ : Machine} (h0 : m₀.progress.steps = 0) {family : Option Nat}
    (hs : (plain m₀ false family).Sound) {host host' : Host} {h : Handle}
    (hl : Leads (plain m₀ false family, host) (h, host')) :
    let resolve := host.registry.resolve
    host' = host ∧ ∃ m n, h = plain m false family ∧ m₀.run resolve n = (.ok (), m) ∧
      ∀ k < UInt64.size, m₀.run resolve k = (.ok (), m) → ∀ count isFrozen horizon,
        ∃ valid, (h.perform horizon host (.validFor count)).reply = .ok (.bool valid) ∧
          (valid = true ↔ ShownAfter host (plain m₀ isFrozen family) count h ∨
            m₀.HaltedInPlace resolve count m) ∧
          (m₀.HaltedInPlace resolve count m →
            ¬ ShownAfter host (plain m₀ isFrozen family) count h) := by
  intro resolve
  obtain ⟨m, n, hm, hn⟩ := hl.run
  cases hm
  refine ⟨rfl, m, n, rfl, hn, fun k hk hrun count isFrozen horizon => ?_⟩
  refine ⟨isValidFor (.plain m) count, rfl, ?_⟩
  rw [shownAfter_iff hs]
  exact isValidFor_iff_shows h0 hk hrun count

/-- A machine that comes to its halt in two calls is shown by a copy after two steps, and not
after one. -/
theorem valid_for_iff_shown_of_jump :
    let m₀ := ofProgram ⟨[.jump 1, .halt]⟩
    let host : Host := ⟨⟨[], []⟩, .empty, none⟩
    let h := plain (m₀.run host.registry.resolve 2).2 false none
    Leads (plain m₀ false none, host) (h, host) ∧
      ShownAfter host (plain m₀ true none) 2 h ∧ ¬ ShownAfter host (plain m₀ true none) 1 h := by
  intro m₀ host h
  have hleads : Leads (plain m₀ false none, host) (h, host) :=
    .call (.step 1) 9 .never rfl (.call (.inChunks 3) 9 .never rfl (.here _))
  have hsound : (plain m₀ false none).Sound := ⟨fun _ => rfl, by rintro i ⟨⟩; rfl⟩
  obtain ⟨-, m, n, hm, -, hvalid⟩ := valid_for_iff_shown rfl hsound hleads
  have hrun : m₀.run host.registry.resolve 2 = (.ok (), m) := by
    have hsame : plain (m₀.run host.registry.resolve 2).2 false none = plain m false none := hm
    cases hsame
    rfl
  obtain ⟨valid₂, hreply₂, hiff₂, -⟩ := hvalid 2 (by decide) hrun 2 true 9
  obtain ⟨valid₁, hreply₁, hiff₁, -⟩ := hvalid 2 (by decide) hrun 1 true 9
  cases hreply₂
  cases hreply₁
  refine ⟨hleads, (hiff₂.1 rfl).resolve_right ?_, fun h => ?_⟩
  · rintro ⟨-, -, -, hrunning, -⟩
    cases hrunning
  · cases hiff₁.2 (.inl h)

/-- A machine without instructions halts at no step, claims to be valid for it, and yet a copy shows
that it still ran there. -/
theorem valid_for_where_still_running :
    let m₀ := ofProgram ⟨[]⟩
    let host : Host := ⟨⟨[], []⟩, .empty, none⟩
    let h := ((Call.step 1).on 0 host .never (plain m₀ false none)).1.machine
    Leads (plain m₀ false none, host) (h, host) ∧
      (h.perform 0 host (.validFor 0)).reply = .ok (.bool true) ∧
      ¬ ShownAfter host (plain m₀ true none) 0 h := by
  intro m₀ host h
  refine ⟨.call (.step 1) 0 .never rfl (.here _), rfl, ?_⟩
  rintro ⟨copy, host', hc, -, hi⟩
  cases hc
  have hstatus := congrArg StepInfo.status (Option.some.inj hi)
  cases hstatus

end Handle

end Rerun
