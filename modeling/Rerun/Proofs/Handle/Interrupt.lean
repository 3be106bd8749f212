import Rerun.Proofs.Handle.Plain
import Rerun.Proofs.Machine.Looks

/-!
# Interrupted calls

A call that runs a machine can be interrupted at any look at the clock. It has then done a part of
what it would have done otherwise, and says so, unless the engine failed before; and the rest can be
done by another call (`interrupted_call_resumes`).
-/

namespace Rerun

namespace Instance

open Machine

theorem stepInChunks_of_halted {m : Machine} (h : m.progress.status.isHalted = true)
    {chunk fuel : Nat} (hf : 0 < fuel) (host : Host) (d : Deadline) :
    (plain m).stepInChunks chunk fuel host d = ((plain m).atOnce d (.ok ()), host) := by
  obtain ⟨fuel, rfl⟩ : ∃ k, fuel = k + 1 := ⟨fuel - 1, by omega⟩
  rw [stepInChunks, plain_status, if_pos]
  intro hr
  rw [hr] at h
  cases h

/-- A call that takes some steps at a time takes those that the looks carry. -/
theorem stepInChunks_looks (host : Host) (chunk : Nat) (m : Machine) {fuel n : Nat}
    {d : Deadline} (h : d.left = some n) (hf : n < fuel) :
    (((plain m).stepInChunks chunk fuel host d).1.result,
        ((plain m).stepInChunks chunk fuel host d).1.machine) =
      ((m.run host.registry.resolve (chunked chunk n)).1,
        plain (m.run host.registry.resolve (chunked chunk n)).2) := by
  induction fuel generalizing d m n with
  | zero => omega
  | succ fuel ih =>
    cases hh : m.progress.status.isHalted with
    | true =>
      rw [stepInChunks_of_halted hh (Nat.succ_pos fuel), run_of_halted hh]
      rfl
    | false =>
      rw [stepInChunks, step_plain, plain_status,
        if_neg (by simpa using isHalted_eq_false_iff.1 hh)]
      cases n with
      | zero =>
        rw [if_pos (Deadline.isExpired_of_left_zero h), chunked_zero]
        rfl
      | succ n =>
        rw [if_neg (by simp [Deadline.isExpired_of_left_succ h]), chunked_succ]
        have htick := Deadline.left_tick h
        rw [Nat.add_sub_cancel] at htick
        have hstep := step_eq_run_min host.registry.resolve m htick chunk
        cases hr : (m.step host.registry.resolve chunk d.tick).result with
        | error f =>
          rw [hr] at hstep
          rw [run_add_of_isOver _ _ (by rw [← hstep]; exact .inl (by simp)), ← hstep]
        | ok u =>
          rw [hr] at hstep
          rw [run_add _ _ hstep.symm]
          dsimp only
          cases hend :
              (m.step host.registry.resolve chunk d.tick).machine.progress.status.isHalted with
          | true =>
            rw [stepInChunks_of_halted hend (by omega), run_of_halted hend]
            rfl
          | false => exact ih _ (left_step htick chunk hr hend) (by omega)

end Instance

namespace Handle

open Machine

/-! ## Calls -/

/-- A call that runs the machine of a handle. -/
inductive Call where
  | step (count : UInt64)
  | inChunks (chunk : UInt64)
  | untilHostIo

namespace Call

/-- Makes the call. -/
def on (horizon : Nat) (host : Host) (d : Deadline) (h : Handle) : Call → Ran Handle × Host
  | .step count => h.step host d count
  | .inChunks chunk => h.stepInChunks host horizon d chunk
  | .untilHostIo => h.stepUntilHostIo host horizon d

/-- The looks of the call that find its time not over yet, unless all of them do. Chunks are not
begun under a deadline that has expired; any other call is not stopped before someone watches. -/
def looks (d : Deadline) : Call → Option Nat
  | .inChunks _ => d.left
  | .step _ | .untilHostIo => d.watched.left

/-- What the engine makes of the machine in the call, if `looks` of its looks find its time not over
yet: how it ends, and the machine. -/
def course (resolve : Resolve) (horizon : Nat) (m : Machine) :
    Call → (looks : Option Nat) → Result Unit × Machine
  | .step count, none => m.run resolve count.toNat
  | .step count, some n => m.run resolve (min n count.toNat)
  | .inChunks chunk, none => m.runInChunks resolve (max chunk.toNat 1) (horizon + 1)
  | .inChunks chunk, some n => m.run resolve (chunked (max chunk.toNat 1) n)
  | .untilHostIo, none =>
    (if (m.walk horizon).waits then .ok () else .error .endless, m.walk (horizon + 1))
  | .untilHostIo, some n => (.ok (), m.walk n)

/-- What is left of the call after some steps. -/
def rest (taken : Nat) : Call → Call
  | .step count => .step (UInt64.ofNat (count.toNat - taken))
  | .inChunks chunk => .inChunks chunk
  | .untilHostIo => .untilHostIo

/-- Whether the call may take that many steps. -/
def Admits (taken : Nat) : Call → Prop
  | .step count => taken ≤ count.toNat
  | .inChunks _ | .untilHostIo => True

end Call

variable {host : Host} {horizon : Nat} {d : Deadline} {m : Machine} {family : Option Nat}

/-! ## What a call does -/

/-- A call that is watched has patience for all its looks. -/
theorem lt_remaining (horizon : Nat) {n : Nat} (h : d.left = some n) :
    n < d.remaining horizon + 1 := by
  obtain ⟨limit, hl, rfl⟩ := Option.map_eq_some_iff.1 h
  unfold Deadline.remaining
  rw [hl]
  exact Nat.lt_succ_self _

theorem remaining_of_left_none (horizon : Nat) (h : d.left = none) :
    d.remaining horizon = horizon := by
  unfold Deadline.remaining
  rw [Deadline.left_eq_none.1 h]

theorem step_course (resolve : Resolve) (horizon : Nat) (count : UInt64) (d : Deadline)
    (m : Machine) :
    ((m.step resolve count.toNat d).result, (m.step resolve count.toNat d).machine) =
      Call.course resolve horizon m (.step count) d.left := by
  cases h : d.left with
  | none =>
    refine step_eq_run (Deadline.isExpired_of_limit_none ?_)
    rw [(step_follows resolve count.toNat d m).limit]
    exact Deadline.left_eq_none.1 h
  | some n => exact step_eq_run_min resolve m h count.toNat

theorem stepUntilHostIo_course (resolve : Resolve) (horizon : Nat) (d : Deadline) (m : Machine) :
    ((m.stepUntilHostIo resolve (d.remaining horizon + 1) d).result,
        (m.stepUntilHostIo resolve (d.remaining horizon + 1) d).machine) =
      Call.course resolve horizon m .untilHostIo d.left := by
  cases h : d.left with
  | none =>
    rw [remaining_of_left_none horizon h]
    exact stepUntilHostIo_never h
  | some n => exact stepUntilHostIo_eq_walk h (lt_remaining horizon h)

theorem stepInChunks_course (host : Host) (horizon : Nat) (chunk : UInt64) (d : Deadline)
    (m : Machine) :
    let r := (Instance.plain m).stepInChunks (max chunk.toNat 1) (d.remaining horizon + 1) host d
    let e := Call.course host.registry.resolve horizon m (.inChunks chunk) d.left
    r.2 = host ∧ r.1.result = e.1 ∧ r.1.machine = .plain e.2 := by
  intro r e
  refine ⟨(Instance.stepInChunks_plain_machine host _ _ d m).1, ?_⟩
  cases h : d.left with
  | none =>
    have hend : r.1.deadline.isExpired = false := by
      refine Deadline.isExpired_of_limit_none ?_
      rw [(Instance.stepInChunks_plain_follows host _ _ d m).limit]
      exact Deadline.left_eq_none.1 h
    have hplain := Instance.stepInChunks_plain 0 hend (.inl rfl)
    rw [Nat.add_zero] at hplain
    simp only [e, h, Call.course]
    rw [← remaining_of_left_none horizon h]
    exact hplain
  | some n =>
    have hlooks := Instance.stepInChunks_looks host (max chunk.toNat 1) m h
      (lt_remaining horizon h)
    simp only [e, h]
    exact ⟨congrArg Prod.fst hlooks, congrArg Prod.snd hlooks⟩

/-- However a call is interrupted, it leaves the host alone, the machine is where the engine brought
it, and what the engine reports counts first. -/
theorem call_plain (call : Call) (horizon : Nat) (host : Host) (d : Deadline) (m : Machine)
    (family : Option Nat) :
    let r := call.on horizon host d (plain m false family)
    let e := call.course host.registry.resolve horizon m (call.looks d)
    r.2 = host ∧ r.1.machine = plain e.2 false family ∧
      r.1.result = watchedResult r.1.deadline e.1 := by
  cases call with
  | step count =>
    have hcourse := step_course host.registry.resolve horizon count d.watched m
    refine ⟨rfl, ?_, ?_⟩
    · exact congrArg (fun e => plain e.2 false family) hcourse
    · exact congrArg (fun e => watchedResult _ e.1) hcourse
  | inChunks chunk =>
    cases hd : d.isExpired with
    | true =>
      intro r e
      have hr : r = (plain m false family).advance host d
          fun d i => (i.atOnce d (.ok ()), host) := by
        show (plain m false family).stepInChunks host horizon d chunk = _
        rw [stepInChunks, if_pos hd]
      have he : e = (.ok (), m) := by
        show Call.course _ _ _ _ d.left = _
        rw [Deadline.left_of_isExpired hd, Call.course, chunked_zero]
        rfl
      rw [hr, he]
      exact ⟨rfl, rfl, rfl⟩
    | false =>
      intro r e
      have hr : r = (plain m false family).advance host d fun d i =>
          i.stepInChunks (max chunk.toNat 1) (d.remaining horizon + 1) host d := by
        show (plain m false family).stepInChunks host horizon d chunk = _
        rw [stepInChunks, if_neg (by simp [hd])]
      obtain ⟨hhost, hresult, hmachine⟩ := stepInChunks_course host horizon chunk d m
      rw [hr, advance_plain, Deadline.watched_eq hd]
      exact ⟨hhost, by rw [hmachine]; rfl, by rw [hresult]; rfl⟩
  | untilHostIo =>
    have hcourse := stepUntilHostIo_course host.registry.resolve horizon d.watched m
    refine ⟨rfl, ?_, ?_⟩
    · exact congrArg (fun e => plain e.2 false family) hcourse
    · exact congrArg (fun e => watchedResult _ e.1) hcourse

/-! ## Calls that nobody interrupts -/

/-- How the call ends if nobody interrupts it. -/
def Call.Ends (resolve : Resolve) (m : Machine) : Call → Result Unit × Machine → Prop
  | .step count, e => e = m.run resolve count.toNat
  | .inChunks _, e => ∃ n, IsOver (m.run resolve n) ∧ e = m.run resolve n
  | .untilHostIo, e => ∃ a, m.Ahead a ∧ a.waits = true ∧ e = (.ok (), a)

/-- Whoever finds the deadline unexpired after the call knows that nobody interrupted it. -/
theorem ends_of_unexpired {call : Call}
    (h : (call.on horizon host d (plain m false family)).1.deadline.isExpired = false)
    (hend : (call.on horizon host d (plain m false family)).1.result ≠ .error .endless) :
    ∃ e, call.Ends host.registry.resolve m e ∧
      (call.on horizon host d (plain m false family)).1.result = e.1 ∧
      (call.on horizon host d (plain m false family)).1.machine = plain e.2 false family := by
  cases call with
  | step count => exact ⟨_, rfl, step_plain h⟩
  | inChunks chunk =>
    obtain ⟨hresult, hmachine⟩ := stepInChunks_plain 0 h (.inl rfl)
    obtain ⟨n, hover, heq⟩ := runInChunks_isOver fun he => hend (hresult.trans he)
    exact ⟨_, ⟨n, hover, heq⟩, hresult, hmachine⟩
  | untilHostIo =>
    obtain ⟨-, hrun, hresult, hmachine⟩ := advance_plain_unexpired
      (fun d => stepUntilHostIo_follows host.registry.resolve (d.remaining horizon + 1) d m) h
    obtain ⟨hahead, hendless | ⟨hok, hwaits⟩⟩ := stepUntilHostIo_ahead host.registry.resolve
      (d.remaining horizon + 1) d m
    · exact absurd (hresult.trans hendless) hend
    · exact ⟨_, ⟨_, hahead, hwaits hrun, rfl⟩, hresult.trans hok, hmachine⟩

theorem on_limit (call : Call) :
    (call.on horizon host d (plain m false family)).1.deadline.limit = d.limit := by
  cases call with
  | step count => rfl
  | untilHostIo => rfl
  | inChunks chunk =>
    show ((plain m false family).stepInChunks host horizon d chunk).1.deadline.limit = _
    unfold stepInChunks
    split <;> rfl

/-- A call that ends if nobody interrupts it ends so under a deadline that never expires, if anyone
waits for it long enough. -/
theorem Call.Ends.never {call : Call} {e : Result Unit × Machine}
    (h : call.Ends host.registry.resolve m e) (family : Option Nat) :
    ∃ longest, ∀ horizon, longest ≤ horizon →
      (call.on horizon host .never (plain m false family)).1.result = e.1 ∧
        (call.on horizon host .never (plain m false family)).1.machine =
          plain e.2 false family := by
  have hcourse : ∃ longest, ∀ horizon, longest ≤ horizon →
      call.course host.registry.resolve horizon m (call.looks .never) = e := by
    cases call with
    | step count => exact ⟨0, fun _ _ => h.symm⟩
    | inChunks chunk =>
      obtain ⟨n, hover, rfl⟩ := h
      exact ⟨n, fun horizon hn => runInChunks_eq_run (by omega) (by omega) hover⟩
    | untilHostIo =>
      obtain ⟨a, hahead, hwaits, rfl⟩ := h
      obtain ⟨n, hn⟩ := hahead.exists_walk hwaits
      refine ⟨n, fun horizon hle => ?_⟩
      show (if (m.walk horizon).waits then _ else _, m.walk (horizon + 1)) = _
      rw [hn horizon hle, hn (horizon + 1) (by omega), if_pos hwaits]
  obtain ⟨longest, hlongest⟩ := hcourse
  refine ⟨longest, fun horizon hle => ?_⟩
  obtain ⟨-, hmachine, hresult⟩ := call_plain call horizon host .never m family
  rw [hlongest horizon hle] at hmachine hresult
  refine ⟨?_, hmachine⟩
  rw [hresult]
  unfold watchedResult
  rw [Deadline.isExpired_of_limit_none (on_limit call)]
  cases e.1 <;> rfl

/-! ## The rest of a call -/

/-- How far a call has come. -/
structure Call.Comes (resolve : Resolve) (call : Call) (m m' : Machine) (k : Nat) : Prop where
  run : m.run resolve k = (.ok (), m')
  admits : call.Admits k
  ahead : call = .untilHostIo → m.Ahead m'

/-- The rest of a call ends as the whole one does. -/
theorem Call.Comes.ends_rest {resolve : Resolve} {call : Call} {m' : Machine} {k : Nat}
    (h : call.Comes resolve m m' k) (e : Result Unit × Machine) :
    (call.rest k).Ends resolve m' e ↔ call.Ends resolve m e := by
  cases call with
  | step count =>
    have hk : k ≤ count.toNat := h.admits
    have hrest : (UInt64.ofNat (count.toNat - k)).toNat = count.toNat - k :=
      UInt64.toNat_ofNat_of_lt' (Nat.lt_of_le_of_lt (Nat.sub_le _ _) count.toNat_lt_size)
    show e = m'.run resolve (UInt64.ofNat (count.toNat - k)).toNat ↔ e = m.run resolve count.toNat
    rw [hrest, ← run_add k _ h.run, Nat.add_sub_cancel' hk]
  | inChunks chunk =>
    constructor
    · rintro ⟨n, hover, rfl⟩
      rw [← run_add k n h.run] at hover ⊢
      exact ⟨k + n, hover, rfl⟩
    · rintro ⟨n, hover, rfl⟩
      have hsame : m'.run resolve n = m.run resolve n := by
        rw [← run_add k n h.run, Nat.add_comm, run_add_of_isOver n k hover]
      exact ⟨n, hsame ▸ hover, hsame.symm⟩
  | untilHostIo =>
    have hahead := h.ahead rfl
    constructor
    · rintro ⟨a, ha, hwaits, rfl⟩
      exact ⟨a, hahead.trans ha, hwaits, rfl⟩
    · rintro ⟨a, ha, hwaits, rfl⟩
      refine ⟨a, ?_, hwaits, rfl⟩
      obtain hback | hon := ha.linear hahead
      · rw [hback.eq_of_waits hwaits]
        exact .here m'
      · exact hon

/-- What the engine made of a machine is a part of the call, and if it failed, the next step fails,
or the call was taken for endless. -/
def Call.IsPart (resolve : Resolve) (call : Call) (m : Machine) (looks : Option Nat)
    (e : Result Unit × Machine) : Prop :=
  ∃ k, call.Comes resolve m e.2 k ∧
    ∀ f, e.1 = .error f → f = .endless ∧ looks = none ∨
      e.2.progress.status.isHalted = false ∧ e.2.next resolve = .error f

theorem run_isPart {resolve : Resolve} (call : Call) {n : Nat} (hc : call ≠ .untilHostIo)
    (ha : ∀ k ≤ n, call.Admits k) (m : Machine) (looks : Option Nat) :
    call.IsPart resolve m looks (m.run resolve n) := by
  obtain ⟨k, hk, hrun, hfails⟩ := run_comes resolve n m
  exact ⟨k, ⟨hrun, ha k hk, fun h => absurd h hc⟩, fun f he => .inr (hfails f he)⟩

theorem course_isPart (resolve : Resolve) (horizon : Nat) (m : Machine) (call : Call)
    (looks : Option Nat) : call.IsPart resolve m looks (call.course resolve horizon m looks) := by
  cases call with
  | step count =>
    cases looks with
    | none => exact run_isPart (.step count) (by simp) (fun _ hk => hk) m none
    | some n =>
      exact run_isPart (.step count) (by simp)
        (fun _ hk => Nat.le_trans hk (Nat.min_le_right ..)) m (some n)
  | inChunks chunk =>
    cases looks with
    | none =>
      obtain ⟨k, hrun, hfails⟩ :=
        runInChunks_comes resolve (max chunk.toNat 1) (horizon + 1) m
      exact ⟨k, ⟨hrun, trivial, by simp⟩, fun f he => (hfails f he).imp_left fun h => ⟨h, rfl⟩⟩
    | some n => exact run_isPart (.inChunks chunk) (by simp) (fun _ _ => trivial) m (some n)
  | untilHostIo =>
    cases looks with
    | none =>
      have hahead := m.ahead_walk (horizon + 1)
      obtain ⟨k, hrun⟩ := hahead.exists_run resolve
      refine ⟨k, ⟨hrun, trivial, fun _ => hahead⟩, fun f he => .inl ?_⟩
      replace he : (if (m.walk horizon).waits then .ok () else .error .endless) =
        (.error f : Result Unit) := he
      split at he
      · cases he
      · cases he
        exact ⟨rfl, rfl⟩
    | some n =>
      have hahead := m.ahead_walk n
      obtain ⟨k, hrun⟩ := hahead.exists_run resolve
      exact ⟨k, ⟨hrun, trivial, fun _ => hahead⟩, fun f he => by cases he⟩

/-- For every live, unfrozen handle of the builtin engine, every call that runs its machine, and
every deadline, which fixes the look at the clock at which the call is interrupted, if ever: the
call leaves the machine where some number of uninterrupted steps bring it, those that the looks
carry, and says how it ended: with the failure of the next step, if the engine took that far, else
with the refusal if the deadline has expired, and else well. Whatever the rest of the call comes to
under a deadline that does not expire, the whole call would have come to, too, and the other way
round. -/
theorem interrupted_call_resumes (call : Call) (horizon : Nat) (host : Host) (d : Deadline)
    (m : Machine) (family : Option Nat) :
    let resolve := host.registry.resolve
    let r := call.on horizon host d (plain m false family)
    let e := call.course resolve horizon m (call.looks d)
    r.2 = host ∧ r.1.machine = plain e.2 false family ∧
      r.1.result = (match e.1 with
        | .error f => .error f
        | .ok () => if r.1.deadline.isExpired then fail .cancelled else .ok ()) ∧
      (∀ f, e.1 = .error f → f = .endless ∧ call.looks d = none ∨
        e.2.progress.status.isHalted = false ∧ e.2.next resolve = .error f) ∧
      ∃ k, m.run resolve k = (.ok (), e.2) ∧ call.Admits k ∧
        ∀ horizon' d',
          (let rest := (call.rest k).on horizon' host d' (plain e.2 false family)
          rest.1.deadline.isExpired = false → rest.1.result ≠ .error .endless →
            ∃ longest, ∀ h, longest ≤ h →
              let whole := call.on h host .never (plain m false family)
              whole.1.result = rest.1.result ∧ whole.1.machine = rest.1.machine) ∧
          (let whole := call.on horizon' host d' (plain m false family)
          whole.1.deadline.isExpired = false → whole.1.result ≠ .error .endless →
            ∃ longest, ∀ h, longest ≤ h →
              let rest := (call.rest k).on h host .never (plain e.2 false family)
              rest.1.result = whole.1.result ∧ rest.1.machine = whole.1.machine) := by
  intro resolve r e
  obtain ⟨hhost, hmachine, hresult⟩ := call_plain call horizon host d m family
  obtain ⟨k, hcomes, hfails⟩ := course_isPart resolve horizon m call (call.looks d)
  refine ⟨hhost, hmachine, hresult, hfails, k, hcomes.run, hcomes.admits, fun horizon' d' =>
    ⟨fun hunexpired hend => ?_, fun hunexpired hend => ?_⟩⟩
  · obtain ⟨e', hends, hr, hm⟩ := ends_of_unexpired hunexpired hend
    obtain ⟨longest, hnever⟩ := Call.Ends.never ((hcomes.ends_rest e').1 hends) family
    refine ⟨longest, fun h hle => ?_⟩
    obtain ⟨hr', hm'⟩ := hnever h hle
    exact ⟨hr'.trans hr.symm, hm'.trans hm.symm⟩
  · obtain ⟨e', hends, hr, hm⟩ := ends_of_unexpired hunexpired hend
    obtain ⟨longest, hnever⟩ := Call.Ends.never ((hcomes.ends_rest e').2 hends) family
    refine ⟨longest, fun h hle => ?_⟩
    obtain ⟨hr', hm'⟩ := hnever h hle
    exact ⟨hr'.trans hr.symm, hm'.trans hm.symm⟩

/-- A call is interrupted behind its second step, and what is left of it comes to the halt. -/
example :
    let m := Machine.ofProgram ⟨[.mix 1, .jump 2, .mix 3, .halt]⟩
    let host : Host := ⟨⟨[], []⟩, .empty, none⟩
    let r := (Call.step 5).on 9 host (.after 2) (plain m false none)
    let rest := (Call.step 3).on 9 host .never r.1.machine
    r.1.result = fail .cancelled ∧ r.1.machine.machine.map Instance.steps = some 2 ∧
      rest.1.result = .ok () ∧ rest.1.machine.machine.map Instance.status = some .finished := by
  refine ⟨?_, ?_, ?_, ?_⟩ <;> rfl

end Handle

end Rerun
