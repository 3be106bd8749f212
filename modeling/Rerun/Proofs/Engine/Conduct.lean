import Rerun.Engine.Basic
import Rerun.Engine.Conduct

/-!
# Failures of foreign engines stay with their call

The slot behind some callbacks holds the first failure among them, if it was empty before
(`serveAll_callbacks`). A call that takes steps empties it on both sides, so it reports its own
first failure, and nothing that was recorded on its thread before (`own_failure_reported`).

What a resolver answers, and whether it is there at all, may change from one callback to the next.
But it has to be quiet (`Callout.IsQuiet`): then its callbacks are those of the call
(`Callout.advance_of_isQuiet`). The slot belongs to the thread and not to the call, so a resolver
that makes a call of its own that takes steps loses the failures before it (`Callout.advance_lost`).
-/

namespace Rerun

namespace Inquiry

/-- The error that a call ends with in which this is the first callback to fail. -/
def failure? (q : Inquiry) : Option Error :=
  q.fault?.map fun reason => .preimageFailed q.hash q.token reason

theorem failure?_eq_none {q : Inquiry} : q.failure? = none ↔ q.fault? = none := by
  unfold failure?
  rw [Option.map_eq_none_iff]

/-- What the registry makes of the answer of the resolver. -/
theorem resolve_eq (q : Inquiry) :
    q.registry.resolve q.token q.hash =
      match q.answer? with
      | none => fail (.preimageFailed q.hash q.token "unknown resolver token")
      | some (.found content) => .ok content
      | some (.refused reason) => fail (.preimageFailed q.hash q.token reason)
      | some (.panicked message) => .error (.panic (.text message)) := by
  unfold Registry.resolve answer?
  cases q.registry.entry? q.token with
  | none => rfl
  | some e =>
    dsimp only [Option.map_some]
    cases e.resolver q.hash <;> rfl

/-- A callback has its content, or it fails with what is told of it. -/
theorem outcome_callback (q : Inquiry) :
    (∃ content, q.callback.outcome = .ok content ∧ q.content? = some content ∧ q.failure? = none) ∨
      ∃ e, q.callback.outcome = .error e ∧ q.content? = none ∧ q.failure? = some e := by
  unfold callback Callback.outcome failure? fault? content?
  dsimp only
  rw [resolve_eq]
  cases q.answer? with
  | none => exact .inr ⟨_, rfl, rfl, rfl⟩
  | some answer =>
    cases answer with
    | found content => exact .inl ⟨content, rfl, rfl, rfl⟩
    | refused reason => exact .inr ⟨_, rfl, rfl, rfl⟩
    | panicked message => exact .inr ⟨_, rfl, rfl, rfl⟩

end Inquiry

namespace Slot

/-- A callback gives its content or nothing, whatever its resolver does, and the slot keeps the
failure that came first. -/
theorem serve_callback (slot : Slot) (q : Inquiry) :
    slot.serve q.callback = (q.content?, slot.or q.failure?) := by
  unfold serve
  obtain ⟨content, hout, hcontent, hnone⟩ | ⟨e, hout, hcontent, hsome⟩ := q.outcome_callback
  · rw [hout, hcontent, hnone, Option.or_none]
  · rw [hout, hcontent, hsome]
    rfl

theorem serveAll_callbacks (slot : Slot) (qs : List Inquiry) :
    slot.serveAll (qs.map Inquiry.callback) =
      (qs.map Inquiry.content?, slot.or (qs.findSome? Inquiry.failure?)) := by
  induction qs generalizing slot with
  | nil => simp [serveAll]
  | cons q qs ih =>
    simp only [List.map_cons, serveAll, serve_callback, ih, List.findSome?_cons]
    cases q.failure? with
    | none => simp
    | some e => cases slot <;> rfl

end Slot

namespace Conduct

/-- What a call makes of the slot hangs only on what the engine asked for, in the order in which it
did. -/
theorem play_eq (slot : Slot) (k : Conduct) :
    k.play slot = (k.returned, slot.or (k.inquiries.findSome? Inquiry.failure?)) := by
  induction k generalizing slot with
  | returns text => simp [play, returned, inquiries]
  | asks q next ih =>
    simp only [play, Slot.serve_callback, ih, returned, inquiries, List.findSome?_cons]
    cases q.failure? with
    | none => simp
    | some e => cases slot <;> rfl

/-- Nothing that was in the slot before has a part in a call that takes steps. -/
theorem advance_eq (slot : Slot) (k : Conduct) :
    k.advance slot = (Slot.settle (k.inquiries.findSome? Inquiry.failure?) k.returned, none) := by
  unfold advance
  rw [play_eq]
  rfl

/-- An engine that decides as it goes is called like one whose requests were fixed before. -/
theorem call_eq_advance (slot : Slot) (k : Conduct) :
    slot.call (k.inquiries.map Inquiry.callback) k.returned =
      ⟨k.inquiries.map Inquiry.content?, (k.advance slot).1, (k.advance slot).2⟩ := by
  unfold Slot.call
  rw [Slot.serveAll_callbacks, advance_eq]
  rfl

theorem inquiries_plain (text : Option Bytes) (qs : List Inquiry) :
    (plain text qs).inquiries = qs := by
  induction qs with
  | nil => rfl
  | cons q qs ih => rw [plain, inquiries, ih]

theorem returned_plain (text : Option Bytes) (qs : List Inquiry) :
    (plain text qs).returned = text := by
  induction qs with
  | nil => rfl
  | cons q qs ih => rw [plain, returned, ih]

/-- How a call that takes steps on a thread with some slot has to end. -/
structure ReportsItself (k : Conduct) (slot : Slot) : Prop where
  /-- The first callback that failed is reported, whatever the engine makes of it. -/
  first : ∀ (before after : List Inquiry) (q : Inquiry) (reason : String),
    k.inquiries = before ++ q :: after → (∀ p ∈ before, p.fault? = none) →
      q.fault? = some reason →
        (k.advance slot).1 = fail (.preimageFailed q.hash q.token reason)
  /-- Without any failure the text of the engine is. -/
  text : (∀ q ∈ k.inquiries, q.fault? = none) → ∀ text, k.returned = some text →
    (k.advance slot).1 = fail (.engineFault (Bytes.lossy text))
  /-- With neither the call is fine. -/
  fine : (∀ q ∈ k.inquiries, q.fault? = none) → k.returned = none → (k.advance slot).1 = .ok ()
  /-- Every callback came to an end, with its content or without. -/
  answers : (slot.call (k.inquiries.map Inquiry.callback) k.returned).answers =
    k.inquiries.map Inquiry.content?
  noPanic : ∀ payload, (k.advance slot).1 ≠ .error (.panic payload)
  empty : (k.advance slot).2 = none

theorem reportsItself (k : Conduct) (slot : Slot) : k.ReportsItself slot := by
  have hnone : (∀ q ∈ k.inquiries, q.fault? = none) →
      k.inquiries.findSome? Inquiry.failure? = none := fun h =>
    List.findSome?_eq_none_iff.2 fun q hq => Inquiry.failure?_eq_none.2 (h q hq)
  refine ⟨fun before after q reason hqs hbefore hq => ?_, fun h text htext => ?_, fun h htext => ?_,
    ?_, fun payload => ?_, ?_⟩
  · have hfirst : before.findSome? Inquiry.failure? = none :=
      List.findSome?_eq_none_iff.2 fun p hp => Inquiry.failure?_eq_none.2 (hbefore p hp)
    have hfailure : q.failure? = some (.preimageFailed q.hash q.token reason) := by
      rw [Inquiry.failure?, hq]
      rfl
    rw [advance_eq, hqs, List.findSome?_append, hfirst, List.findSome?_cons, hfailure]
    rfl
  · rw [advance_eq, hnone h, htext]
    rfl
  · rw [advance_eq, hnone h, htext]
    rfl
  · rw [call_eq_advance]
  · rw [advance_eq]
    cases k.inquiries.findSome? Inquiry.failure? with
    | some e => exact fun h => nomatch h
    | none => cases k.returned <;> exact fun h => nomatch h
  · rw [advance_eq]

end Conduct

namespace EngineCall

/-- What a call reports if nothing ever happened on its thread. -/
def alone (c : EngineCall) : Option (Result Unit) := (c.carryOut none).1

theorem carryOut_alone (slot : Slot) (c : EngineCall) : (c.carryOut slot).1 = c.alone := by
  cases c with
  | other k => rfl
  | steps k => simp [alone, carryOut, Conduct.advance_eq]

/-- Calls on one thread report what they would report alone. -/
theorem carryOutAll_alone (slot : Slot) (calls : List EngineCall) :
    (carryOutAll slot calls).1 = calls.map alone := by
  induction calls generalizing slot with
  | nil => rfl
  | cons c calls ih =>
    simp only [carryOutAll, carryOut_alone, ih, List.map_cons]

theorem carryOutAll_append (slot : Slot) (calls more : List EngineCall) :
    (carryOutAll slot (calls ++ more)).2 =
      (carryOutAll (carryOutAll slot calls).2 more).2 := by
  induction calls generalizing slot with
  | nil => rfl
  | cons c calls ih => simp only [List.cons_append, carryOutAll, ih]

end EngineCall

/-! ## Quiet resolvers -/

namespace Callout

variable {slot : Slot} {callouts : List Callout}

theorem serve_of_isQuiet {c : Callout} (h : c.IsQuiet) :
    c.serve slot = slot.serve c.inquiry.callback := by
  unfold serve
  rw [h]
  rfl

/-- With quiet resolvers a call is one of an engine that makes their callbacks. -/
theorem advance_of_isQuiet (h : ∀ c ∈ callouts, c.IsQuiet) (slot : Slot) (text : Option Bytes) :
    advance slot text callouts = (Conduct.plain text (callouts.map inquiry)).advance slot := by
  have hserve : ∀ slot, (Conduct.plain text (callouts.map inquiry)).play slot =
      (text, serveAll slot callouts) := by
    induction callouts with
    | nil => exact fun _ => rfl
    | cons c rest ih =>
      intro slot
      rw [List.forall_mem_cons] at h
      rw [serveAll, serve_of_isQuiet h.1, ← ih h.2]
      rfl
  unfold advance Conduct.advance
  rw [hserve]

theorem serveAll_append (slot : Slot) (before after : List Callout) :
    serveAll slot (before ++ after) = serveAll (serveAll slot before) after := by
  induction before generalizing slot with
  | nil => rfl
  | cons c before ih => exact ih _

/-- A resolver that makes a call of its own that takes steps, and answers then, loses all failures
before: the call goes on as if its callback were the first. -/
theorem advance_lost (slot : Slot) (text : Option Bytes) (before after : List Callout) (q : Inquiry)
    (calls : List EngineCall) (k : Conduct) :
    advance slot text (before ++ ⟨q, calls ++ [.steps k]⟩ :: after) =
      advance slot text (⟨q, []⟩ :: after) := by
  have hserve : ∀ slot : Slot, serve slot ⟨q, calls ++ [.steps k]⟩ = serve none ⟨q, []⟩ := by
    intro slot
    unfold serve
    dsimp only
    rw [EngineCall.carryOutAll_append]
    dsimp only [EngineCall.carryOutAll, EngineCall.carryOut]
    rw [(k.reportsItself _).empty]
  unfold advance
  rw [serveAll_append, serveAll, hserve]
  rfl

end Callout

/-! ## Scripted machines -/

/-- What the engine of a scripted machine does when it is called. -/
def ScriptedMachine.conduct (m : ScriptedMachine) (registry : Registry) (d : Deadline)
    (text : Option Bytes) : Conduct :=
  if d.isExpired then .returns none
  else .plain text (m.script.requests.map fun hash => ⟨registry, m.context, hash⟩)

theorem ScriptedMachine.call_conduct (m : ScriptedMachine) (registry : Registry) (slot : Slot)
    (count : UInt64) (text : Option Bytes) (d : Deadline) :
    ((m.call registry.resolve slot count text d).1.result,
        (m.call registry.resolve slot count text d).2) =
      (m.conduct registry d text).advance slot := by
  unfold call conduct
  split
  · rfl
  · have hcall := Conduct.call_eq_advance slot
      (.plain text (m.script.requests.map fun hash => ⟨registry, m.context, hash⟩))
    rw [Conduct.inquiries_plain, Conduct.returned_plain, List.map_map] at hcall
    have hcallbacks : m.callbacks registry.resolve =
        m.script.requests.map (Inquiry.callback ∘ fun hash => ⟨registry, m.context, hash⟩) := rfl
    rw [hcallbacks, hcall]

/-- A call of a scripted machine is a call of its engine, for as long as nothing else is wrong with
the machine. -/
theorem Instance.step_conduct {i : Instance} {m : ScriptedMachine} (h : i.machine = .scripted m)
    (hfault : i.faults.stepError = none) (hlazy : i.faults.isLazy = false) (host : Host)
    (count : Nat) (d : Deadline) :
    ((i.step host count d).1.result, (i.step host count d).2.slot) =
      (m.conduct host.registry d m.script.stepError).advance host.slot := by
  rw [← m.call_conduct host.registry host.slot (UInt64.ofNat (min count Script.maxSteps))]
  unfold step
  rw [hfault, hlazy, h]
  rfl

theorem Instance.stepUntilHostIo_conduct {i : Instance} {m : ScriptedMachine}
    (h : i.machine = .scripted m) (hfault : i.faults.ioError = none) (host : Host) (horizon : Nat)
    (d : Deadline) :
    ((i.stepUntilHostIo host horizon d).1.result, (i.stepUntilHostIo host horizon d).2.slot) =
      (m.conduct host.registry d m.script.ioError).advance host.slot := by
  rw [← m.call_conduct host.registry host.slot 1]
  unfold stepUntilHostIo
  rw [hfault, h]
  rfl

/-! ## Threads -/

namespace EngineCall

/-- A call that takes steps reports its own first failure, then the text of its engine, and leaves
the slot of its thread empty, whatever was there before. So do the calls of scripted machines. And
whatever calls come before a call, behind it, or leave failures in between, it reports the same as
on a thread on which nothing else ever happened. -/
theorem own_failure_reported :
    (∀ (k : Conduct) (slot : Slot), k.ReportsItself slot) ∧
      (∀ (i : Instance) (m : ScriptedMachine) (host : Host) (d : Deadline),
        i.machine = .scripted m →
          (i.faults.stepError = none → i.faults.isLazy = false → ∀ count,
            ((i.step host count d).1.result, (i.step host count d).2.slot) =
              (m.conduct host.registry d m.script.stepError).advance host.slot) ∧
          (i.faults.ioError = none → ∀ horizon,
            ((i.stepUntilHostIo host horizon d).1.result,
                (i.stepUntilHostIo host horizon d).2.slot) =
              (m.conduct host.registry d m.script.ioError).advance host.slot)) ∧
      ∀ (slot : Slot) (before after : List EngineCall) (k : Conduct),
        (carryOutAll slot (before ++ .steps k :: after)).1[before.length]? =
            some (some (k.advance none).1) ∧
          (carryOutAll slot (before ++ [.steps k])).2 = none := by
  refine ⟨Conduct.reportsItself, fun i m host d h => ⟨fun hfault hlazy count => ?_,
    fun hfault horizon => ?_⟩, fun slot before after k => ⟨?_, ?_⟩⟩
  · exact Instance.step_conduct h hfault hlazy host count d
  · exact Instance.stepUntilHostIo_conduct h hfault host horizon d
  · rw [carryOutAll_alone, List.map_append, List.map_cons,
      List.getElem?_append_right (by simp), List.length_map, Nat.sub_self]
    rfl
  · rw [carryOutAll_append]
    exact (k.reportsItself _).empty

/-- Resolvers of which the only one panics. -/
def panicking : Registry := (Registry.empty.register fun _ => .panicked "resolver bug").2

/-- An engine that asks under a token that was given out and, if it gets nothing, under one that was
not. It tells of neither. -/
def stubborn : Conduct :=
  .asks ⟨panicking, 1, .zero⟩ fun answer =>
    if answer.isSome then .returns none
    else .asks ⟨panicking, 7, .zero⟩ fun _ => .returns (some [0x3F])

/-- A scripted machine that makes one request. -/
def asker : ScriptedMachine := .ofScript { requests := [.zero] }

theorem own_failure_reported_of_stubborn :
    (stubborn.advance (some .cancelled)).1 =
        fail (.preimageFailed .zero 1 "resolver panicked") ∧
      (carryOutAll none ([.other stubborn] ++ .steps (.returns none) :: [])).1[1]? =
        some (some (.ok ())) ∧
      ∀ host : Host, host.registry = panicking →
        ((Instance.step host 1 .never ⟨.scripted asker, {}⟩).1.result) =
          fail (.preimageFailed .zero 0 "unknown resolver token") := by
  obtain ⟨hcalls, hmachines, hthread⟩ := own_failure_reported
  refine ⟨?_, ?_, fun host hregistry => ?_⟩
  · exact (hcalls stubborn (some .cancelled)).first [] [⟨panicking, 7, .zero⟩]
      ⟨panicking, 1, .zero⟩ "resolver panicked" rfl (fun _ h => nomatch h) rfl
  · exact (hthread none [.other stubborn] [] (.returns none)).1
  · have hstep := ((hmachines ⟨.scripted asker, {}⟩ asker host .never rfl).1 rfl rfl 1)
    rw [hregistry] at hstep
    refine (congrArg Prod.fst hstep).trans ?_
    exact (hcalls _ host.slot).first [] [] ⟨panicking, 0, .zero⟩ "unknown resolver token" rfl
      (fun _ h => nomatch h) rfl

end EngineCall

end Rerun
