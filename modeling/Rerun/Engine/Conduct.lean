import Rerun.Engine.Callback

/-!
# What foreign engines do in a call

While it is called, a foreign engine asks for content as often as it likes. What it asks for next,
and what it returns in the end, may hang on the answers it has got; so it is free to pass over a
failure, or to tell of it in its own words. A call that takes steps hands the first failure on. Any
other call leaves its failures in the slot of the thread.

Whoever answers a callback is taken to be quiet: it makes no engine calls itself before it answers.
With those that it makes, a callback is a `Callout`.
-/

namespace Rerun

/-- A request for content at some time: the resolvers that there are by then, a token and a hash. -/
structure Inquiry where
  registry : Registry
  token : Nat
  hash : Digest

namespace Inquiry

def callback (q : Inquiry) : Callback := ⟨q.token, q.hash, q.registry.resolve⟩

/-- What the resolver of the token answers, if there is one. -/
def answer? (q : Inquiry) : Option Answer :=
  (q.registry.entry? q.token).map fun e => e.resolver q.hash

/-- The content, if it is found. -/
def content? (q : Inquiry) : Option Bytes :=
  match q.answer? with
  | some (.found content) => some content
  | _ => none

/-- Why there is no content. -/
def fault? (q : Inquiry) : Option String :=
  match q.answer? with
  | none => some "unknown resolver token"
  | some (.found _) => none
  | some (.refused reason) => some reason
  | some (.panicked _) => some "resolver panicked"

end Inquiry

/-- What an engine does in the rest of a call. -/
inductive Conduct where
  | returns (text : Option Bytes)
  /-- It asks for content, and goes on with the answer. -/
  | asks (q : Inquiry) (next : Option Bytes → Conduct)

namespace Conduct

def inquiries : Conduct → List Inquiry
  | .returns _ => []
  | .asks q next => q :: (next q.content?).inquiries

def returned : Conduct → Option Bytes
  | .returns text => text
  | .asks q next => (next q.content?).returned

/-- The conduct of an engine that makes the same requests whatever it is answered. -/
def plain (text : Option Bytes) : List Inquiry → Conduct
  | [] => .returns text
  | q :: qs => .asks q fun _ => plain text qs

/-- Serves the callbacks of a call as they come. Gives what the engine returned, and the slot. -/
def play (slot : Slot) : Conduct → Option Bytes × Slot
  | .returns text => (text, slot)
  | .asks q next =>
    let (answer, slot) := slot.serve q.callback
    (next answer).play slot

/-- A call that takes steps: its outcome, and the slot behind it. -/
def advance (slot : Slot) (k : Conduct) : Result Unit × Slot :=
  let (text, slot) := k.play slot.clear
  (slot.settle text, slot.clear)

end Conduct

inductive EngineCall where
  | steps (k : Conduct)
  /-- It does anything else. Nobody looks at the slot then. -/
  | other (k : Conduct)

namespace EngineCall

/-- A call on a thread with some slot. There is an outcome only if it takes steps. -/
def carryOut (slot : Slot) : EngineCall → Option (Result Unit) × Slot
  | .steps k =>
    let (result, slot) := k.advance slot
    (some result, slot)
  | .other k => (none, (k.play slot).2)

/-- Calls on one thread, of any machines, one after the other. -/
def carryOutAll (slot : Slot) : List EngineCall → List (Option (Result Unit)) × Slot
  | [] => ([], slot)
  | c :: rest =>
    let (result, slot) := c.carryOut slot
    let (results, slot) := carryOutAll slot rest
    (result :: results, slot)

end EngineCall

/-- A callback with the engine calls that its resolver makes, on the same thread, before it
answers. -/
structure Callout where
  inquiry : Inquiry
  calls : List EngineCall := []

namespace Callout

/-- Whether the resolver makes no engine calls. -/
def IsQuiet (c : Callout) : Prop := c.calls = []

def serve (slot : Slot) (c : Callout) : Option Bytes × Slot :=
  let (_, slot) := EngineCall.carryOutAll slot c.calls
  slot.serve c.inquiry.callback

/-- The slot behind callbacks in order. -/
def serveAll (slot : Slot) : List Callout → Slot
  | [] => slot
  | c :: rest => serveAll (c.serve slot).2 rest

/-- A call that takes steps, in which an engine makes these callbacks. -/
def advance (slot : Slot) (text : Option Bytes) (callouts : List Callout) : Result Unit × Slot :=
  let slot := serveAll slot.clear callouts
  (slot.settle text, slot.clear)

end Callout

end Rerun
