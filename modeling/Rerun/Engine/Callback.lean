import Rerun.Resolver

/-!
# Callbacks of foreign engines

A foreign engine asks for content through a callback that can only succeed or fail. Why it failed is
kept in a slot of the thread until the engine call returns, and is then the outcome of the call.
-/

namespace Rerun

/-- A request for content: under which token, for which hash, and how contents are found by then. -/
structure Callback where
  token : Nat
  hash : Digest
  resolve : Nat → Digest → Result Bytes

/-- What becomes of a callback: the content, or a failure. A resolver that panics counts as one that
failed. -/
def Callback.outcome (c : Callback) : Except Error Bytes :=
  match c.resolve c.token c.hash with
  | .ok content => .ok content
  | .error (.error e) => .error e
  | .error _ => .error (.preimageFailed c.hash c.token "resolver panicked")

/-- The first failure of a callback since the slot was last emptied. -/
abbrev Slot := Option Error

/-- An engine call that is over: what its callbacks were answered, how it ended, and the slot. -/
structure Called where
  answers : List (Option Bytes)
  result : Result Unit
  slot : Slot

namespace Slot

/-- Keeps a failure, unless there is one already. -/
def record (slot : Slot) (e : Error) : Slot := slot.or (some e)

def clear (_ : Slot) : Slot := none

/-- Serves a callback: the content, if there is one, and the slot behind it. -/
def serve (slot : Slot) (c : Callback) : Option Bytes × Slot :=
  match c.outcome with
  | .ok content => (some content, slot)
  | .error e => (none, slot.record e)

def serveAll (slot : Slot) : List Callback → List (Option Bytes) × Slot
  | [] => ([], slot)
  | c :: rest =>
    let (answer, slot) := slot.serve c
    let (answers, slot) := slot.serveAll rest
    (answer :: answers, slot)

/-- The outcome of an engine call that returned an error text or none. A failure in the slot counts
for more than the text. -/
def settle (slot : Slot) (returned : Option Bytes) : Result Unit :=
  match slot, returned with
  | some e, _ => fail e
  | none, some text => fail (.engineFault (Bytes.lossy text))
  | none, none => .ok ()

/-- An engine call that makes callbacks and returns an error text or none. The slot is emptied
before and after. -/
def call (slot : Slot) (callbacks : List Callback) (returned : Option Bytes) : Called :=
  let (answers, slot) := slot.clear.serveAll callbacks
  ⟨answers, slot.settle returned, slot.clear⟩

end Slot

end Rerun
