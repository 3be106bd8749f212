import Rerun.Handle.Basic

/-!
# Running an input on a copy

A machine that is shared is never run itself. A run takes a copy, supplies the input to it, lets it
go on to its halt, reads the outcome off, and drops the copy, whatever happened.
-/

namespace Rerun.Handle

/-- The reason why content that no one supplied is refused. -/
def unsupplied : String := "preimage not supplied with input"

/-- Hands over messages in order. -/
def addMessages (inbox : Inbox) (h : Handle) : List Message → Result Handle
  | [] => .ok h
  | m :: rest =>
    match h.addMessage inbox m with
    | .ok h => addMessages inbox h rest
    | .error f => .error f

/-- Supplies an input: its start state, its messages, and a resolver for its contents. -/
def supply (host : Host) (x : Input) (h : Handle) : Result (Handle × Host) := do
  let h ← h.setGlobal x.startState
  let h ← h.addMessages .sequencer x.sequencerMessages
  let h ← h.addMessages .delayed x.delayedMessages
  let (_, h, host) ← Instance.lift (h.setResolver host (.ofContents x.preimages unsupplied))
  return (h, host)

/-- The outcome of a machine that has a status: the state if it finished. -/
def outcomeOf (status : Status) (g : GlobalState) : Except Error GlobalState :=
  match status with
  | .finished => .ok g
  | .errored => .error (.engineFault "machine entered errored state")
  | .tooFar => .error (.engineFault "machine reached inbox position beyond supplied input")
  | .running => .error (.engineFault "machine stopped while still running")

def outcome (h : Handle) : Except Error GlobalState := do
  let i ← h.live
  outcomeOf i.status i.global

/-- A way to let a machine go on. -/
abbrev Advance := Host → Deadline → Handle → Ran Handle × Host

/-- How a run on a copy ended, with its clock, and what it leaves behind. -/
structure Finished where
  result : Result GlobalState
  deadline : Deadline
  host : Host

/-- Lets a copy that has its input go on, reads the outcome off, and drops the copy. -/
def finish (host : Host) (d : Deadline) (advance : Advance) (h : Handle) : Finished :=
  let (r, host) := advance host d h
  let result : Result GlobalState :=
    match r.result with
    | .error f => .error f
    | .ok () => Instance.lift r.machine.outcome
  ⟨result, r.deadline, (r.machine.drop host).2⟩

def runCopy (host : Host) (x : Input) (d : Deadline) (advance : Advance) (source : Handle) :
    Finished :=
  match source.copy host with
  | .error f => ⟨.error f, d, host⟩
  | .ok (h, host) =>
    match h.supply host x with
    | .error f => ⟨.error f, d, (h.drop host).2⟩
    | .ok (h, host) => h.finish host d advance

/-- Lets a machine go on some steps at a time. -/
def interpret (horizon : Nat) (chunk : UInt64) : Advance := fun host d h =>
  h.stepInChunks host horizon d chunk

/-- The largest number of steps that can be asked for. -/
def allSteps : UInt64 := 18446744073709551615

/-- Lets a machine go on with all steps at once. -/
def runNatively : Advance := fun host d h => h.step host d allSteps

/-- The two ways to the halt of a machine. -/
inductive Way where
  | inChunks (chunk : UInt64)
  | atOnce
  deriving DecidableEq

def Way.advance (horizon : Nat) : Way → Advance
  | .inChunks chunk => interpret horizon chunk
  | .atOnce => runNatively

end Rerun.Handle
