import Rerun.Handle.Run
import Rerun.Pool.Basic

/-!
# Sessions

A session, or execution run, answers questions about single steps of a run, in any order. It keeps
the machine with the input before its first step, and a cursor, a copy of it that moves forward and
is replaced by a fresh copy when a question goes back.
-/

namespace Rerun

/-- What is told of a step. -/
structure StepInfo where
  step : UInt64
  hash : Digest
  global : GlobalState
  status : Status
  deriving DecidableEq, Inhabited

namespace StepInfo

def form : Json.Form StepInfo where
  name := "StepInfo"
  blank := default
  lenient := false
  fields :=
    [⟨"step", fun x s => return { s with step := ← Json.readNatural "u64" x }⟩,
     ⟨"hash", fun x s => return { s with hash := ← Digest.ofJson x }⟩,
     ⟨"globalState", fun x s => return { s with global := ← GlobalState.ofJson x }⟩,
     ⟨"status", fun x s => return { s with status := ← Status.ofJson x }⟩]

def ofJson : Json.Node → Json.Read StepInfo := form.read

def toJson (s : StepInfo) : Json.Value :=
  .object [("step", .number s.step), ("hash", s.hash.toJson), ("globalState", s.global.toJson),
    ("status", s.status.toJson)]

/-- What is told of a machine where it is. -/
def ofInstance (i : Instance) : StepInfo := ⟨i.steps, i.hash, i.global, i.status⟩

end StepInfo

/-- The machines of a session. -/
structure Session where
  root : Digest
  /-- The machine with the input before its first step. -/
  prepared : Handle
  cursor : Handle
  stepChunk : UInt64
  isCancelled : Bool := false

namespace Session

inductive Ask where
  /-- What the machine looks like after some steps, or at its halt if it comes earlier. -/
  | stepAt (position : UInt64)
  | proofAt (position : UInt64)
  | last

inductive Reply where
  | info (s : StepInfo)
  | proof (bs : Bytes)

/-! ## Opening -/

/-- A copy of the machine of a module root, with an input. -/
def prepare (host : Host) (source : Handle) (x : Input) : Result Handle × Host :=
  match source.copy host with
  | .error f => (.error f, host)
  | .ok (h, host) =>
    match h.supply host x with
    | .error f => (.error f, (h.drop host).2)
    | .ok (h, host) => (.ok h, host)

/-- A session over a machine that has its input. -/
def ofPrepared (host : Host) (root : Digest) (h : Handle) (stepChunk : UInt64) :
    Result Session × Host :=
  match h.copy host with
  | .error f => (.error f, (h.drop host).2)
  | .ok (cursor, host) =>
    match h.freeze with
    | .error e => (fail e, host)
    | .ok prepared => (.ok { root, prepared, cursor, stepChunk := max stepChunk 1 }, host)

/-! ## Answering -/

/-- Puts a fresh copy in the place of the cursor, which is destroyed. -/
def restart (host : Host) (s : Session) : Result (Session × Host) := do
  let (fresh, host) ← s.prepared.copy host
  match s.cursor.destroy host with
  | .ok (_, host) => return ({ s with cursor := fresh }, host)
  | .error _ => return ({ s with cursor := fresh }, host)

/-- Brings the cursor back if it is past a position. -/
def rewind (host : Host) (position : UInt64) (s : Session) : Result (Session × Host) := do
  let i ← Instance.lift s.cursor.live
  if position < i.steps then s.restart host else return (s, host)

/-- How far a question brought a session. -/
structure Asked (α : Type) where
  result : Result α
  session : Session
  host : Host

def goOn (s : Session) (r : Ran Handle × Host) : Asked Unit :=
  ⟨r.1.result, { s with cursor := r.1.machine }, r.2⟩

/-- Moves the cursor to a position, or to its halt if that comes earlier. -/
def seek (host : Host) (d : Deadline) (position : UInt64) (s : Session) : Asked Unit :=
  match s.rewind host position with
  | .error f => ⟨.error f, s, host⟩
  | .ok (s, host) =>
    match s.cursor.live with
    | .error e => ⟨fail e, s, host⟩
    | .ok i =>
      if i.steps < position ∧ i.status = .running then
        s.goOn (s.cursor.step host d (position - i.steps))
      else ⟨.ok (), s, host⟩

def runToHalt (host : Host) (horizon : Nat) (d : Deadline) (s : Session) : Asked Unit :=
  s.goOn (s.cursor.stepInChunks host horizon d s.stepChunk)

/-- Reads the cursor after it was moved. -/
def Asked.read (a : Asked Unit) (f : Instance → Reply) : Asked Reply :=
  match a.result with
  | .error e => ⟨.error e, a.session, a.host⟩
  | .ok () => ⟨Instance.lift (a.session.cursor.live.map f), a.session, a.host⟩

def answer (host : Host) (horizon : Nat) (d : Deadline) (s : Session) : Ask → Asked Reply
  | .stepAt position => (s.seek host d position).read fun i => .info (.ofInstance i)
  | .proofAt position => (s.seek host d position).read fun i => .proof i.proof
  | .last => (s.runToHalt host horizon d).read fun i => .info (.ofInstance i)

/-! ## Closing -/

/-- Answers no more questions. -/
def cancel (s : Session) : Session := { s with isCancelled := true }

/-- A handle after it was destroyed, if it was not before, and its host. -/
def destroyed (h : Handle) (host : Host) : Handle × Host :=
  match h.destroy host with
  | .ok r => r
  | .error _ => (h, host)

def dropPrepared (host : Host) (s : Session) : Session × Host :=
  let (prepared, host) := destroyed s.prepared host
  ({ s with prepared }, host)

def dropCursor (host : Host) (s : Session) : Session × Host :=
  let (cursor, host) := destroyed s.cursor host
  ({ s with cursor }, host)

/-- Closes a session that nobody is asking. -/
def close (host : Host) (s : Session) : Session × Host :=
  let (s, host) := s.cancel.dropPrepared host
  s.dropCursor host

/-- A question as a job of a worker, who makes sure that the cursor of a cancelled session does not
outlive it. -/
def job (host : Host) (horizon : Nat) (d : Deadline) (s : Session) (ask : Ask) : Asked Reply :=
  let a := if s.isCancelled then ⟨fail .cancelled, s, host⟩ else s.answer host horizon d ask
  if a.session.isCancelled then
    let (session, host) := a.session.dropCursor a.host
    { a with session, host }
  else a

end Session

end Rerun
