import Rerun.Metrics
import Rerun.Run.Basic

/-!
# Many runs

A ledger is all runs that were launched, with their callers and the counters of outcomes. Launches,
the work on runs, those who close them and those who wait for their outcomes come in any order. The
end of the work on a run is counted first and then handed to the run. Who closes a run first stops
the work, then looks whether there is an outcome, and if not, offers one.
-/

namespace Rerun.Run

/-- How far the work on a run is. -/
inductive Work where
  | underWay
  /-- The outcome was counted, but the run was not handed it yet. -/
  | counted (outcome : Except Error GlobalState)
  | over (outcome : Except Error GlobalState)

namespace Work

def counted? : Work → Option (Except Error GlobalState)
  | .underWay => none
  | .counted outcome | .over outcome => some outcome

def isOver : Work → Bool
  | .over _ => true
  | .underWay | .counted _ => false

end Work

/-- Where a caller is who closes a run. -/
inductive Closer where
  | stopped
  /-- Saw that there was no outcome. -/
  | givingUp
  | gone
  deriving DecidableEq

/-- Where someone is who waits for an outcome. -/
inductive Await where
  | waiting (isLimited : Bool)
  | told (r : Result GlobalState)
  /-- The patience ended before there was word of an outcome. -/
  | timedOut

/-- What someone gets who waited. -/
def Await.result? : Await → Option (Result GlobalState)
  | .waiting _ => none
  | .told r => some r
  | .timedOut => some (fail .cancelled)

/-- A run, the work on it, and what its callers do. -/
structure Tracked where
  run : Run
  work : Work := .underWay
  closers : List Closer := []
  awaits : List Await := []
  accepted : Nat := 0

/-- All runs in the order of their launches, and the counters. -/
structure Ledger where
  metrics : Metrics := {}
  runs : List Tracked := []

inductive Happening where
  | count (nanos : UInt64) (outcome : Except Error GlobalState)
  /-- The run is handed the outcome that was counted. -/
  | hand
  /-- The work is stopped from elsewhere. -/
  | interrupt
  /-- A caller begins to close the run, and stops the work. -/
  | close
  /-- A caller who closes the run looks whether there is an outcome. -/
  | look (c : Nat)
  /-- A caller who saw no outcome gives the run up. -/
  | giveUp (c : Nat)
  | await (isLimited : Bool)
  | tell (w : Nat)
  | timeOut (w : Nat)

namespace Tracked

def offer (t : Tracked) (outcome : Except Error GlobalState) : Tracked :=
  let (accepted, run) := t.run.take outcome
  { t with run, accepted := if accepted then t.accepted + 1 else t.accepted }

def setCloser (t : Tracked) (c : Nat) (stage : Closer) : Tracked :=
  { t with closers := t.closers.set c stage }

def setAwait (t : Tracked) (w : Nat) (stage : Await) : Tracked :=
  { t with awaits := t.awaits.set w stage }

/-- What someone is told who asks for the outcome. -/
def listen (t : Tracked) (isLimited : Bool) : Await :=
  if t.run.isResolved then .told (t.run.promise.await isLimited) else .waiting isLimited

/-- What happens next to a run. What does not fit its state changes nothing. -/
def step (t : Tracked) : Happening → Tracked
  | .count _ outcome =>
    match t.work with
    | .underWay => { t with work := .counted outcome }
    | _ => t
  | .hand =>
    match t.work with
    | .counted outcome => { t.offer outcome with work := .over outcome }
    | _ => t
  | .interrupt => { t with run := t.run.cancel }
  | .close => { t with run := t.run.cancel, closers := t.closers ++ [.stopped] }
  | .look c =>
    match t.closers[c]? with
    | some .stopped => t.setCloser c (if t.run.isResolved then .gone else .givingUp)
    | _ => t
  | .giveUp c =>
    match t.closers[c]? with
    | some .givingUp => (t.offer (.error .cancelled)).setCloser c .gone
    | _ => t
  | .await isLimited => { t with awaits := t.awaits ++ [t.listen isLimited] }
  | .tell w =>
    match t.awaits[w]? with
    | some (.waiting isLimited) => t.setAwait w (t.listen isLimited)
    | _ => t
  | .timeOut w =>
    match t.awaits[w]? with
    | some (.waiting true) => t.setAwait w .timedOut
    | _ => t

def counts? (t : Tracked) : Happening → Option (UInt64 × Except Error GlobalState)
  | .count nanos outcome =>
    match t.work with
    | .underWay => some (nanos, outcome)
    | _ => none
  | _ => none

end Tracked

namespace Ledger

inductive Event where
  /-- A run is launched. The work on it may have been stopped before. -/
  | launch (id : UInt64) (root : Digest) (isClosed : Bool)
  | on (i : Nat) (h : Happening)

def error? : Except Error GlobalState → Option Error
  | .ok _ => none
  | .error e => some e

/-- The counters after something happened to a run. -/
def count (m : Metrics) (counted : Option (UInt64 × Except Error GlobalState)) : Metrics :=
  match counted with
  | some (nanos, outcome) => m.recordOutcome nanos (error? outcome)
  | none => m

/-- What happens next. What happens to a run that was not launched changes nothing. -/
def step (l : Ledger) : Event → Ledger
  | .launch id root isClosed =>
    ⟨l.metrics.recordLaunch, l.runs ++ [{ run := { id, root, isClosed } }]⟩
  | .on i h =>
    match l.runs[i]? with
    | some t => ⟨count l.metrics (t.counts? h), l.runs.set i (t.step h)⟩
    | none => l

def steps (l : Ledger) (events : List Event) : Ledger := events.foldl step l

end Ledger

end Rerun.Run
