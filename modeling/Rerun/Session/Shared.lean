import Rerun.Session.Basic

/-!
# A session in many hands

Workers that answer questions and callers that close the session, in any order. One lock guards the
cursor. A worker waits for it. Whoever only wants to destroy the cursor, a caller or a worker at the
end of its job, passes on if the lock is taken, and otherwise takes it, destroys the cursor, and
gives it back, an event each. That the lock was taken does not tell by whom: by a worker, which
looks after its question whether the session was cancelled, or by a caller, which is about to
destroy the cursor itself.

A worker answers its question in one event. While it has the lock nobody else gets at the cursor,
and all that it asks of the prepared machine is a copy. Destroying a machine and letting go of its
token are one event as well: nothing is said of the token while somebody is still at that.
-/

namespace Rerun.Session

/-- The cursor that a question leaves behind if it goes back: it was destroyed when a copy of the
prepared machine took its place. -/
def stale (host : Host) (s : Session) : Ask → List Handle
  | .stepAt position | .proofAt position =>
    match s.cursor.live, s.prepared.copy host with
    | .ok i, .ok (_, host) => if position < i.steps then [(destroyed s.cursor host).1] else []
    | _, _ => []
  | .last => []

/-- How far somebody is who wants to destroy the cursor without waiting for the lock. -/
inductive Release where
  | trying
  | locked
  | dropped
  deriving DecidableEq

/-- Where a worker is. `started` has not come to the cursor yet; `holding`, `admitted` and
`answered` have the lock, first without, then with a look whether the session was cancelled, last
with the answer; `leaving` gave it back. Only a worker that then sees that the session was cancelled
is `releasing` the cursor. -/
inductive Worker where
  | started (ask : Ask)
  | holding (ask : Ask)
  | admitted (ask : Ask)
  | answered (r : Result Reply)
  | leaving (r : Result Reply)
  | releasing (stage : Release) (r : Result Reply)
  | gone (r : Result Reply)

def Worker.result? : Worker → Option (Result Reply)
  | .started _ | .holding _ | .admitted _ => none
  | .answered r | .leaving r | .releasing _ r | .gone r => some r

def Worker.isGone : Worker → Bool
  | .gone _ => true
  | _ => false

def Worker.release? : Worker → Option Release
  | .releasing stage _ => some stage
  | _ => none

/-- A worker that is releasing the cursor gets to another stage of that, or is done with it. -/
def Worker.proceed (stage : Option Release) : Worker → Worker
  | .releasing _ r =>
    match stage with
    | some stage => .releasing stage r
    | none => .gone r
  | worker => worker

def panicked (r : Result Reply) : Bool :=
  match r with
  | .error (.panic _) => true
  | _ => false

/-- Where a caller is who closes the session. -/
inductive Closer where
  | begun
  | cancelled
  | releasing (stage : Release)
  | gone
  deriving DecidableEq

def Closer.release? : Closer → Option Release
  | .releasing stage => some stage
  | _ => none

/-- A caller who is releasing the cursor gets to another stage of that, or is done with it. -/
def Closer.proceed (stage : Option Release) : Closer → Closer
  | .releasing _ =>
    match stage with
    | some stage => .releasing stage
    | none => .gone
  | closer => closer

/-- Who can have the lock. -/
inductive Party where
  | worker (w : Nat)
  | closer (c : Nat)
  deriving DecidableEq

/-- A session, everyone who is at it, who has the lock, and the cursors that were replaced. -/
structure Shared where
  session : Session
  host : Host
  holder : Option Party := none
  workers : List Worker := []
  closers : List Closer := []
  stale : List Handle := []

namespace Shared

inductive Event where
  | start (ask : Ask)
  | lock (w : Nat)
  /-- A worker with the lock looks whether the session was cancelled. -/
  | check (w : Nat)
  | answer (w : Nat) (d : Deadline)
  /-- A worker gives the lock back. If its question ended in a panic, that is all it does. -/
  | unlock (w : Nat)
  /-- A worker without the lock looks whether the session was cancelled. -/
  | leave (w : Nat)
  | close
  | cancel (c : Nat)
  | dropPrepared (c : Nat)
  /-- Someone who wants to destroy the cursor takes the lock, or passes on if it is taken. -/
  | tryLock (p : Party)
  | dropCursor (p : Party)
  | letGo (p : Party)

def setWorker (s : Shared) (w : Nat) (stage : Worker) : Shared :=
  { s with workers := s.workers.set w stage }

def setCloser (s : Shared) (c : Nat) (stage : Closer) : Shared :=
  { s with closers := s.closers.set c stage }

def release? (s : Shared) : Party → Option Release
  | .worker w => s.workers[w]?.bind Worker.release?
  | .closer c => s.closers[c]?.bind Closer.release?

/-- Somebody who is releasing the cursor gets to another stage of that, or is done with it. -/
def proceed (s : Shared) (stage : Option Release) : Party → Shared
  | .worker w => { s with workers := s.workers.modify w (.proceed stage) }
  | .closer c => { s with closers := s.closers.modify c (.proceed stage) }

/-- What happens next. An event that does not fit the place of its actor changes nothing. -/
def step (horizon : Nat) (s : Shared) : Event → Shared
  | .start ask => { s with workers := s.workers ++ [.started ask] }
  | .lock w =>
    match s.workers[w]?, s.holder with
    | some (.started ask), none => { s.setWorker w (.holding ask) with holder := some (.worker w) }
    | _, _ => s
  | .check w =>
    match s.workers[w]? with
    | some (.holding ask) =>
      if s.session.isCancelled then s.setWorker w (.answered (fail .cancelled))
      else s.setWorker w (.admitted ask)
    | _ => s
  | .answer w d =>
    match s.workers[w]? with
    | some (.admitted ask) =>
      let a := s.session.answer s.host horizon d ask
      match a.result with
      | .error .endless => s
      | r =>
        { s.setWorker w (.answered r) with
          session := a.session, host := a.host, stale := s.stale ++ s.session.stale s.host ask }
    | _ => s
  | .unlock w =>
    match s.workers[w]? with
    | some (.answered r) =>
      { s.setWorker w (if panicked r then .gone r else .leaving r) with holder := none }
    | _ => s
  | .leave w =>
    match s.workers[w]? with
    | some (.leaving r) =>
      s.setWorker w (if s.session.isCancelled then .releasing .trying r else .gone r)
    | _ => s
  | .close => { s with closers := s.closers ++ [.begun] }
  | .cancel c =>
    match s.closers[c]? with
    | some .begun => { s.setCloser c .cancelled with session := s.session.cancel }
    | _ => s
  | .dropPrepared c =>
    match s.closers[c]? with
    | some .cancelled =>
      let (session, host) := s.session.dropPrepared s.host
      { s.setCloser c (.releasing .trying) with session, host }
    | _ => s
  | .tryLock p =>
    match s.release? p, s.holder with
    | some .trying, none => { s.proceed (some .locked) p with holder := some p }
    | some .trying, some _ => s.proceed none p
    | _, _ => s
  | .dropCursor p =>
    match s.release? p with
    | some .locked =>
      let (session, host) := s.session.dropCursor s.host
      { s.proceed (some .dropped) p with session, host }
    | _ => s
  | .letGo p =>
    match s.release? p with
    | some .dropped => { s.proceed none p with holder := none }
    | _ => s

def run (horizon : Nat) (s : Shared) (events : List Event) : Shared :=
  events.foldl (step horizon) s

end Shared

end Rerun.Session
