import Rerun.Metrics
import Rerun.Pool.Basic

/-!
# Jobs in a pool

A crew is a worker pool at work: its permits, and all jobs that were submitted. Submissions, permits
that are granted and given back, jobs that start and end, and submitters that give up, in any order.
A job waits in line for a permit, has one reserved for it, is handed over with it to the threads
that carry out jobs, and runs; when it ends, the permit goes to the next one. Whoever submitted a
job looks after it from time to time: only then it is handed over or called off, and only then it is
told what became of it.
-/

namespace Rerun.Pool

/-- What became of a job. -/
inductive Fate (α : Type) where
  /-- It was called off before it was handed over. -/
  | refused (e : Error)
  | dropped (reason : String)
  | returned (result : Except Error α)
  | panicked (payload : Payload)

namespace Fate

variable {α : Type}

def outcome : Fate α → Except Error α
  | .refused e => .error e
  | .dropped reason => .error (.engineFault s!"worker aborted: {reason}")
  | .returned result => result
  | .panicked payload => .error (.engineFault s!"worker panicked: {panicText payload}")

/-- What became of a job that ran. Without an end nothing did. -/
def ofResult? : Result α → Option (Fate α)
  | .ok a => some (.returned (.ok a))
  | .error (.error e) => some (.returned (.error e))
  | .error (.panic payload) => some (.panicked payload)
  | .error .endless => none

def isPanic : Fate α → Bool
  | .panicked _ => true
  | .refused _ | .dropped _ | .returned _ => false

end Fate

/-- How far a job is: it waits in line, a permit is reserved for it, or it has its permit and waits
for a thread. When it is over its permit is given back, and after that its submitter is told. -/
inductive Phase (α : Type) where
  | waiting
  | reserved
  | handed
  | running
  | ended (fate : Fate α)
  | done (fate : Fate α)

/-- A job and whether its submitter gave up. -/
structure Job (α : Type) where
  cancelled : Bool
  phase : Phase α

def Job.fate? {α : Type} (j : Job α) : Option (Fate α) :=
  match j.phase with
  | .ended fate | .done fate => some fate
  | .waiting | .reserved | .handed | .running => none

/-- A pool and its jobs, in the order in which they were submitted. -/
structure Crew (α : Type) where
  pool : Pool
  /-- Permits that no job has or waits for. -/
  free : Nat
  metrics : Metrics := {}
  jobs : List (Job α) := []

namespace Crew

variable {α : Type}

def ofPool (p : Pool) : Crew α := { pool := p, free := p.size }

def panics (c : Crew α) : Nat := c.metrics.panics.toNat

def front? (c : Crew α) : Option Nat :=
  c.jobs.findIdx? fun j => match j.phase with
    | .waiting => true
    | _ => false

def setPhase (c : Crew α) (n : Nat) (phase : Phase α) : Crew α :=
  { c with jobs := c.jobs.modify n fun j => { j with phase } }

/-- A permit is given back. The first job in line gets it; a closed pool has no line. -/
def giveBack (c : Crew α) : Crew α :=
  match c.pool.isClosed, c.front? with
  | false, some n => c.setPhase n .reserved
  | _, _ => { c with free := c.free + 1 }

inductive Event (α : Type) where
  | submit (cancelled : Bool)
  /-- The submitter of a job looks after it. -/
  | poll (n : Nat)
  | start (n : Nat)
  /-- The threads drop a job that they did not start. -/
  | drop (n : Nat) (reason : String)
  | cancel (n : Nat)
  | finish (n : Nat) (result : Result α)
  | close

/-- A job is handed in. It is handed over if there is a free permit, and stands in line
otherwise. -/
def submit (c : Crew α) (cancelled : Bool) : Crew α :=
  match c.pool.refusal cancelled with
  | some e => { c with jobs := c.jobs ++ [⟨cancelled, .done (.refused e)⟩] }
  | none =>
    if c.free = 0 then { c with jobs := c.jobs ++ [⟨cancelled, .waiting⟩] }
    else { c with free := c.free - 1, jobs := c.jobs ++ [⟨cancelled, .handed⟩] }

/-- The submitter of a job is told what became of it. A panic is counted. -/
def tell (c : Crew α) (n : Nat) (fate : Fate α) : Crew α :=
  let c := c.setPhase n (.done fate)
  if fate.isPanic then { c with metrics := c.metrics.recordPanic } else c

/-- The submitter of a job looks after it. A job that is called off gives its permit back. -/
def poll (c : Crew α) (n : Nat) : Crew α :=
  match c.jobs[n]? with
  | none => c
  | some j =>
    match j.phase, c.pool.refusal j.cancelled with
    | .waiting, some e => c.setPhase n (.done (.refused e))
    | .reserved, some e => (c.setPhase n (.done (.refused e))).giveBack
    | .reserved, none => c.setPhase n .handed
    | .ended fate, _ => c.tell n fate
    | _, _ => c

def start (c : Crew α) (n : Nat) : Crew α :=
  match c.jobs[n]? with
  | some ⟨_, .handed⟩ => c.setPhase n .running
  | _ => c

/-- A job that was handed over is dropped, and its permit with it. -/
def drop (c : Crew α) (n : Nat) (reason : String) : Crew α :=
  match c.jobs[n]? with
  | some ⟨_, .handed⟩ => (c.setPhase n (.ended (.dropped reason))).giveBack
  | _ => c

/-- A job that runs ends, and gives its permit back. Without an end nothing happens. -/
def finish (c : Crew α) (n : Nat) (result : Result α) : Crew α :=
  match c.jobs[n]?, Fate.ofResult? result with
  | some ⟨_, .running⟩, some fate => (c.setPhase n (.ended fate)).giveBack
  | _, _ => c

def step (c : Crew α) : Event α → Crew α
  | .submit cancelled => c.submit cancelled
  | .poll n => c.poll n
  | .start n => c.start n
  | .drop n reason => c.drop n reason
  | .cancel n => { c with jobs := c.jobs.modify n fun j => { j with cancelled := true } }
  | .finish n result => c.finish n result
  | .close => { c with pool := c.pool.close }

def run (c : Crew α) (es : List (Event α)) : Crew α := es.foldl step c

/-- Something happens, then all submitters look after their jobs, and then the threads start all
that was handed over, both in the order of submission. -/
def settle (c : Crew α) (e : Event α) : Crew α :=
  let c := c.step e
  let places := List.range c.jobs.length
  (c.run (places.map .poll)).run (places.map .start)

def fate? (c : Crew α) (n : Nat) : Option (Fate α) := c.jobs[n]?.bind Job.fate?

/-- The outcome of a job, once its submitter was told. -/
def outcome? (c : Crew α) (n : Nat) : Option (Except Error α) :=
  match c.jobs[n]? with
  | some ⟨_, .done fate⟩ => some fate.outcome
  | _ => none

end Crew

end Rerun.Pool
