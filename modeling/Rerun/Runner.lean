import Rerun.Handle.Run
import Rerun.Pool.Roster
import Rerun.Run.Basic
import Rerun.Site

/-!
# Runners

A runner spawns runs and carries them out. The interpreter starts from the machine at host input and
takes some steps at a time; the native runner starts from the beginning and takes all steps at once.
Both give the same outcomes.
-/

namespace Rerun

/-- The two ways to carry out a run. -/
inductive Runner.Kind where
  | interpreter
  | native
  deriving DecidableEq

/-- Someone who carries out runs. -/
structure Runner where
  kind : Runner.Kind
  pool : Pool
  /-- The limit on a run in milliseconds; zero is none. -/
  timeoutMs : UInt64
  stepChunk : UInt64 := 1
  isStarted : Bool := false
  isStopped : Bool := false

namespace Runner

def Kind.name : Kind → String
  | .interpreter => "interpreter"
  | .native => "jit"

def name (r : Runner) : String := r.kind.name

def interpreter (c : Config.Interpreter) (cores : Nat) : Result Runner := do
  let pool ← Pool.create Kind.interpreter.name (Config.workerCount c.workers cores)
  return { kind := .interpreter, pool, timeoutMs := c.runTimeoutMs, stepChunk := c.stepChunk }

def native (c : Config.Jit) (cores : Nat) : Result Runner := do
  let pool ← Pool.create Kind.native.name (Config.workerCount c.workers cores)
  return { kind := .native, pool, timeoutMs := c.runTimeoutMs }

/-! ## Starting and stopping -/

/-- Whether an engine can be run natively. -/
def checkNative (b : Backend) : Except Error Unit := do
  b.probe
  if b.supportsJit then return ()
  else throw (.engineUnavailable s!"{b.name} backend has no JIT support")

/-- Whatever is wrong with an engine makes it unavailable. -/
def asUnavailable : Error → Error
  | .engineUnavailable text => .engineUnavailable text
  | e => .engineUnavailable e.message

/-- Starts a runner; the native one needs an engine that can be run natively. -/
def start (r : Runner) (b : Backend) : Except Error Runner :=
  match r.kind with
  | .interpreter => .ok { r with isStarted := true }
  | .native =>
    match checkNative b with
    | .ok () => .ok { r with isStarted := true }
    | .error e => .error (asUnavailable e)

def stop (r : Runner) : Runner := { r with isStopped := true, pool := r.pool.close }

/-! ## Runs -/

/-- The machine of a pair that a run copies. -/
def source (r : Runner) (pair : MachinePair) : Handle :=
  match r.kind with
  | .interpreter => pair.hostIo
  | .native => pair.zeroStep

/-- How a run lets its machine go on. -/
def way (r : Runner) : Handle.Way :=
  match r.kind with
  | .interpreter => .inChunks (max r.stepChunk 1)
  | .native => .atOnce

/-- The limit on a run whose caller has a limited patience, in looks at the clock. -/
def limit (r : Runner) (clock : Clock) (patience : Option Nat) : Option Nat :=
  Deadline.shorter ((Config.limit? r.timeoutMs).map (· * clock.pace)) patience

/-- The clock of a run that has a limit and waited for some looks. -/
def deadline (clock : Clock) (limit : Option Nat) (spent : Nat) : Deadline :=
  { limit, spent, lag := clock.lag }

/-- What keeps a run from starting. -/
def refusal (r : Runner) (isClosed : Bool) : Option Error :=
  if r.kind = .native ∧ !r.isStarted then
    some (.engineUnavailable "JIT spawner was not started")
  else if r.isStopped || isClosed then some .cancelled
  else none

/-- The run on a worker. -/
def onWorker (r : Runner) (s : Site) (x : Input) (d : Deadline) (pair : MachinePair) :
    Result GlobalState × Nat × Site :=
  match r.pool.refusal r.isStopped with
  | some e => (fail e, d.spent, s)
  | none =>
    let finished := (r.source pair).runCopy s.host x d (r.way.advance s.clock.horizon)
    let (result, s) := { s with host := finished.host }.settle finished.result
    (result, finished.deadline.spent, s)

/-- The run with the machines that were asked for, if they were there in time. -/
def withPair (r : Runner) (s : Site) (x : Input) (d : Deadline) :
    Option (Except Error MachinePair) → Result GlobalState × Nat × Site
  | none => (if d.limit.isSome then fail .cancelled else .error .endless, d.spent, s)
  | some (.error e) => (fail e, d.spent, s)
  | some (.ok pair) => r.onWorker s x d pair

/-- Carries out a run, and tells how long it took. A run that was closed before never starts. -/
def work (r : Runner) (s : Site) (root : Digest) (x : Input) (isClosed : Bool)
    (patience : Option Nat) : Result GlobalState × Nat × Site :=
  match r.refusal isClosed with
  | some e => (fail e, 0, s)
  | none =>
    let limit := r.limit s.clock patience
    let (answer, looks, s) := s.pair limit root
    let (result, spent, s) := r.withPair s x (deadline s.clock limit looks) answer
    (result, spent, s.pass (spent - looks) s.inFlight)

/-- Launches a run. With a runner that was stopped it is closed from the start. -/
def launch (r : Runner) (s : Site) (root : Digest) (x : Input) : Run × Site :=
  ({ id := x.id, root, isClosed := r.isStopped }, { s with metrics := s.metrics.recordLaunch })

/-- The work on a run ended: its outcome is counted and handed to it. -/
def deliver (s : Site) (run : Run) (looks : Nat) (result : Result GlobalState) : Run × Site :=
  let count (error : Option Error) : Site :=
    { s with metrics := s.metrics.recordOutcome (s.nanos looks) error }
  match result with
  | .ok g => ((run.take (.ok g)).2, count none)
  | .error (.error e) => ((run.take (.error e)).2, count (some e))
  | .error _ => (run, s)

def complete (r : Runner) (s : Site) (run : Run) (x : Input) : Run × Site :=
  let (result, looks, s) := r.work s run.root x run.isClosed none
  deliver s run looks result

/-- Carries out a run that is closed when the patience of its caller ends. Tells whether there was
an outcome by then. -/
def completeWithin (r : Runner) (s : Site) (run : Run) (x : Input) (patience : Nat) :
    Bool × Run × Site :=
  let (result, looks, s) := r.work s run.root x run.isClosed (some patience)
  if patience ≤ looks then (false, deliver s run.close looks result)
  else (true, let (run, s) := deliver s run looks result; (run.close, s))

def run (r : Runner) (s : Site) (root : Digest) (x : Input) : Run × Site :=
  let (run, s) := r.launch s root x
  r.complete s run x

/-! ## Runs side by side -/

def launchAll (r : Runner) (s : Site) (root : Digest) : List Input → List Run × Site
  | [] => ([], s)
  | x :: xs =>
    let (run, s) := r.launch s root x
    let (runs, s) := r.launchAll s root xs
    (run :: runs, s)

/-- The machines of a module root for several runs, with the clock that all of them have. A runner
that refuses a run refuses all of them. -/
def pairs (r : Runner) (s : Site) (root : Digest) (count : Nat) :
    List (Option (Except Error MachinePair)) × Deadline × Site :=
  match r.refusal false with
  | some e => (List.replicate count (some (.error e)), .never, s)
  | none =>
    let limit := r.limit s.clock none
    let (answers, looks, s) := s.pairs limit root count
    (answers, deadline s.clock limit looks, s)

/-- When the worker of a run that ended this way has nothing to do any more. -/
def freeAt (result : Result GlobalState) (spent : Nat) : Option Nat :=
  match result with
  | .error .endless => none
  | _ => some spent

/-- The run with the machines that were asked for, once a worker has nothing to do. A run without
machines needs no worker. -/
def inTurn (r : Runner) (s : Site) (x : Input) (d : Deadline) (workers : Pool.Roster)
    (answer : Option (Except Error MachinePair)) :
    Result GlobalState × Nat × Pool.Roster × Site :=
  match answer with
  | some (.ok pair) =>
    match workers.next? d.spent with
    | none => (.error .endless, d.spent, workers, s)
    | some (start, workers) =>
      let (result, spent, s) := r.onWorker s x { d with spent := start } pair
      (result, spent, workers.giveBack (freeAt result spent), s)
  | answer =>
    let (result, spent, s) := r.withPair s x d answer
    (result, spent, workers, s)

/-- Carries out runs that begin at the same time, and tells how long the longest of them took. -/
def completeAll (r : Runner) (s : Site) (d : Deadline) (workers : Pool.Roster) :
    List (Run × Input × Option (Except Error MachinePair)) → List Run × Nat × Site
  | [] => ([], d.spent, s)
  | (run, x, answer) :: rest =>
    let (result, spent, workers, s) := r.inTurn s x d workers answer
    let (run, s) := deliver s run spent result
    let (runs, longest, s) := r.completeAll s d workers rest
    (run :: runs, max spent longest, s)

/-- Launches runs of one module root and carries them out side by side, as many at once as there are
workers. All of them ask for the machines before any of them has got them. -/
def runAll (r : Runner) (s : Site) (root : Digest) (xs : List Input) : List Run × Site :=
  let (runs, s) := r.launchAll s root xs
  let (answers, d, s) := r.pairs s root xs.length
  let (runs, looks, s) := r.completeAll s d (.ofPool r.pool) (runs.zip (xs.zip answers))
  (runs, s.pass (looks - d.spent) s.inFlight)

end Runner

end Rerun
