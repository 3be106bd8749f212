import Rerun.Cache.Basic
import Rerun.Locator
import Rerun.MachinePair
import Rerun.Metrics
import Rerun.Pool.Basic

/-!
# Sites

A site is what all runs and sessions of a node share: the engine, the machine loader, the files and
resolvers, and the counters. The loader's side of it is the depot: the cache of machine pairs with
the builds in flight. Builds go on while time passes, whether anybody waits for them or not.
-/

namespace Rerun

/-- Machine pairs by module root, built from a tree of directories when they are first needed. -/
structure Depot where
  locator : Locator
  files : Config.MachineFiles
  cache : Cache MachinePair := {}
  /-- The builds in flight by their numbers, as far as they came. -/
  walks : List (Nat × MachinePair.Walk) := []
  isClosed : Bool := false

/-- What all runs and sessions share. -/
structure Site where
  backend : Backend
  clock : Clock
  depot : Depot
  metrics : Metrics := {}
  host : Host

namespace Site

/-- The site of some files before anything happened. -/
def ofFiles (backend : Backend) (clock : Clock) (locator : Locator) (names : Config.MachineFiles)
    (files : Files) : Site :=
  { backend, clock, depot := { locator, files := names }, host := ⟨files, .empty, none⟩ }

/-- A number of looks at the clock as a time in nanoseconds. -/
def nanos (s : Site) (looks : Nat) : UInt64 := UInt64.ofNat (looks * 1000000 / s.clock.pace)

/-! ## Machines -/

def buildLimit (s : Site) : Option Nat :=
  (Config.limit? s.depot.files.buildTimeoutMs).map (· * s.clock.pace)

def buildDeadline (s : Site) : Deadline :=
  if s.depot.isClosed then .past else { limit := s.buildLimit }

def finishBuild (s : Site) (n : Nat) (looks : Nat) (outcome : Except Error MachinePair) : Site :=
  { s with
    depot :=
      { s.depot with
        cache := s.depot.cache.finish n outcome
        walks := s.depot.walks.filter (·.1 ≠ n) }
    metrics := s.metrics.recordBuild (s.nanos looks) outcome.toBool }

/-- A build of a module root got to a stage, after some looks at the clock. -/
def reach (s : Site) (n : Nat) (root : Digest) (looks : Nat) : MachinePair.Stage → Site
  | .walking w =>
    let walks := s.depot.walks.filter (·.1 ≠ n) ++ [(n, w)]
    { s with depot := { s.depot with walks } }
  | .ended result =>
    match Build.outcomeOf root result with
    | some outcome => s.finishBuild n looks outcome
    | none => s

def startBuild (s : Site) (n : Nat) (root : Digest) : Site :=
  let (stage, host) := MachinePair.start s.backend s.depot.files (s.depot.locator.machinePath root)
    root s.buildDeadline s.host
  { s with host }.reach n root 0 stage

/-- The build with a number goes on until it ends or some looks at the clock have passed. Gives the
looks that it took. -/
def goOn (s : Site) (pause : Option Nat) (n : Nat) : Nat × Site :=
  match s.depot.walks.lookup n with
  | none => (0, s)
  | some w =>
    let (stage, looks, host) := w.goOn s.clock.horizon pause s.host
    (looks, { s with host }.reach n w.root (w.deadline.spent + looks) stage)

/-- Some looks at the clock pass for builds that nobody waits for. -/
def pass (s : Site) (looks : Nat) (builds : List Nat) : Site :=
  builds.foldl (fun s n => (s.goOn (some looks) n).2) s

def inFlight (s : Site) : List Nat := s.depot.walks.map Prod.fst

/-- Asks for the pair of a module root, which starts a build if there is none. -/
def request (s : Site) (root : Digest) : Cache.Ticket MachinePair × Site :=
  let isNew := (s.depot.cache.entry? root).isNone
  let (ticket, cache) := s.depot.cache.request root
  let s : Site := { s with depot := { s.depot with cache } }
  match isNew, ticket with
  | true, .build n => (ticket, s.startBuild n root)
  | _, _ => (ticket, s)

/-- The holder of a ticket waits until there is an outcome or patience ends. Gives the looks at the
clock that passed. -/
def await (s : Site) (patience : Option Nat) : Cache.Ticket MachinePair → Nat × Site
  | .value _ => (0, s)
  | .build n =>
    let others := s.inFlight.filter (· ≠ n)
    let (looks, s) := s.goOn patience n
    (looks, s.pass looks others)

/-- The pair of a module root, and the looks at the clock until it was there. Without a pair in time
there is no outcome, and the build goes on. -/
def pair (s : Site) (patience : Option Nat) (root : Digest) :
    Option (Except Error MachinePair) × Nat × Site :=
  let (ticket, s) := s.request root
  let (looks, s) := s.await patience ticket
  (s.depot.cache.answer? ticket, looks, s)

/-- Several ask for the pair of a module root, before any of them has got it. -/
def requests (s : Site) (root : Digest) : Nat → List (Cache.Ticket MachinePair) × Site
  | 0 => ([], s)
  | count + 1 =>
    let (ticket, s) := s.request root
    let (tickets, s) := s.requests root count
    (ticket :: tickets, s)

/-- The holders of tickets wait at the same time. -/
def awaitAll (s : Site) (patience : Option Nat) : List (Cache.Ticket MachinePair) → Nat × Site
  | [] => (0, s)
  | ticket :: tickets =>
    let (looks, s) := s.await patience ticket
    let (more, s) := s.awaitAll (patience.map (· - looks)) tickets
    (looks + more, s)

/-- The pair of a module root for several who ask for it at the same time. -/
def pairs (s : Site) (patience : Option Nat) (root : Digest) (count : Nat) :
    List (Option (Except Error MachinePair)) × Nat × Site :=
  let (tickets, s) := s.requests root count
  let (looks, s) := s.awaitAll patience tickets
  (tickets.map s.depot.cache.answer?, looks, s)

/-- Closes the depot. Builds that are still in flight fail. -/
def closeDepot (s : Site) : Site :=
  let s : Site := { s with depot := { s.depot with isClosed := true } }
  s.depot.walks.foldl (fun s (n, w) =>
    s.finishBuild n w.deadline.spent
      (.error (.buildFailed w.root (MachinePair.hostIoReason .cancelled)))) s

/-! ## Jobs -/

/-- What a job that ended hands to its submitter. A panic becomes an error and is counted. -/
def settle {α : Type} (s : Site) (r : Result α) : Result α × Site :=
  let s := if Pool.isPanic r then { s with metrics := s.metrics.recordPanic } else s
  match Pool.outcome? r with
  | none => (.error .endless, s)
  | some (.ok a) => (.ok a, s)
  | some (.error e) => (fail e, s)

end Site

end Rerun
