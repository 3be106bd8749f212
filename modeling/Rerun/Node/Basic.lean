import Rerun.Runner
import Rerun.Session.Basic

/-!
# Nodes

A node answers for a tree of machines: it carries out runs, natively if it can and by the
interpreter otherwise, and opens sessions. What goes wrong with the native runner is reported, and
the node goes on without it. A node that was stopped stays so.
-/

namespace Rerun

/-- Reports of what went wrong for good, as many as there is room for. -/
structure Reports where
  capacity : Nat
  waiting : List Error := []
  isOpen : Bool := true

namespace Reports

/-- Leaves a report, if there is room and anybody to read it. -/
def leave (r : Reports) (e : Error) : Reports :=
  if r.isOpen && r.waiting.length < r.capacity then { r with waiting := r.waiting ++ [e] } else r

def next (r : Reports) : Option Error × Reports :=
  match r.waiting with
  | [] => (none, r)
  | e :: rest => (some e, { r with waiting := rest })

end Reports

/-- What a program is told about where it runs: the number of cores, and the directory that it
stands in itself, if it can be told. -/
structure Surroundings where
  cores : Nat
  programDirectory : Option String := none

instance : Coe Nat Surroundings := ⟨fun cores => { cores }⟩

structure Node where
  config : Config
  site : Site
  interpreter : Runner
  native : Option Runner
  /-- Whether runs go to the native runner. -/
  isNative : Bool := false
  reports : Reports
  sessions : List Session := []

namespace Node

/-- The place of a node: its engine, its files, its clock and its surroundings. -/
structure Place where
  backend : Backend
  files : Files
  clock : Clock
  surroundings : Surroundings

def Place.cores (place : Place) : Nat := place.surroundings.cores

/-- A node of a configuration that is taken as it is. -/
def assemble (config : Config) (place : Place) (reports : Reports) : Result Node := do
  let locator ← Instance.lift
    (Locator.search place.files config.rootPath place.surroundings.programDirectory)
  let site := Site.ofFiles place.backend place.clock locator config.machine place.files
  let interpreter ← Runner.interpreter config.interpreter place.cores
  if config.useJit then
    let native ← Runner.native config.jit place.cores
    return { config, site, interpreter, native := some native, reports }
  else return { config, site, interpreter, native := none, reports }

/-- A node of a configuration, which has to be valid. -/
def create (config : Config) (place : Place) (reports : Reports) : Result Node := do
  let () ← Instance.lift config.validate
  assemble config place reports

/-! ## Runners -/

/-- A runner by its kind; without a native one the interpreter takes its place. -/
def runner (n : Node) : Runner.Kind → Runner
  | .interpreter => n.interpreter
  | .native => n.native.getD n.interpreter

/-- The kind of the runner that takes new runs. -/
def serving (n : Node) : Runner.Kind :=
  if n.isNative && n.native.isSome then .native else .interpreter

/-- Starts the native runner, and reports if that fails. -/
def startNative (n : Node) : Except Error Unit × Node :=
  match n.native with
  | none => (.ok (), n)
  | some r =>
    match r.start n.site.backend with
    | .ok r => (.ok (), { n with native := some r })
    | .error e => (.error e, { n with reports := n.reports.leave e })

def startInterpreter (n : Node) : Except Error Unit × Node :=
  match n.interpreter.start n.site.backend with
  | .ok r => (.ok (), { n with interpreter := r })
  | .error e => (.error e, n)

/-- Starts a node. Without a native runner the interpreter takes all runs. -/
def start (n : Node) : Except Error Unit × Node :=
  match n.startInterpreter with
  | (.error e, n) => (.error e, n)
  | (.ok (), n) =>
    if n.native.isNone then (.ok (), n)
    else match n.startNative with
      | (.ok (), n) => (.ok (), { n with isNative := true })
      | (.error _, n) => (.ok (), n)

def disableNative (n : Node) : Node := { n with isNative := false }

/-- How many runs could start at once. -/
def room (n : Node) (kind : Runner.Kind) : Nat := (n.runner kind).pool.size

/-! ## Runs -/

def launch (n : Node) (kind : Runner.Kind) (root : Digest) (x : Input) : Run × Node :=
  let (run, site) := (n.runner kind).launch n.site root x
  (run, { n with site })

/-- Carries out a run that was launched. -/
def complete (n : Node) (kind : Runner.Kind) (run : Run) (x : Input) : Run × Node :=
  let (run, site) := (n.runner kind).complete n.site run x
  (run, { n with site })

def run (n : Node) (kind : Runner.Kind) (root : Digest) (x : Input) : Run × Node :=
  let (run, n) := n.launch kind root x
  n.complete kind run x

/-- Launches a run, carries it out, and closes it when the patience of its caller ends, which is
given in milliseconds. Tells whether there was an outcome by then. -/
def runWithin (n : Node) (kind : Runner.Kind) (root : Digest) (x : Input) (ms : Nat) :
    Bool × Run × Node :=
  let (run, n) := n.launch kind root x
  let (resolved, run, site) :=
    (n.runner kind).completeWithin n.site run x (ms * n.site.clock.pace)
  (resolved, run, { n with site })

/-- Launches runs of one module root and carries them out side by side. -/
def runAll (n : Node) (kind : Runner.Kind) (root : Digest) (xs : List Input) : List Run × Node :=
  let (runs, site) := (n.runner kind).runAll n.site root xs
  (runs, { n with site })

def machines (n : Node) (root : Digest) : Option (Except Error MachinePair) × Node :=
  let (pair, _, site) := n.site.pair none root
  (pair, { n with site })

/-! ## Sessions -/

/-- The site of a node after a job on it ended. -/
def settle {α : Type} (n : Node) (host : Host) (r : Result α) : Result α × Node :=
  let (r, site) := { n.site with host }.settle r
  (r, { n with site })

/-- Opens a session, whose number is given. -/
def openSession (n : Node) (root : Digest) (x : Input) : Result Nat × Node :=
  if n.interpreter.isStopped then (fail .cancelled, n)
  else
    match n.machines root with
    | (none, n) => (.error .endless, n)
    | (some (.error e), n) => (fail e, n)
    | (some (.ok pair), n) =>
      match n.interpreter.pool.refusal n.interpreter.isStopped with
      | some e => (fail e, n)
      | none =>
        let (prepared, host) := Session.prepare n.site.host pair.zeroStep x
        match n.settle host prepared with
        | (.error f, n) => (.error f, n)
        | (.ok h, n) =>
          let (session, host) :=
            Session.ofPrepared n.site.host root h n.config.interpreter.stepChunk
          let n := { n with site := { n.site with host } }
          match session with
          | .error f => (.error f, n)
          | .ok s => (.ok n.sessions.length, { n with sessions := n.sessions ++ [s] })

/-- Whether a session takes no more questions, by itself or because the node was stopped. -/
def isOver (n : Node) (s : Session) : Bool := s.isCancelled || n.interpreter.isStopped

def ask (n : Node) (i : Nat) (s : Session) (question : Session.Ask) :
    Result Session.Reply × Node :=
  match n.interpreter.pool.refusal (n.isOver s) with
  | some e => (fail e, n)
  | none =>
    let a := s.job n.site.host n.site.clock.horizon .never question
    { n with sessions := n.sessions.set i a.session }.settle a.host a.result

def closeSession (n : Node) (i : Nat) (s : Session) : Node :=
  let (s, host) := s.close n.site.host
  { n with sessions := n.sessions.set i s, site := { n.site with host } }

/-! ## The end -/

def stopRunner (n : Node) : Runner.Kind → Node
  | .interpreter => { n with interpreter := n.interpreter.stop }
  | .native => { n with native := n.native.map Runner.stop }

def closeDepot (n : Node) : Node := { n with site := n.site.closeDepot }

def stop (n : Node) : Node :=
  ((n.stopRunner .native).stopRunner .interpreter).closeDepot

end Node

end Rerun
