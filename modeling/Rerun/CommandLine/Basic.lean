import Rerun.CommandLine.Options
import Rerun.Node.Basic

/-!
# The command

The command lists module roots, validates one input, or serves until it is interrupted. Whatever it
does, it says it as text, and ends with a code.
-/

namespace Rerun.CommandLine

def commandName : String := Library.programName

def version : String := "0.1.0"

def helpText : String := "\n".intercalate
  [s!"{commandName} - rollup state-transition validator v{version}",
   "",
   "USAGE:",
   s!"  {commandName} [OPTIONS]",
   "",
   "OPTIONS:",
   "  -c, --config <FILE>        JSON configuration file",
   "  -e, --engine <LIB>         Engine shared library (default: built-in reference engine)",
   "  -l, --list                 List module roots under the machine root path",
   "      --validate <INPUT>     Validate one JSON input file and print the final state",
   "      --module-root <HEX>    Module root for --validate (default: latest)",
   "  -h, --help                 Print this help message",
   "  -v, --version              Print version information",
   "",
   "ENVIRONMENT:",
   "  RUST_LOG                   Log filter (default: info)",
   ""]

/-- What the command finds around it. -/
structure Place where
  files : Files
  shelf : Shelf
  clock : Clock
  surroundings : Surroundings

/-! ## What can go wrong -/

/-- Why the command fails after its options were read. -/
inductive Problem where
  | badConfig (path : String) (e : Error)
  | badEngine (fault : Library.Fault)
  | noNode (e : Error)
  | notStarted (e : Error)
  | badInput (path : String) (e : Error)
  | noRoot
  | failed (e : Error)

namespace Problem

/-- What went wrong, as it is told first. -/
def message : Problem → String
  | .badConfig path _ => s!"Failed to load configuration from {Text.quoted path}"
  | .badEngine fault => fault.message
  | .noNode _ => "Failed to create validation node"
  | .notStarted _ => "Failed to start validation node"
  | .badInput path _ => s!"Failed to read validation input {Text.quoted path}"
  | .noRoot => "no --module-root given and no latest module root found"
  | .failed _ => "Validation failed"

/-- Why it went wrong. -/
def cause? : Problem → Option String
  | .badEngine fault => some fault.cause
  | .noRoot => none
  | .badConfig _ e | .noNode e | .notStarted e | .badInput _ e | .failed e => some e.message

def indented (s : String) : String := "\n    ".intercalate (s.splitOn "\n")

/-- What is told of a problem. -/
def text (p : Problem) : String :=
  match p.cause? with
  | none => s!"Error: {p.message}\n"
  | some cause => s!"Error: {p.message}\n\nCaused by:\n    {indented cause}\n"

end Problem

def Fault.text (fault : Fault) : String :=
  s!"error: {fault.message}\nRun '{commandName} --help' for usage information.\n"

/-- How the work of the command stops before its end. -/
inductive Stop where
  | problem (p : Problem)
  | panic (payload : Payload)
  | endless

def Stop.of (problem : Error → Problem) : Failure → Stop
  | .error e => .problem (problem e)
  | .panic payload => .panic payload
  | .endless => .endless

def panicText (payload : Payload) : String :=
  s!"thread 'main' panicked:\n{Pool.panicText payload}\n"

/-! ## The work -/

def config (place : Place) (o : Options) : Except Stop Config :=
  match o.config with
  | none => .ok {}
  | some path =>
    match Config.load place.files path with
    | .ok c => .ok c
    | .error e => .error (.problem (.badConfig path e))

def engine (place : Place) (o : Options) : Except Stop Engine :=
  match o.engine with
  | none => .ok (.builtin true)
  | some path =>
    match Library.openAt place.shelf place.files path with
    | .ok l => .ok (.library l)
    | .error fault => .error (.problem (.badEngine fault))

/-- A configuration without native runs if the engine has none. -/
def adapt (c : Config) (b : Backend) : Config := { c with useJit := c.useJit && b.supportsJit }

def reportCapacity : Nat := 8

def node (place : Place) (o : Options) : Except Stop Node := do
  let c ← config place o
  let b : Backend := { engine := ← engine place o }
  match Node.create (adapt c b) ⟨b, place.files, place.clock, place.surroundings⟩
      { capacity := reportCapacity } with
  | .error f => .error (Stop.of .noNode f)
  | .ok n =>
    match n.start with
    | (.ok (), n) => .ok n
    | (.error e, _) => .error (.problem (.notStarted e))

/-- The module roots, one a line, of which the newest is marked. -/
def listing (n : Node) : String :=
  let l := n.site.depot.locator
  String.join (l.roots.map fun root =>
    root.text ++ (if l.latest = some root then " (latest)" else "") ++ "\n")

def stateText (g : GlobalState) : String := Bytes.lossy g.toJson.pretty ++ "\n"

/-- Validates the input in a file: the report, the outcome of the run, and the files behind it. -/
def validate (n : Node) (path : String) (root : Option Digest) :
    Except Stop (String × Except Error GlobalState × Files) :=
  match Input.load n.site.host.files path with
  | .error e => .error (.problem (.badInput path e))
  | .ok x =>
    match root.or n.site.depot.locator.latest with
    | none => .error (.problem .noRoot)
    | some root =>
      let (run, n) := n.run n.serving root x
      match run.outcome? with
      | none => .error .endless
      | some outcome => .ok (n.site.metrics.report, outcome, n.stop.site.host.files)

/-- Serves until it is interrupted. What went wrong for good is taken to mean that native runs are
to be done without. -/
def serve (n : Node) : String :=
  let n := if n.reports.waiting.isEmpty then n else n.disableNative
  n.stop.site.metrics.report

/-- What the work comes to. -/
structure Done where
  out : String
  problem : Option Problem := none
  /-- Whether it served until it was interrupted. -/
  served : Bool := false
  files : Files

def work (place : Place) (o : Options) : Except Stop Done := do
  let n ← node place o
  if o.list then return { out := listing n, files := place.files }
  else
    match o.validate with
    | none => return { out := serve n, served := true, files := place.files }
    | some path =>
      let (report, outcome, files) ← validate n path o.root
      match outcome with
      | .ok g => return { out := report ++ stateText g, files }
      | .error e => return { out := report, problem := some (.failed e), files }

/-- What the command says and leaves behind. -/
structure Outcome where
  code : Nat
  out : String
  err : String
  served : Bool
  files : Files

def failureCode : Nat := 1

def panicCode : Nat := 101

/-- What the command comes to; nothing if it does not end. -/
def run (place : Place) (words : List String) : Option Outcome :=
  let failed (code : Nat) (err : String) : Outcome := ⟨code, "", err, false, place.files⟩
  let said (out : String) : Outcome := ⟨0, out, "", false, place.files⟩
  match Request.ofWords words with
  | .error fault => some (failed failureCode fault.text)
  | .ok .help => some (said helpText)
  | .ok .version => some (said s!"{commandName} {version}\n")
  | .ok (.run o) =>
    match work place o with
    | .ok d =>
      match d.problem with
      | none => some ⟨0, d.out, "", d.served, d.files⟩
      | some p => some ⟨failureCode, d.out, p.text, d.served, d.files⟩
    | .error (.problem p) => some (failed failureCode p.text)
    | .error (.panic payload) => some (failed panicCode (panicText payload))
    | .error .endless => none

end Rerun.CommandLine
