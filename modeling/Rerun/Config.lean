import Rerun.Error
import Rerun.Files
import Rerun.Json.Form
import Rerun.Json.Value

/-!
# Configuration

Every field has a default, so a document names only what it changes. A limit of zero milliseconds is
no limit, and zero workers mean one for each core.
-/

namespace Rerun

namespace Config

/-- The names of the files that belong to a machine, and the limit on building it. -/
structure MachineFiles where
  image : String := "machine.wavm.br"
  snapshot : String := "until-host-io-state.bin"
  buildTimeoutMs : UInt64 := 600000
  deriving DecidableEq

structure Interpreter where
  workers : UInt64 := 0
  /-- The steps between two looks at the machine's status. -/
  stepChunk : UInt64 := 1048576
  runTimeoutMs : UInt64 := 0
  deriving DecidableEq

structure Jit where
  workers : UInt64 := 0
  runTimeoutMs : UInt64 := 0
  deriving DecidableEq

end Config

structure Config where
  useJit : Bool := true
  /-- The directory of all machines; if empty, the usual places are searched. -/
  rootPath : String := ""
  machine : Config.MachineFiles := {}
  interpreter : Config.Interpreter := {}
  jit : Config.Jit := {}
  deriving DecidableEq

namespace Config

def limit? (ms : UInt64) : Option Nat := if ms = 0 then none else some ms.toNat

/-- The workers to start on a machine with `cores` cores. -/
def workerCount (configured : UInt64) (cores : Nat) : Nat :=
  if configured = 0 then cores else configured.toNat

/-! ## JSON -/

def MachineFiles.form : Json.Form MachineFiles where
  name := "MachineFileConfig"
  blank := {}
  lenient := true
  fields :=
    [⟨"wavm-binary-path", fun x m => return { m with image := ← Json.readText "a string" x }⟩,
     ⟨"until-host-io-state-path", fun x m =>
       return { m with snapshot := ← Json.readText "a string" x }⟩,
     ⟨"build-timeout-ms", fun x m =>
       return { m with buildTimeoutMs := ← Json.readNatural "u64" x }⟩]

def rootForm : Json.Form String where
  name := "WasmConfig"
  blank := ""
  lenient := true
  fields := [⟨"root-path", fun x _ => Json.readText "path string" x⟩]

def Interpreter.form : Json.Form Interpreter where
  name := "InterpreterSpawnerConfig"
  blank := {}
  lenient := true
  fields :=
    [⟨"workers", fun x c => return { c with workers := ← Json.readNatural "usize" x }⟩,
     ⟨"step-chunk", fun x c => return { c with stepChunk := ← Json.readNatural "u64" x }⟩,
     ⟨"run-timeout-ms", fun x c => return { c with runTimeoutMs := ← Json.readNatural "u64" x }⟩]

def Jit.form : Json.Form Jit where
  name := "JitSpawnerConfig"
  blank := {}
  lenient := true
  fields :=
    [⟨"workers", fun x c => return { c with workers := ← Json.readNatural "usize" x }⟩,
     ⟨"run-timeout-ms", fun x c => return { c with runTimeoutMs := ← Json.readNatural "u64" x }⟩]

/-- How a configuration is read. A section starts from its own defaults. -/
def form : Json.Form Config where
  name := "ValidationConfig"
  blank := {}
  lenient := true
  fields :=
    [⟨"use-jit", fun x c => return { c with useJit := ← Json.readBool x }⟩,
     ⟨"wasm", fun x c => return { c with rootPath := ← rootForm.read x }⟩,
     ⟨"machine", fun x c => return { c with machine := ← MachineFiles.form.read x }⟩,
     ⟨"interpreter", fun x c => return { c with interpreter := ← Interpreter.form.read x }⟩,
     ⟨"jit", fun x c => return { c with jit := ← Jit.form.read x }⟩]

def toJson (c : Config) : Json.Value :=
  .object
    [("use-jit", .bool c.useJit),
     ("wasm", .object [("root-path", .string c.rootPath)]),
     ("machine", .object
       [("wavm-binary-path", .string c.machine.image),
        ("until-host-io-state-path", .string c.machine.snapshot),
        ("build-timeout-ms", .number c.machine.buildTimeoutMs)]),
     ("interpreter", .object
       [("workers", .number c.interpreter.workers),
        ("step-chunk", .number c.interpreter.stepChunk),
        ("run-timeout-ms", .number c.interpreter.runTimeoutMs)]),
     ("jit", .object
       [("workers", .number c.jit.workers), ("run-timeout-ms", .number c.jit.runTimeoutMs)])]

/-! ## Checks -/

/-- Refuses a configuration that no node can work with. -/
def validate (c : Config) : Except Error Unit :=
  if c.machine.image.isEmpty || c.machine.snapshot.isEmpty then
    .error (.invalidConfig "machine file names must not be empty")
  else if c.interpreter.stepChunk = 0 then
    .error (.invalidConfig "interpreter.step-chunk must be > 0")
  else .ok ()

def parse (text : String) : Json.Read Config := Json.decode form.read (Bytes.ofText text)

/-- Loads and checks a configuration. -/
def load (fs : Files) (path : String) : Except Error Config := do
  match fs.readText path with
  | .error fault => .error (.invalidConfig s!"{path}: {fault.message}")
  | .ok text =>
    match parse text with
    | .error complaint => .error (.invalidConfig s!"{path}: {complaint.message}")
    | .ok c => do
      c.validate
      return c

end Config

end Rerun
