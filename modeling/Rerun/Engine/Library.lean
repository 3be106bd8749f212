import Rerun.Engine.Header
import Rerun.Error

/-!
# Engine libraries

A foreign engine comes as a library with a fixed set of entry points. A library that lacks one of
them is refused when it is opened, not when the entry point is first needed; only the one that
reports native runs may be missing.
-/

namespace Rerun

/-- A library as far as opening it shows. -/
structure Library where
  lacks : List String
  /-- What its report on native runs answers, if it has one. -/
  jitReport : Option UInt8
  deriving DecidableEq

/-- The libraries that there are, by the names that lead to them from the root. -/
abbrev Shelf := List (List String × Library)

namespace Library

/-- The entry points that a library has to have, in the order in which they are looked up. -/
def required : List String :=
  ["engine_load_machine", "engine_clone_machine", "engine_free_machine", "engine_step",
   "engine_step_until_host_io", "engine_free_string", "engine_hash", "engine_module_root",
   "engine_global_state", "engine_set_global_state", "engine_get_num_steps", "engine_get_status",
   "engine_gen_proof", "engine_free_proof", "engine_serialize_state",
   "engine_deserialize_and_replace_state", "engine_add_inbox_message",
   "engine_set_preimage_resolver", "engine_set_context"]

def supportsJit (l : Library) : Bool := l.jitReport.any (· ≠ 0)

/-- Why the library at a path cannot be opened. Its place is where it was found. -/
inductive Fault where
  | unreachable (path : String) (fault : FileFault)
  | directory (path place : String)
  | flawed (path place : String) (flaw : Flaw)
  | lacks (place entry : String)
  deriving DecidableEq

def Fault.message : Fault → String
  | .unreachable path _ | .directory path _ | .flawed path _ _ =>
    s!"Failed to load engine library from {Text.quoted path}"
  | .lacks _ entry => s!"Engine library missing '{entry}' export"

def Fault.cause : Fault → String
  | .unreachable path fault => s!"{path}: cannot open shared object file: {fault.reason}"
  | .directory _ place => s!"{place}: cannot read file data: {FileFault.isDirectory.reason}"
  | .flawed _ place flaw => s!"{place}: {flaw.reason}"
  | .lacks place entry => s!"{place}: undefined symbol: {entry}"

/-- The first entry point that a library lacks. -/
def missing? (l : Library) : Option String := required.find? l.lacks.contains

def foreign : Library := ⟨required, none⟩

def systemDirectory : String := "/lib/x86_64-linux-gnu"

/-- Where a library is looked for: at its path, or, if that is a mere name, among the libraries of
the system. -/
def placeOf (path : String) : String :=
  if path.toList.contains '/' then path else Path.join systemDirectory path

def programName : String := "valnode"

/-- Opens the library at a path. One that cannot be found is told of by its path, and one that is
found by its place. The empty path leads to the program itself, which is no engine. -/
def openAt (shelf : Shelf) (fs : Files) (path : String) : Except Fault Library :=
  let place := placeOf path
  if path.isEmpty then .error (.lacks programName (required.headD programName)) else
  match fs.locate place with
  | .error fault => .error (.unreachable path fault)
  | .ok found =>
    match fs.entry? found with
    | none => .error (.unreachable path .notFound)
    | some .directory => .error (.directory path place)
    | some (.file content) =>
      match shelf.lookup found, flaw? content with
      | none, some flaw => .error (.flawed path place flaw)
      | l, _ =>
        let l := l.getD foreign
        match l.missing? with
        | some entry => .error (.lacks place entry)
        | none => .ok l

end Library

end Rerun
