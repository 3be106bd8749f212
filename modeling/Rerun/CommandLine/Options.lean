import Rerun.Error

/-!
# The grammar of the command line

Words are read from left to right. An option that takes a value takes the next word, whatever it
looks like. Help and version end the reading at once; of an option that is given twice the last
counts.
-/

namespace Rerun.CommandLine

/-- The options that take a value. -/
inductive Key where
  | config
  | engine
  | validate
  | root
  deriving DecidableEq

/-- What a word says where an option may stand. -/
inductive Word where
  | help
  | version
  | list
  | key (k : Key)
  | unknown
  deriving DecidableEq

namespace Word

/-- Every word that is an option. -/
def table : List (String × Word) :=
  [("-h", .help), ("--help", .help), ("-v", .version), ("--version", .version), ("-l", .list),
   ("--list", .list), ("-c", .key .config), ("--config", .key .config), ("-e", .key .engine),
   ("--engine", .key .engine), ("--validate", .key .validate), ("--module-root", .key .root)]

def ofText (s : String) : Word := (table.lookup s).getD .unknown

end Word

/-- What was asked for. -/
structure Options where
  config : Option String := none
  engine : Option String := none
  list : Bool := false
  validate : Option String := none
  root : Option Digest := none
  deriving DecidableEq

/-- Why a command line cannot be read. -/
inductive Fault where
  | missingValue (option : String)
  | badRoot (text : String) (fault : Digest.Fault)
  | unknown (word : String)
  | rootAlone
  deriving DecidableEq

def Fault.message : Fault → String
  | .missingValue option => s!"'{option}' requires a value"
  | .badRoot text fault =>
    s!"invalid module root '{text}': {(Error.ofDigestFault fault).message}"
  | .unknown word => s!"unrecognized argument '{word}'"
  | .rootAlone => "'--module-root' only applies to '--validate'"

inductive Request where
  | run (o : Options)
  | help
  | version
  deriving DecidableEq

namespace Options

def set (o : Options) (k : Key) (value : String) : Except Fault Options :=
  match k with
  | .config => .ok { o with config := some value }
  | .engine => .ok { o with engine := some value }
  | .validate => .ok { o with validate := some value }
  | .root =>
    match Digest.parse value with
    | .ok d => .ok { o with root := some d }
    | .error fault => .error (.badRoot value fault)

/-- Whether the options go together. -/
def check (o : Options) : Except Fault Request :=
  if o.root.isSome && o.validate.isNone then .error .rootAlone else .ok (.run o)

/-- Reads words on top of what was asked for so far. -/
def read (o : Options) : List String → Except Fault Request
  | [] => o.check
  | word :: rest =>
    match Word.ofText word with
    | .help => .ok .help
    | .version => .ok .version
    | .list => read { o with list := true } rest
    | .unknown => .error (.unknown word)
    | .key k =>
      match rest with
      | [] => .error (.missingValue word)
      | value :: rest =>
        match o.set k value with
        | .ok o => read o rest
        | .error fault => .error fault

end Options

def Request.ofWords (words : List String) : Except Fault Request := ({} : Options).read words

end Rerun.CommandLine
