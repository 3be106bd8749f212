import Rerun.Error
import Rerun.Files

/-!
# Finding machines

Machines live in one directory each, under a common root. A directory counts if its marker file
spells a module root; the directory `latest` names the newest one instead.
-/

namespace Rerun

/-- The machine directories under a root, as they were when it was searched. -/
structure Locator where
  rootPath : String
  latest : Option Digest
  /-- In ascending order, each once. -/
  roots : List Digest
  deriving DecidableEq

namespace Locator

/-- The file that names the module root of its directory. -/
def markerName : String := "module-root.txt"

/-- The directory that names the newest module root. -/
def latestName : String := "latest"

def readMarker (fs : Files) (path : String) : Except Error Digest :=
  match fs.readText path with
  | .error fault => .error (.io fault.message)
  | .ok text =>
    match Digest.parse (Text.trim text) with
    | .error fault => .error (.ofDigestFault fault)
    | .ok d => .ok d

/-- Puts a digest in its place, once. -/
def insertRoot (d : Digest) : List Digest → List Digest
  | [] => [d]
  | e :: rest =>
    if d = e then e :: rest
    else if d.le e then d :: e :: rest
    else e :: insertRoot d rest

/-- The directories that may hold all machines if none is configured: one in the current directory,
and, if it can be told where the program itself stands, one beside it and one beside its
directory. -/
def defaultRoots (programDirectory : Option String) : List String :=
  "machines" :: match programDirectory with
    | none => []
    | some d => [Path.join d "machines", Path.join (Path.join d "..") "machines"]

/-- The first of these that is there. -/
def defaultRoot (fs : Files) (programDirectory : Option String) : Except Error String :=
  match (defaultRoots programDirectory).find? fs.isDirectory with
  | some path => .ok path
  | none => .error (.invalidConfig
      "no machine root path configured and no default machines directory found")

/-- Searches a root, or the usual places if it is empty. A directory whose marker cannot be read is
passed over; the marker of the newest root has to be readable. -/
def search (fs : Files) (rootPath : String) (programDirectory : Option String := none) :
    Except Error Locator := do
  let rootPath ← if rootPath.isEmpty then defaultRoot fs programDirectory else .ok rootPath
  match fs.isDirectory rootPath, fs.names rootPath with
  | true, .ok names =>
    let roots := names.foldl (fun roots name =>
      let marker := Path.join (Path.join rootPath name) markerName
      if name = latestName || !fs.isFile marker then roots
      else match readMarker fs marker with
        | .ok d => insertRoot d roots
        | .error _ => roots) []
    let marker := Path.join (Path.join rootPath latestName) markerName
    if fs.isFile marker then return ⟨rootPath, some (← readMarker fs marker), roots⟩
    else return ⟨rootPath, none, roots⟩
  | _, _ => .error (.invalidConfig s!"machine root path {rootPath} is not a directory")

/-- The directory of a module root, whether or not it exists. -/
def machinePath (l : Locator) (root : Digest) : String := Path.join l.rootPath root.text

end Locator

end Rerun
