import Rerun.Bytes.Basic

/-!
# Files

A tree of directories and files, as far as its names and contents matter, and the operations on it.
A path is text: it is taken from the root if it starts with a slash and from the current directory
otherwise, and every directory that it passes through has to exist.
-/

namespace Rerun

inductive Entry where
  | directory
  | file (content : Bytes)
  deriving DecidableEq

/-- A tree of files. Every entry stands under the names that lead to it from the root, which itself
is always a directory. -/
structure Files where
  current : List String
  entries : List (List String × Entry)
  deriving DecidableEq

/-- Why a file operation failed. -/
inductive FileFault where
  | notFound
  | notDirectory
  | isDirectory
  | exists
  | nameTooLong
  | zeroInName
  | notText
  deriving DecidableEq

def FileFault.reason : FileFault → String
  | .notFound => "No such file or directory"
  | .notDirectory => "Not a directory"
  | .isDirectory => "Is a directory"
  | .exists => "File exists"
  | .nameTooLong => "File name too long"
  | .zeroInName => "file name contained an unexpected NUL byte"
  | .notText => "stream did not contain valid UTF-8"

def FileFault.number? : FileFault → Option Nat
  | .notFound => some 2
  | .notDirectory => some 20
  | .isDirectory => some 21
  | .exists => some 17
  | .nameTooLong => some 36
  | .zeroInName | .notText => none

/-- The wording of a fault with its number. -/
def FileFault.message (f : FileFault) : String :=
  match f.number? with
  | some n => s!"{f.reason} (os error {n})"
  | none => f.reason

/-! ## Paths -/

namespace Path

def maxLength : Nat := 4096

def maxNameLength : Nat := 255

def slash : UInt8 := 0x2F

def isAbsolute (path : String) : Bool := path.toList.head? == some '/'

/-- A path inside a directory; one that starts at the root stays as it is. -/
def join (directory path : String) : String :=
  if isAbsolute path then path
  else if directory.isEmpty || directory.toList.getLast? == some '/' then directory ++ path
  else directory ++ "/" ++ path

/-- Cuts characters at every slash. -/
def cut : List Char → List (List Char)
  | [] => [[]]
  | c :: cs =>
    if c == '/' then [] :: cut cs
    else match cut cs with
      | [] => [[c]]
      | part :: parts => (c :: part) :: parts

/-- The names in a path, without the empty ones. -/
def parts (path : String) : List String :=
  ((cut path.toList).map String.ofList).filter (· ≠ "")

/-- The names in a path that lead elsewhere. -/
def names (path : String) : List String := (parts path).filter (· ≠ ".")

/-- Whether a path can only mean a directory. -/
def needsDirectory (path : String) : Bool :=
  match (cut path.toList).getLast? with
  | some last => last == [] || last == ['.'] || last == ['.', '.']
  | none => false

end Path

namespace Files

def empty (current : List String) : Files :=
  ⟨current, (List.range current.length).map fun n => (current.take (n + 1), .directory)⟩

def entry? (fs : Files) (names : List String) : Option Entry :=
  if names = [] then some .directory else fs.entries.lookup names

/-- Follows names from a directory. The last of them may lead to nothing. -/
def follow (fs : Files) (at_ : List String) : List String → Except FileFault (List String)
  | [] => .ok at_
  | name :: rest =>
    match fs.entry? at_ with
    | none => .error .notFound
    | some (.file _) => .error .notDirectory
    | some .directory =>
      if Path.maxNameLength < name.utf8ByteSize then .error .nameTooLong
      else if name = ".." then fs.follow at_.dropLast rest
      else fs.follow (at_ ++ [name]) rest

/-- The directory from which a path is taken. -/
def start (fs : Files) (path : String) : Except FileFault (List String) :=
  if path.toList.contains '\x00' then .error .zeroInName
  else if path.isEmpty then .error .notFound
  else if Path.maxLength ≤ path.utf8ByteSize then .error .nameTooLong
  else .ok (if Path.isAbsolute path then [] else fs.current)

/-- Where a path leads. -/
def locate (fs : Files) (path : String) : Except FileFault (List String) := do
  let found ← fs.follow (← fs.start path) (Path.names path)
  match fs.entry? found with
  | some (.file _) => if Path.needsDirectory path then .error .notDirectory else return found
  | _ => return found

def find (fs : Files) (path : String) : Except FileFault Entry := do
  match fs.entry? (← fs.locate path) with
  | some e => return e
  | none => .error .notFound

/-- Why a path that is no text leads nowhere. The names in front of the first that is no text are
followed, and no entry has that one. -/
def strayFault (fs : Files) (path : Bytes) : FileFault :=
  if path.contains 0 then .zeroInName
  else if Path.maxLength ≤ path.length then .nameTooLong
  else
    let names := (path.splitOn Path.slash).filter (· ≠ [])
    let way := (names.map Bytes.text?).takeWhile Option.isSome
    let start := if path.head? = some Path.slash then [] else fs.current
    match fs.follow start ((way.filterMap id).filter (· ≠ ".")) with
    | .error fault => fault
    | .ok found =>
      match fs.entry? found, names[way.length]? with
      | some .directory, some stray =>
        if Path.maxNameLength < stray.length then .nameTooLong else .notFound
      | some (.file _), _ => .notDirectory
      | _, _ => .notFound

def isFile (fs : Files) (path : String) : Bool :=
  match fs.find path with
  | .ok (.file _) => true
  | _ => false

def isDirectory (fs : Files) (path : String) : Bool :=
  match fs.find path with
  | .ok .directory => true
  | _ => false

def read (fs : Files) (path : String) : Except FileFault Bytes := do
  match ← fs.find path with
  | .directory => .error .isDirectory
  | .file content => return content

/-- The content of a file, which has to be text. -/
def readText (fs : Files) (path : String) : Except FileFault String := do
  match Bytes.text? (← fs.read path) with
  | some s => return s
  | none => .error .notText

def names (fs : Files) (path : String) : Except FileFault (List String) := do
  let at_ ← fs.locate path
  match fs.entry? at_ with
  | none => .error .notFound
  | some (.file _) => .error .notDirectory
  | some .directory =>
    return fs.entries.filterMap fun (names, _) =>
      if names ≠ [] && names.dropLast = at_ then names.getLast? else none

def put (fs : Files) (names : List String) (e : Entry) : Files :=
  if (fs.entries.lookup names).isSome then
    { fs with entries := fs.entries.map fun (n, old) => if n = names then (n, e) else (n, old) }
  else { fs with entries := fs.entries ++ [(names, e)] }

/-- Writes a file. The directories on the way to it have to exist, and what follows them has to be a
name that no directory has. A path that can only mean a directory is refused, whatever stands
there. -/
def write (fs : Files) (path : String) (content : Bytes) : Except FileFault Files := do
  let way := (Path.parts path).dropLast.filter (· ≠ ".")
  let directory ← fs.follow (← fs.start path) way
  match fs.entry? directory, (Path.parts path).getLast? with
  | none, _ => .error .notFound
  | some (.file _), _ => .error .notDirectory
  | some .directory, none => .error .isDirectory
  | some .directory, some name =>
    if Path.needsDirectory path then .error .isDirectory
    else if Path.maxNameLength < name.utf8ByteSize then .error .nameTooLong
    else if fs.entry? (directory ++ [name]) = some .directory then .error .isDirectory
    else return fs.put (directory ++ [name]) (.file content)

/-- Makes directories along some names, from a directory. -/
def makeAlong (fs : Files) (at_ : List String) : List String → Except FileFault Files
  | [] => .ok fs
  | ".." :: rest => fs.makeAlong at_.dropLast rest
  | name :: rest =>
    let next := at_ ++ [name]
    if Path.maxNameLength < name.utf8ByteSize then .error .nameTooLong
    else match fs.entry? next with
      | some .directory => fs.makeAlong next rest
      | some (.file _) => if rest.isEmpty then .error .exists else .error .notDirectory
      | none => (fs.put next .directory).makeAlong next rest

/-- Makes a directory and all those on the way to it. -/
def makeDirectories (fs : Files) (path : String) : Except FileFault Files :=
  if path.toList.contains '\x00' then .error .zeroInName
  else if path.isEmpty then .ok fs
  else fs.makeAlong (if Path.isAbsolute path then [] else fs.current) (Path.names path)

/-- Removes what a path leads to, with everything in it. -/
def remove (fs : Files) (path : String) : Files :=
  match fs.locate path with
  | .error _ => fs
  | .ok at_ => { fs with entries := fs.entries.filter fun (names, _) => !at_.isPrefixOf names }

end Files

end Rerun
