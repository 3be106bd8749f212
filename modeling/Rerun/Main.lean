import Rerun.CommandLine.Basic

/-!
# The program

Takes the words of its command line and the files that they lead to, prints what the command says,
and keeps the files that it leaves behind. A node that serves is interrupted when its input ends. No
engine libraries can be opened here.
-/

namespace Rerun.Shell

/-- The part of a path up to its last slash. -/
def directoryOf (path : String) : String :=
  String.ofList (path.toList.reverse.dropWhile (· ≠ '/')).reverse

/-- The tree with a file, if it can be read. -/
def addFile (fs : Files) (path : String) : IO Files := do
  try
    let content ← IO.FS.readBinFile path
    let fs := (fs.makeDirectories (directoryOf path)).toOption.getD fs
    return (fs.write path content.toList).toOption.getD fs
  catch _ => return fs

/-- The tree with everything below an entry of a directory. -/
partial def addTree (fs : Files) (e : IO.FS.DirEntry) : IO Files := do
  let path := e.path.toString
  if ← e.path.isDir then
    (← e.path.readDir).foldlM addTree ((fs.makeDirectories path).toOption.getD fs)
  else addFile fs path

/-- The tree with a directory, if there is one. -/
def addDirectory (fs : Files) (path : String) : IO Files := do
  let found := (← IO.currentDir) / path
  if ← found.isDir then
    let fs := (fs.makeDirectories found.toString).toOption.getD fs
    (← found.readDir).foldlM addTree fs
  else return fs

/-- What can be told about where the program runs. A pool that is given no number has one worker. -/
def surroundings : IO Surroundings := do
  return { cores := 1, programDirectory := (← IO.appPath).parent.map (·.toString) }

/-- The files that options lead to. -/
def filesOf (o : CommandLine.Options) : IO Files := do
  let fs := Files.empty (Path.names (← IO.currentDir).toString)
  let fs ← (o.config.toList ++ o.validate.toList ++ o.engine.toList).foldlM addFile fs
  let config := match o.config with
    | some path => ((Config.load fs path).toOption.map (·.rootPath)).getD ""
    | none => ""
  let here ← surroundings
  let roots :=
    if config.isEmpty then Locator.defaultRoots here.programDirectory else [config]
  roots.foldlM addDirectory fs

/-- Keeps the files that were not there before. -/
def keep (before after : Files) : IO Unit := do
  for (names, e) in after.entries do
    match e with
    | .file content =>
      if before.entry? names ≠ some e then
        IO.FS.writeBinFile ("/" ++ "/".intercalate names) ⟨content.toArray⟩
    | .directory => pure ()

/-- The clock of the program. A look is taken for a microsecond. -/
def clock : Clock := ⟨1000, 18446744073709551616, 1000⟩

def perform (words : List String) : IO UInt32 := do
  let fs ← match CommandLine.Request.ofWords words with
    | .ok (.run o) => filesOf o
    | _ => pure (Files.empty [])
  match CommandLine.run ⟨fs, [], clock, ← surroundings⟩ words with
  | none => return 1
  | some o =>
    keep fs o.files
    if o.served then
      let _ ← (← IO.getStdin).readToEnd
    IO.print o.out
    IO.eprint o.err
    return UInt32.ofNat o.code

end Rerun.Shell

def main (words : List String) : IO UInt32 := Rerun.Shell.perform words
