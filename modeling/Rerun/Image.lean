import Rerun.Config
import Rerun.Locator
import Rerun.Program

/-!
# Images

A program as a file. An image is installed in the directory that its module root names, beside a
marker that spells the root.
-/

namespace Rerun.Program

/-- Installs the image of a program under a root directory. -/
def install (p : Program) (fs : Files) (rootPath : String) (files : Config.MachineFiles) :
    Except FileFault Files := do
  let directory := Path.join rootPath p.root.text
  let fs ← fs.makeDirectories directory
  let fs ← fs.write (Path.join directory Locator.markerName) (Bytes.ofText (p.root.text ++ "\n"))
  fs.write (Path.join directory files.image) p.toJson.pretty

def parse (image : Bytes) : Json.Read Program := Json.decode ofJson image

/-- Loads the image at a path, which need not be text. -/
def load (fs : Files) (path : Bytes) : Except Error Program := do
  let shown := Bytes.lossy path
  let found : Except FileFault Bytes :=
    match Bytes.text? path with
    | some path => fs.read path
    | none => .error (fs.strayFault path)
  match found with
  | .error fault => .error (.engineFault s!"{shown}: {fault.message}")
  | .ok image =>
    match parse image with
    | .error complaint => .error (.engineFault s!"malformed image {shown}: {complaint.message}")
    | .ok p => return p

end Rerun.Program
