import Rerun.Machine.Basic

/-!
# Snapshots

The progress of a machine as a file. It can be put into any machine of the same program, which keeps
everything else.
-/

namespace Rerun

namespace Progress

def form : Json.Form Progress where
  name := "MachineState"
  blank := default
  lenient := false
  fields :=
    [⟨"pc", fun x p => return { p with pc := ← Json.readNatural "usize" x }⟩,
     ⟨"steps", fun x p => return { p with steps := ← Json.readNatural "u64" x }⟩,
     ⟨"status", fun x p => return { p with status := ← Status.ofJson x }⟩,
     ⟨"acc", fun x p => return { p with acc := ← Digest.ofJson x }⟩,
     ⟨"global", fun x p => return { p with global := ← GlobalState.ofJson x }⟩]

def toJson (p : Progress) : Json.Value :=
  .object [("pc", .number p.pc), ("steps", .number p.steps), ("status", p.status.toJson),
    ("acc", p.acc.toJson), ("global", p.global.toJson)]

end Progress

/-- The progress of a machine, and the program it belongs to. -/
structure Snapshot where
  root : Digest
  progress : Progress
  deriving DecidableEq, Inhabited

namespace Snapshot

def form : Json.Form Snapshot where
  name := "Snapshot"
  blank := default
  lenient := false
  fields :=
    [⟨"module_root", fun x s => return { s with root := ← Digest.ofJson x }⟩,
     ⟨"state", fun x s => return { s with progress := ← Progress.form.read x }⟩]

def toJson (s : Snapshot) : Json.Value :=
  .object [("module_root", s.root.toJson), ("state", s.progress.toJson)]

def write (s : Snapshot) : Bytes := s.toJson.compact

def parse (bs : Bytes) : Json.Read Snapshot := Json.decode form.read bs

end Snapshot

namespace Machine

def snapshot (m : Machine) : Snapshot := ⟨m.program.root, m.progress⟩

/-- Writes the snapshot of a machine to a file. -/
def save (m : Machine) (fs : Files) (path : String) : Except Error Files :=
  match fs.write path m.snapshot.write with
  | .ok fs => .ok fs
  | .error fault =>
    .error (.engineFault s!"failed to serialize machine state to {path}: {fault.message}")

/-- Takes over the progress in a snapshot of the same program. -/
def restore (m : Machine) (fs : Files) (path : String) : Except Error Machine :=
  let refuse (reason : String) : Except Error Machine :=
    .error (.engineFault s!"failed to deserialize machine state from {path}: {reason}")
  match fs.read path with
  | .error fault => refuse fault.message
  | .ok bs =>
    match Snapshot.parse bs with
    | .error complaint => refuse complaint.message
    | .ok s =>
      if s.root = m.program.root then .ok { m with progress := s.progress }
      else refuse s!"snapshot is for module root {s.root}"

end Machine

end Rerun
