import Rerun.Config
import Rerun.Handle.Basic

/-!
# The machines of a module root

For every module root a set of two machines is kept: one before its first step, and one where it
asks the host for something for the first time. Both are frozen and only ever copied. The way to the
second one is kept in a file beside the image, so that it is walked only once. Nothing but that way
takes time: whoever waits for a pair may pause on it, and the build goes on from there.
-/

namespace Rerun

/-- The two machines of a module root. -/
structure MachinePair where
  zeroStep : Handle
  hostIo : Handle

namespace MachinePair

/-- A build on its way: the machine that walks to host input, and its clock. -/
structure Walk where
  root : Digest
  /-- Where the end of the way is kept. -/
  snapshot : String
  zeroStep : Handle
  hostIo : Handle
  deadline : Deadline

inductive Stage where
  | ended (result : Result MachinePair)
  | walking (w : Walk)

/-- A failure as that of a build, whose reason is told in another way. -/
def failedWith (root : Digest) (reason : Error → String) : Failure → Failure
  | .error e => .error (.buildFailed root (reason e))
  | f => f

/-- A failure as that of a build. -/
def failed (root : Digest) : Failure → Failure := failedWith root Error.message

/-- Why the way to host input was not walked to its end. -/
def hostIoReason : Error → String
  | .cancelled => "machine did not reach host io within the build limit"
  | e => e.message

/-- Both machines of an image before their first step. -/
def load (backend : Backend) (host : Host) (image : String) (root : Digest) :
    Result (Handle × Handle × Host) := do
  let refuse {α : Type} (reason : String) : Result α := fail (.buildFailed root reason)
  if !host.files.isFile image then refuse s!"machine image {image} not found"
  else
    match backend.load host.files (Bytes.ofText image) with
    | .error f => .error (failedWith root (fun e => s!"{backend.name} backend: {e.message}") f)
    | .ok i =>
      if i.root ≠ root then refuse s!"image {image} has module root {i.root}"
      else
        let zeroStep := Handle.ofInstance i
        match zeroStep.copy host with
        | .error f => .error (failed root f)
        | .ok (hostIo, host) => return (zeroStep, hostIo, host)

def freezeBoth (root : Digest) (zeroStep hostIo : Handle) : Result MachinePair :=
  match zeroStep.freeze, hostIo.freeze with
  | .ok zeroStep, .ok hostIo => .ok { zeroStep, hostIo }
  | .error e, _ => fail (.buildFailed root e.message)
  | _, .error e => fail (.buildFailed root e.message)

/-- Begins to build the pair of a module root from its directory: loads its image, and takes over
the snapshot if there is one. Nothing is built after closing time. -/
def start (backend : Backend) (files : Config.MachineFiles) (directory : String) (root : Digest)
    (d : Deadline) (host : Host) : Stage × Host :=
  if d.isExpired then (.ended (fail (.buildFailed root "loader is closed")), host)
  else
    match load backend host (Path.join directory files.image) root with
    | .error f => (.ended (.error f), host)
    | .ok (zeroStep, hostIo, host) =>
      let snapshot := Path.join directory files.snapshot
      if host.files.isFile snapshot then
        match hostIo.restore host snapshot with
        | .error f => (.ended (.error (failed root f)), host)
        | .ok hostIo => (.ended (freezeBoth root zeroStep hostIo), host)
      else (.walking ⟨root, snapshot, zeroStep, hostIo, d⟩, host)

/-- The end of the way: it is kept in a file, and done without if it cannot be written. -/
def Walk.arrive (host : Host) (w : Walk) (hostIo : Handle) : Stage × Host :=
  let pair := freezeBoth w.root w.zeroStep hostIo
  match hostIo.save host w.snapshot with
  | .ok host => (.ended pair, host)
  | .error _ => (.ended pair, host)

/-- Walks on until host input, the limit on the build, or a pause after some looks at the clock.
Gives the looks that it took. -/
def Walk.goOn (horizon : Nat) (pause : Option Nat) (host : Host) (w : Walk) : Stage × Nat × Host :=
  let d := w.deadline.within pause
  let (r, host) := w.hostIo.stepUntilHostIo host horizon d
  let looks := r.deadline.spent - d.spent
  let waiting (looks : Nat) : Stage × Nat × Host :=
    let d := { w.deadline with spent := d.spent + looks }
    (.walking { w with hostIo := r.machine, deadline := d }, looks, host)
  match r.result with
  | .ok () =>
    let (stage, host) := w.arrive host r.machine
    (stage, looks, host)
  | .error .endless => waiting looks
  | .error (.error .cancelled) =>
    if d.limit = w.deadline.limit then
      (.ended (.error (failedWith w.root hostIoReason (.error .cancelled))), looks, host)
    else waiting (pause.getD looks)
  | .error f => (.ended (.error (failedWith w.root hostIoReason f)), looks, host)

end MachinePair

end Rerun
