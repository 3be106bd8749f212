import Rerun.Engine.Library
import Rerun.Engine.Scripted
import Rerun.Image
import Rerun.Machine.Snapshot

/-!
# Engines

An engine turns an image into machines and runs them. There is the builtin engine, which runs
programs, and there are foreign ones in libraries. Either can be made to fail on purpose.
-/

namespace Rerun

/-- What all machines share: the files, the resolvers, and the slot for failed callbacks. -/
structure Host where
  files : Files
  registry : Registry
  slot : Slot

/-- What an engine is made to do wrong. -/
structure Faults where
  loadError : Option String := none
  loadPanic : Option String := none
  cloneError : Option String := none
  stepError : Option String := none
  ioError : Option String := none
  serializeError : Option String := none
  inboxError : Option String := none
  root : Option Digest := none
  isLazy : Bool := false
  /-- A message with this data makes the engine panic. -/
  poison : Option Bytes := none

/-- A machine of either kind of engine. -/
inductive EngineMachine where
  | builtin (m : Machine)
  | scripted (m : ScriptedMachine)

/-- A live machine, and what it does wrong. -/
structure Instance where
  machine : EngineMachine
  faults : Faults := {}

namespace Instance

/-- Fails with an engine fault if there is a text for it. -/
def failIf (text : Option String) : Result Unit :=
  match text with
  | some text => fail (.engineFault text)
  | none => .ok ()

/-- A path that a foreign engine can be given. -/
def foreignPath (path : Bytes) : Except Error String :=
  match Bytes.text? path with
  | none => .error (.invalidInput s!"non UTF-8 path {Bytes.lossy path}")
  | some text =>
    match path.findIdx? (· = 0) with
    | some position => .error (.invalidInput
        s!"invalid path {text}: nul byte found in provided data at position: {position}")
    | none => .ok text

/-- An error as the end of a call. -/
def lift {α : Type} : Except Error α → Result α
  | .ok a => .ok a
  | .error e => fail e

/-! ## Reading -/

def root (i : Instance) : Digest :=
  i.faults.root.getD <|
    match i.machine with
    | .builtin m => m.program.root
    | .scripted m => m.script.root

def hash (i : Instance) : Digest :=
  match i.machine with
  | .builtin m => m.hash
  | .scripted m => m.script.hash

def global (i : Instance) : GlobalState :=
  match i.machine with
  | .builtin m => m.progress.global
  | .scripted m => m.global

def steps (i : Instance) : UInt64 :=
  match i.machine with
  | .builtin m => m.progress.steps
  | .scripted m => m.steps

def status (i : Instance) : Status :=
  match i.machine with
  | .builtin m => m.progress.status
  | .scripted m => m.readStatus

def proof (i : Instance) : Bytes :=
  match i.machine with
  | .builtin m => m.proof
  | .scripted m => m.proof

def copy (i : Instance) : Result Instance := do
  failIf i.faults.cloneError
  match i.machine with
  | .builtin _ => return i
  | .scripted m =>
    if m.script.cloneFails then fail (.engineFault "engine failed to clone machine") else return i

/-! ## Changing -/

def setGlobal (i : Instance) (g : GlobalState) : Instance :=
  match i.machine with
  | .builtin m => { i with machine := .builtin (m.setGlobal g) }
  | .scripted m => { i with machine := .scripted { m with global := g } }

def setContext (i : Instance) (token : Nat) : Instance :=
  match i.machine with
  | .builtin m => { i with machine := .builtin { m with context := token } }
  | .scripted m => { i with machine := .scripted { m with context := token } }

def addMessage (i : Instance) (inbox : Inbox) (msg : Message) : Result Instance := do
  failIf i.faults.inboxError
  if i.faults.poison = some msg.data then
    .error (.panic (.text s!"engine crashed on inbox message {msg.index}"))
  match i.machine with
  | .builtin m => return { i with machine := .builtin (m.addMessage inbox msg) }
  | .scripted m => return { i with machine := .scripted (← lift (m.addMessage inbox msg)) }

/-- A call that ended at once. -/
def atOnce (i : Instance) (d : Deadline) (result : Result Unit) : Ran Instance := ⟨result, d, i⟩

def step (host : Host) (count : Nat) (d : Deadline) (i : Instance) : Ran Instance × Host :=
  match failIf i.faults.stepError with
  | .error f => (i.atOnce d (.error f), host)
  | .ok () =>
    if i.faults.isLazy then (i.atOnce d (.ok ()), host)
    else match i.machine with
    | .builtin m =>
      let r := m.step host.registry.resolve count d
      (⟨r.result, r.deadline, { i with machine := .builtin r.machine }⟩, host)
    | .scripted m =>
      let (r, slot) := m.step host.registry.resolve host.slot count d
      (⟨r.result, r.deadline, { i with machine := .scripted r.machine }⟩, { host with slot })

def stepUntilHostIo (host : Host) (horizon : Nat) (d : Deadline) (i : Instance) :
    Ran Instance × Host :=
  match failIf i.faults.ioError with
  | .error f => (i.atOnce d (.error f), host)
  | .ok () =>
    match i.machine with
    | .builtin m =>
      let r := m.stepUntilHostIo host.registry.resolve (d.remaining horizon + 1) d
      (⟨r.result, r.deadline, { i with machine := .builtin r.machine }⟩, host)
    | .scripted m =>
      let (r, slot) := m.stepUntilHostIo host.registry.resolve host.slot d
      (⟨r.result, r.deadline, { i with machine := .scripted r.machine }⟩, { host with slot })

/-- Runs `chunk` steps at a time until the machine halts or the clock runs out. After `fuel` chunks
it is taken for endless. -/
def stepInChunks (chunk : Nat) : Nat → Host → Deadline → Instance → Ran Instance × Host
  | 0, host, d, i => (⟨.error .endless, d, i⟩, host)
  | fuel + 1, host, d, i =>
    if i.status ≠ .running then (i.atOnce d (.ok ()), host)
    else if d.isExpired then (i.atOnce d.tick (.ok ()), host)
    else
      let (r, host) := i.step host chunk d.tick
      match r.result with
      | .error _ => (r, host)
      | .ok () => stepInChunks chunk fuel host r.deadline r.machine

/-! ## Files -/

def save (host : Host) (path : String) (i : Instance) : Result Host := do
  failIf i.faults.serializeError
  match i.machine with
  | .builtin m => return { host with files := ← lift (m.save host.files path) }
  | .scripted m =>
    let path ← lift (foreignPath (Bytes.ofText path))
    if m.script.serializeCode = 0 then return host
    else fail (.engineFault
      s!"engine failed to serialize state to {path} (code {m.script.serializeCode})")

def restore (host : Host) (path : String) (i : Instance) : Result Instance :=
  match i.machine with
  | .builtin m => do return { i with machine := .builtin (← lift (m.restore host.files path)) }
  | .scripted m => do
    let path ← lift (foreignPath (Bytes.ofText path))
    if m.script.deserializeCode = 0 then
      return { i with machine := .scripted { m with steps := 7 } }
    else fail (.engineFault
      s!"engine failed to restore state from {path} (code {m.script.deserializeCode})")

end Instance

/-! ## Backends -/

inductive Engine where
  | builtin (jit : Bool)
  | library (l : Library)

/-- An engine, and what it is made to do otherwise. -/
structure Backend where
  engine : Engine
  otherName : Option String := none
  /-- Another answer to whether it runs machines natively. -/
  jit : Option Bool := none
  /-- What is found when the engine is tried out. -/
  probeError : Option Error := none
  faults : Faults := {}

namespace Backend

def name (b : Backend) : String :=
  b.otherName.getD <|
    match b.engine with
    | .builtin _ => "reference"
    | .library _ => "dynamic"

def supportsJit (b : Backend) : Bool :=
  b.jit.getD <|
    match b.engine with
    | .builtin jit => jit
    | .library l => l.supportsJit

def probe (b : Backend) : Except Error Unit :=
  match b.probeError with
  | some e => .error e
  | none => .ok ()

/-- A foreign engine did not load the image at a path. -/
def refused (path : String) : Error := .engineFault s!"engine failed to load {path}"

/-- Loads the machine of an image before its first step. -/
def load (b : Backend) (fs : Files) (path : Bytes) : Result Instance := do
  Instance.failIf b.faults.loadError
  match b.faults.loadPanic with
  | some text => .error (.panic (.text text))
  | none => pure ()
  match b.engine with
  | .builtin _ =>
    let p ← Instance.lift (Program.load fs path)
    return ⟨.builtin (.ofProgram p), b.faults⟩
  | .library _ =>
    let text ← Instance.lift (Instance.foreignPath path)
    match (fs.find text).toOption.map Script.ofEntry with
    | none => fail (refused text)
    | some script =>
      if script.loadFails then fail (refused text)
      else return ⟨.scripted (.ofScript script), b.faults⟩

end Backend

end Rerun
