import Rerun.Deadline
import Rerun.Program
import Rerun.Resolver

/-!
# Machines

A machine runs a program one instruction at a time. It folds what it executes into an accumulator,
takes messages from its inboxes into the global state, and asks its resolver for content.

`Machine.next` is a single step. Everything that runs a machine repeats it.

Words wrap around, as they do in a release build: the step counter, and the batch and the position
in it, which messages count up. A build that checks its arithmetic panics there instead.
-/

namespace Rerun

/-- The part of a machine that steps change. -/
structure Progress where
  pc : UInt64
  steps : UInt64
  status : Status
  acc : Digest
  global : GlobalState
  deriving DecidableEq, Inhabited

/-- A machine: its program, how far it is, and what it was given. -/
structure Machine where
  program : Program
  progress : Progress
  /-- The messages by inbox and index; of two with one place the first counts. -/
  inbox : List ((Inbox × UInt64) × Bytes)
  /-- The token under which it asks for content. -/
  context : Nat
  deriving DecidableEq

namespace Machine

/-- The machine of a program before its first step. -/
def ofProgram (p : Program) : Machine := ⟨p, default, [], 0⟩

def current (m : Machine) : Option Instruction := m.program.instructions[m.progress.pc.toNat]?

def message? (m : Machine) (inbox : Inbox) (index : UInt64) : Option Bytes :=
  m.inbox.lookup (inbox, index)

/-- Puts a message in place of the one at its index. -/
def addMessage (m : Machine) (inbox : Inbox) (msg : Message) : Machine :=
  { m with inbox := ((inbox, msg.index), msg.data) :: m.inbox }

def setGlobal (m : Machine) (g : GlobalState) : Machine :=
  { m with progress := { m.progress with global := g } }

def setStatus (m : Machine) (s : Status) : Machine :=
  { m with progress := { m.progress with status := s } }

/-! ## A single step -/

/-- The digest of a digest with some bytes behind it. -/
def fold (d : Digest) (bs : Bytes) : Digest := .ofContent (d.bytes ++ bs)

def nextIndex (g : GlobalState) : Inbox → UInt64
  | .sequencer => g.batch
  | .delayed => g.posInBatch

/-- The global state after a message: its digest goes into the block hash, and the position moves
on. A sequencer message starts a new batch. -/
def takeMessage (g : GlobalState) (acc : Digest) (inbox : Inbox) (data : Bytes) : GlobalState :=
  let g := { g with blockHash := .ofContent (g.blockHash.bytes ++ acc.bytes ++ data) }
  match inbox with
  | .sequencer => { g with batch := g.batch + 1, posInBatch := 0 }
  | .delayed => { g with posInBatch := g.posInBatch + 1 }

/-- How contents are found: by token and hash. -/
abbrev Resolve := Nat → Digest → Result Bytes

/-- What an instruction does to the progress of a machine, its step count apart; `none` if it asks
for a message that is not there. -/
def perform (resolve : Resolve) (m : Machine) (i : Instruction) : Result (Option Progress) :=
  let p := m.progress
  match i with
  | .mix value =>
    return some { p with acc := fold p.acc (Bytes.be64 value), pc := p.pc + 1 }
  | .readInbox inbox =>
    match m.message? inbox (nextIndex p.global inbox) with
    | none => return none
    | some data =>
      return some { p with global := takeMessage p.global p.acc inbox data, pc := p.pc + 1 }
  | .readPreimage hash => do
    let data ← resolve m.context hash
    return some
      { p with
        acc := fold p.acc data
        global := { p.global with sendRoot := fold p.global.sendRoot data }
        pc := p.pc + 1 }
  | .jump target =>
    if target.toNat < m.program.instructions.length then return some { p with pc := target }
    else return some { p with status := .errored }
  | .halt => return some { p with status := .finished }
  | .fail => return some { p with status := .errored }

/-- One step. Behind the last instruction a machine finishes, and without a message it is too far;
neither counts as a step. A step that fails changes nothing. -/
def next (resolve : Resolve) (m : Machine) : Result Machine :=
  match m.current with
  | none => return m.setStatus .finished
  | some i => do
    match ← m.perform resolve i with
    | none => return m.setStatus .tooFar
    | some p => return { m with progress := { p with steps := p.steps + 1 } }

/-! ## Many steps -/

/-- At most `count` steps, fewer if the machine halts or the clock runs out. -/
def step (resolve : Resolve) : Nat → Deadline → Machine → Ran Machine
  | 0, d, m => ⟨.ok (), d, m⟩
  | count + 1, d, m =>
    if m.progress.status.isHalted then ⟨.ok (), d, m⟩
    else if d.isExpired then ⟨.ok (), d.tick, m⟩
    else
      match m.next resolve with
      | .error f => ⟨.error f, d.tick, m⟩
      | .ok m => step resolve count d.tick m

/-- Whether the next instruction asks the host for something. -/
def atHostIo (m : Machine) : Bool := m.current.any (·.isHostIo)

/-- Steps until the next instruction asks the host for something, the machine halts or the clock
runs out. After `fuel` steps it is taken for endless. -/
def stepUntilHostIo (resolve : Resolve) : Nat → Deadline → Machine → Ran Machine
  | 0, d, m => ⟨.error .endless, d, m⟩
  | fuel + 1, d, m =>
    if m.progress.status.isHalted then ⟨.ok (), d, m⟩
    else if d.isExpired then ⟨.ok (), d.tick, m⟩
    else if m.atHostIo then ⟨.ok (), d.tick, m⟩
    else
      match m.next resolve with
      | .error f => ⟨.error f, d.tick, m⟩
      | .ok m => stepUntilHostIo resolve fuel d.tick m

/-! ## What a machine commits to -/

def commitment (m : Machine) : Bytes :=
  let p := m.progress
  match p.status with
  | .running =>
    Bytes.ofText "Machine running:" ++ m.program.root.bytes ++ Bytes.be64 p.pc ++
      Bytes.be64 p.steps ++ p.acc.bytes ++ p.global.hash.bytes
  | .finished => Bytes.ofText "Machine finished:" ++ p.global.hash.bytes
  | .errored => Bytes.ofText "Machine errored:"
  | .tooFar => Bytes.ofText "Machine too far:"

def hash (m : Machine) : Digest := .ofContent m.commitment

/-- The proof of the next step. -/
def proof (m : Machine) : Bytes :=
  m.progress.status.code :: m.hash.bytes ++ Bytes.be64 m.progress.pc ++ m.progress.acc.bytes ++
    match m.current with
    | some i => i.toJson.compact
    | none => []

end Machine

end Rerun
