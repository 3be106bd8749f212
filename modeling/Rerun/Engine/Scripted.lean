import Rerun.Deadline
import Rerun.Engine.Callback
import Rerun.Files
import Rerun.Input

/-!
# Scripted engines

A foreign engine whose answers are written down in its image: a line `name=value` for each, with
digests and byte strings in hexadecimal digits. It serves to rehearse what foreign engines do.
-/

namespace Rerun

/-- The answers of a scripted engine. -/
structure Script where
  root : Digest := .zero
  hash : Digest := .zero
  status : UInt8 := 0
  proof : Bytes := []
  proofless : Bool := false
  /-- The text that a call to step returns, and that of a call to run up to host input. -/
  stepError : Option Bytes := none
  ioError : Option Bytes := none
  loadFails : Bool := false
  cloneFails : Bool := false
  serializeCode : Int := 0
  deserializeCode : Int := 0
  inboxCode : Int := 0
  requests : List Digest := []
  deriving DecidableEq

namespace Script

/-- How many hashes a call asks for at most. -/
def maxRequests : Nat := 8

/-- How many steps a call takes at most, and after how many a machine is finished. -/
def maxSteps : Nat := 100

/-- The text of a returned string: it ends in front of the first zero. -/
def cString (bs : Bytes) : Bytes := bs.takeWhile (· ≠ 0)

/-! ## Reading -/

/-- The value of a digit. What is no digit counts as zero. -/
def digitValue (c : UInt8) : UInt8 := (Hex.value? c).getD 0

/-- The bytes that pairs of digits spell. A digit without a partner spells none. -/
def bytesOf : Bytes → Bytes
  | high :: low :: rest => (digitValue high * 16 + digitValue low) :: bytesOf rest
  | _ => []

/-- The digest that the first digits spell, with zeros for those that are not there. -/
def digestOf (value : Bytes) : Digest :=
  ⟨(bytesOf value ++ List.replicate 32 0).take 32, by simp⟩

/-- Whether a byte is a blank in front of a number. -/
def isGap (c : UInt8) : Bool := c = 0x20 || (0x09 ≤ c && c ≤ 0x0D)

/-- The number that decimal digits at the beginning spell. -/
def wholeOf (value : Bytes) : Nat :=
  (value.takeWhile fun c => 0x30 ≤ c && c ≤ 0x39).foldl (fun n c => n * 10 + (c - 0x30).toNat) 0

/-- The number at the beginning of a value, with an optional sign, in thirty-two bits. -/
def intOf (value : Bytes) : Int :=
  let n : Int := match value.dropWhile isGap with
    | 0x2D :: digits => -(wholeOf digits : Int)
    | 0x2B :: digits => wholeOf digits
    | digits => wholeOf digits
  n.bmod 4294967296

/-- Takes over a value; a name that no script has means nothing. -/
def setValue (s : Script) (name : String) (value : Bytes) : Script :=
  let isSet := intOf value ≠ 0
  match name with
  | "root" => { s with root := digestOf value }
  | "hash" => { s with hash := digestOf value }
  | "status" => { s with status := UInt8.ofInt (intOf value) }
  | "proof" => { s with proof := bytesOf value }
  | "null_proof" => { s with proofless := isSet }
  | "step_error" => { s with stepError := some (cString (bytesOf value)) }
  | "io_error" => { s with ioError := some (cString (bytesOf value)) }
  | "load_fails" => { s with loadFails := isSet }
  | "clone_fails" => { s with cloneFails := isSet }
  | "serialize_code" => { s with serializeCode := intOf value }
  | "deserialize_code" => { s with deserializeCode := intOf value }
  | "inbox_code" => { s with inboxCode := intOf value }
  | "request" =>
    if s.requests.length < maxRequests then
      { s with requests := s.requests ++ [digestOf value] }
    else s
  | _ => s

def equals : UInt8 := 0x3D

def newline : UInt8 := 0x0A

/-- Takes over what a line says; other lines say nothing. -/
def readLine (s : Script) (line : Bytes) : Script :=
  let line := cString line
  match Bytes.text? (line.takeWhile (· ≠ equals)), line.dropWhile (· ≠ equals) with
  | some name, _ :: value => s.setValue name value
  | _, _ => s

def parse (image : Bytes) : Script := (image.splitOn newline).foldl readLine {}

/-- The script that is read where a path leads. A directory can be opened, but has no lines. -/
def ofEntry : Entry → Script
  | .directory => {}
  | .file image => parse image

end Script

structure ScriptedMachine where
  script : Script
  global : GlobalState
  steps : UInt64
  status : UInt8
  context : Nat
  deriving DecidableEq

namespace ScriptedMachine

def ofScript (s : Script) : ScriptedMachine := ⟨s, default, 0, s.status, 0⟩

/-- The proof of the next step, which is empty where there is none. -/
def proof (m : ScriptedMachine) : Bytes := if m.script.proofless then [] else m.script.proof

/-- What the engine asks for in every call. -/
def callbacks (resolve : Nat → Digest → Result Bytes) (m : ScriptedMachine) : List Callback :=
  m.script.requests.map fun hash => ⟨m.context, hash, resolve⟩

/-- Takes an answer; the length of the content moves the position. -/
def take (m : ScriptedMachine) : Option Bytes → ScriptedMachine
  | some content =>
    let position := m.global.posInBatch + UInt64.ofNat content.length
    { m with global := { m.global with posInBatch := position } }
  | none => m

/-- Moves on by some steps, and is finished once there were enough of them. -/
def advance (m : ScriptedMachine) (count : UInt64) : ScriptedMachine :=
  let steps := m.steps + count
  let status := if Script.maxSteps ≤ steps.toNat then Status.finished.code else m.status
  { m with steps, status }

/-- A call that takes steps: the engine looks at the clock, moves on, asks for its hashes and
returns a text or none. -/
def call (resolve : Nat → Digest → Result Bytes) (slot : Slot) (count : UInt64)
    (returned : Option Bytes) (d : Deadline) (m : ScriptedMachine) : Ran ScriptedMachine × Slot :=
  if d.isExpired then
    let c := slot.call [] none
    (⟨c.result, d.tick, m⟩, c.slot)
  else
    let c := slot.call (m.callbacks resolve) returned
    (⟨c.result, d.tick, c.answers.foldl take (m.advance count)⟩, c.slot)

def step (resolve : Nat → Digest → Result Bytes) (slot : Slot) (count : Nat) (d : Deadline)
    (m : ScriptedMachine) : Ran ScriptedMachine × Slot :=
  m.call resolve slot (UInt64.ofNat (min count Script.maxSteps)) m.script.stepError d

/-- Runs up to host input, which is one step. -/
def stepUntilHostIo (resolve : Nat → Digest → Result Bytes) (slot : Slot) (d : Deadline)
    (m : ScriptedMachine) : Ran ScriptedMachine × Slot :=
  m.call resolve slot 1 m.script.ioError d

/-- The status; a number that has none means that the machine is broken. -/
def readStatus (m : ScriptedMachine) : Status := (Status.ofCode? m.status).getD .errored

def addMessage (m : ScriptedMachine) (inbox : Inbox) (msg : Message) :
    Except Error ScriptedMachine :=
  if m.script.inboxCode = 0 then
    let g := m.global
    .ok { m with global := { g with
      batch := g.batch + UInt64.ofNat msg.data.length
      posInBatch := g.posInBatch + inbox.code * 1000 + msg.index } }
  else
    .error (.engineFault
      s!"engine rejected inbox message {msg.index} (code {m.script.inboxCode})")

end ScriptedMachine

end Rerun
