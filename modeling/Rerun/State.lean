import Rerun.Json.Codec

/-!
# Global states and machine statuses

The global state is the part of a machine that is seen from outside: the hash of the last block, the
root of what was sent, and the position in the two inboxes.
-/

namespace Rerun

/-- The externally visible state of a machine. -/
structure GlobalState where
  blockHash : Digest
  sendRoot : Digest
  batch : UInt64
  posInBatch : UInt64
  deriving DecidableEq, Inhabited

namespace GlobalState

/-- The bytes that the digest of a state commits to. -/
def commitment (g : GlobalState) : Bytes :=
  Bytes.ofText "Global state:" ++ g.blockHash.bytes ++ g.sendRoot.bytes ++
    Bytes.be64 g.batch ++ Bytes.be64 g.posInBatch

def hash (g : GlobalState) : Digest := .ofContent g.commitment

def form : Json.Form GlobalState where
  name := "GlobalState"
  blank := default
  lenient := false
  fields :=
    [⟨"blockHash", fun x g => return { g with blockHash := ← Digest.ofJson x }⟩,
     ⟨"sendRoot", fun x g => return { g with sendRoot := ← Digest.ofJson x }⟩,
     ⟨"batch", fun x g => return { g with batch := ← Json.readNatural "u64" x }⟩,
     ⟨"posInBatch", fun x g => return { g with posInBatch := ← Json.readNatural "u64" x }⟩]

def ofJson : Json.Node → Json.Read GlobalState := form.read

def toJson (g : GlobalState) : Json.Value :=
  .object [("blockHash", g.blockHash.toJson), ("sendRoot", g.sendRoot.toJson),
    ("batch", .number g.batch), ("posInBatch", .number g.posInBatch)]

/-! ## The layout that engines share -/

/-- The eighty bytes of a state in memory: both digests, then both numbers. -/
def layout (g : GlobalState) : Bytes :=
  g.blockHash.bytes ++ g.sendRoot.bytes ++ Bytes.le64 g.batch ++ Bytes.le64 g.posInBatch

/-- The state that lies in eighty bytes. -/
def ofLayout? (bs : Bytes) : Option GlobalState := do
  let blockHash := bs.take 32
  let sendRoot := (bs.drop 32).take 32
  let batch ← Bytes.ofBe64? ((bs.drop 64).take 8).reverse
  let posInBatch ← Bytes.ofBe64? (bs.drop 72).reverse
  if h : blockHash.length = 32 ∧ sendRoot.length = 32 then
    return ⟨⟨blockHash, h.1⟩, ⟨sendRoot, h.2⟩, batch, posInBatch⟩
  else none

end GlobalState

/-- How far a machine is. -/
inductive Status where
  | running
  | finished
  | errored
  /-- Halted because it asked for a message that was not supplied. -/
  | tooFar
  deriving DecidableEq, Inhabited

namespace Status

def code : Status → UInt8
  | .running => 0
  | .finished => 1
  | .errored => 2
  | .tooFar => 3

def ofCode? : UInt8 → Option Status
  | 0 => some .running
  | 1 => some .finished
  | 2 => some .errored
  | 3 => some .tooFar
  | _ => none

@[simp] theorem ofCode?_code (s : Status) : ofCode? s.code = some s := by cases s <;> rfl

/-- Whether no step changes the machine any more. -/
def isHalted : Status → Bool
  | .running => false
  | _ => true

def text : Status → String
  | .running => "running"
  | .finished => "finished"
  | .errored => "errored"
  | .tooFar => "too-far"

def names : List (String × Status) :=
  [("running", .running), ("finished", .finished), ("errored", .errored), ("too-far", .tooFar)]

def ofJson : Json.Node → Json.Read Status := Json.readChoice names

def toJson (s : Status) : Json.Value := .string s.text

end Status

end Rerun
