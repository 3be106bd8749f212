import Rerun.Input

/-!
# Programs

A program is a list of instructions. Its module root is the digest of its written form, so equal
roots mean equal programs as far as the hash tells contents apart.
-/

namespace Rerun

inductive Instruction where
  | mix (value : UInt64)
  | readInbox (inbox : Inbox)
  | readPreimage (hash : Digest)
  | jump (target : UInt64)
  | halt
  | fail
  deriving DecidableEq

namespace Instruction

/-- Whether the instruction asks the host for something. -/
def isHostIo : Instruction → Bool
  | .readInbox _ | .readPreimage _ => true
  | _ => false

/-- Writes an instruction; its tag comes first. -/
def toJson : Instruction → Json.Value
  | .mix value => .object [("op", .string "mix"), ("value", .number value)]
  | .readInbox inbox => .object [("op", .string "read-inbox"), ("kind", inbox.toJson)]
  | .readPreimage hash => .object [("op", .string "read-preimage"), ("hash", hash.toJson)]
  | .jump target => .object [("op", .string "jump"), ("target", .number target)]
  | .halt => .object [("op", .string "halt")]
  | .fail => .object [("op", .string "fail")]

/-! ## Reading

The tag of an instruction may stand behind its operand, so an instruction is kept as it is until it
has ended, and is read only then. What is kept may be nested only so far. -/

/-- How many containers may be open at once in what is kept. -/
def depthLimit : Nat := 127

mutual

/-- Whether a value inside `depth` containers can be kept. -/
def keeps (depth : Nat) : Json.Node → Bool
  | .fault => false
  | .null | .bool _ => true
  | .number n => n.name?.isSome
  | .string pieces => (Json.pieceText? pieces).isSome
  | .array items .closed => depth < depthLimit && keepsAll (depth + 1) items
  | .object members .closed => depth < depthLimit && keepsMembers (depth + 1) members
  | .array _ .cut => false
  | .object _ .cut => false

def keepsAll (depth : Nat) : List Json.Node → Bool
  | [] => true
  | x :: xs => keeps depth x && keepsAll depth xs

def keepsMembers (depth : Nat) : List (List Json.Piece × Json.Node) → Bool
  | [] => true
  | (key, x) :: xs => (Json.pieceText? key).isSome && keeps depth x && keepsMembers depth xs

end

inductive Tag where
  | mix
  | readInbox
  | readPreimage
  | jump
  | halt
  | fail

def Tag.names : List (String × Tag) :=
  [("mix", .mix), ("read-inbox", .readInbox), ("read-preimage", .readPreimage), ("jump", .jump),
    ("halt", .halt), ("fail", .fail)]

def Tag.ofJson (node : Json.Node) : Json.Read Tag := do
  Json.choose Tag.names (← Json.readText "variant identifier" node)

/-- Reads the inbox of a kept instruction: a name, or an object with a name as its only key. -/
def keptInbox : Json.Node → Json.Read Inbox
  | .object [(key, x)] _ => do
    let some name := Json.pieceText? key | .error .malformed
    let inbox ← Json.choose Inbox.names name
    match x with
    | .null | .object [] _ => return inbox
    | x => .error (x.mismatch "unit")
  | .object _ _ => .error (.wrongValue "map" "map with a single key")
  | .string pieces => do
    let some name := Json.pieceText? pieces | .error .malformed
    Json.choose Inbox.names name
  | node => .error (node.mismatch "string or map")

/-- The operand of a tag: what its record is called, the name of its only field, and how the field
is read. Two tags have none. -/
def Tag.operand? : Tag → Option (String × String × (Json.Node → Json.Read Instruction))
  | .mix => some ("Mix", "value", fun x => .mix <$> Json.readNatural "u64" x)
  | .readInbox => some ("ReadInbox", "kind", fun x => .readInbox <$> keptInbox x)
  | .readPreimage => some ("ReadPreimage", "hash", fun x => .readPreimage <$> Digest.ofJson x)
  | .jump => some ("Jump", "target", fun x => .jump <$> Json.readNatural "usize" x)
  | .halt => none
  | .fail => none

def Tag.plain : Tag → Instruction
  | .fail => .fail
  | _ => .halt

/-- Reads the members of an object: the tag, once it is met, and the others as they are. -/
def splitTag (depth : Nat) (tag : Option Tag) (kept : List (List Json.Piece × Json.Node)) :
    List (List Json.Piece × Json.Node) →
    Json.Read (Option Tag × List (List Json.Piece × Json.Node))
  | [] => .ok (tag, kept.reverse)
  | (key, x) :: xs => do
    let some name := Json.pieceText? key | .error .malformed
    if name = "op" then
      match tag with
      | some _ => .error (.duplicateField "op")
      | none => splitTag depth (some (← Tag.ofJson x)) kept xs
    else if keeps depth x then splitTag depth tag ((key, x) :: kept) xs
    else .error .malformed

/-- Reads the operand from the members that were kept. -/
def ofMembers (field : String) (read : Json.Node → Json.Read Instruction)
    (members : List (List Json.Piece × Json.Node)) : Json.Read Instruction := do
  let form : Json.Form Instruction := ⟨"", .halt, false, [⟨field, fun x _ => read x⟩]⟩
  let (seen, instruction) ← form.readMembers [] .halt members
  match form.missing? seen with
  | some name => .error (.missingField name)
  | none => return instruction

/-- Reads an instruction inside `depth` containers: an object with a tag in any place, or an array
that starts with the tag. -/
def ofJson (depth : Nat) : Json.Node → Json.Read Instruction
  | .object members ending => do
    let (tag, kept) ← splitTag (depth + 1) none [] members
    ending.check
    let some tag := tag | .error (.missingField "op")
    match tag.operand? with
    | some (_, field, read) => ofMembers field read kept
    | none => return tag.plain
  | .array [] ending => do
    ending.check
    .error (.missingField "op")
  | .array (x :: xs) ending => do
    let tag ← Tag.ofJson x
    if !keepsAll (depth + 1) xs then .error .malformed
    ending.check
    match tag.operand?, xs with
    | some (name, _, _), [] =>
      .error (.wrongLength 0 s!"struct variant Instruction::{name} with 1 element")
    | some (_, _, read), y :: ys => do
      let instruction ← read y
      if ys.isEmpty then return instruction
      else .error (.wrongLength (ys.length + 1) "1 element in sequence")
    | none, [] => return tag.plain
    | none, ys => .error (.wrongLength ys.length "0 elements in sequence")
  | node => .error (node.mismatch "internally tagged enum Instruction")

end Instruction

structure Program where
  instructions : List Instruction
  deriving DecidableEq, Inhabited

namespace Program

/-- The bytes that a module root commits to. -/
def commitment (p : Program) : Bytes :=
  Bytes.ofText "reference image:" ++ (Json.Value.array (p.instructions.map (·.toJson))).compact

/-- The digest that names a program. -/
def root (p : Program) : Digest := .ofContent p.commitment

def form : Json.Form Program where
  name := "ReferenceImage"
  blank := default
  lenient := false
  fields := [⟨"program", fun x _ => Program.mk <$> Json.readList (Instruction.ofJson 2) x⟩]

def ofJson : Json.Node → Json.Read Program := form.read

def toJson (p : Program) : Json.Value :=
  .object [("program", .array (p.instructions.map (·.toJson)))]

end Program

end Rerun
