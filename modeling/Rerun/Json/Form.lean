import Rerun.Decimal.Shortest
import Rerun.Json.Node
import Rerun.Text.Quoted

/-!
# Reading JSON into types

A reader takes a tree and gives a value of its type or the first complaint, in the order of the
document. Fields that a record does not know are skipped; a field that is missing is complained of
only at the end of the record, in the order in which the record declares its fields.
-/

namespace Rerun.Json

/-! ## Complaints -/

/-- Why a document is not what was asked for. -/
inductive Complaint where
  | malformed
  | missingField (name : String)
  | duplicateField (name : String)
  | unknownVariant (name : String) (known : List String)
  | wrongType (found expected : String)
  | wrongValue (found expected : String)
  | wrongLength (found : Nat) (expected : String)
  | badText (reason : String)
  deriving DecidableEq

/-- The names between which a choice is offered. -/
def oneOf : List String → String
  | [] => "there are no variants"
  | [a] => s!"expected `{a}`"
  | [a, b] => s!"expected `{a}` or `{b}`"
  | names => "expected one of " ++ ", ".intercalate (names.map fun n => s!"`{n}`")

def Complaint.message : Complaint → String
  | .malformed => "malformed JSON"
  | .missingField name => s!"missing field `{name}`"
  | .duplicateField name => s!"duplicate field `{name}`"
  | .unknownVariant name known => s!"unknown variant `{name}`, {oneOf known}"
  | .wrongType found expected => s!"invalid type: {found}, expected {expected}"
  | .wrongValue found expected => s!"invalid value: {found}, expected {expected}"
  | .wrongLength found expected => s!"invalid length {found}, expected {expected}"
  | .badText reason => reason

abbrev Read := Except Complaint

/-! ## Naming what was found -/

/-- Doubles in complaints: positional from `0.00001` up to sixteen digits before the point. -/
def doubleStyle : Decimal.Style := ⟨-5, 15⟩

/-- How a number is named; one that no type holds has no name. -/
def Number.name? : Number → Option String
  | .natural n => some s!"integer `{n}`"
  | .negative n => some s!"integer `-{n.toNat + 1}`"
  | .float x => some s!"floating point `{Decimal.Double.text doubleStyle x.toBits}`"
  | .tooLarge => none

/-- The complaint that a value is of the wrong type. -/
def Node.mismatch (expected : String) : Node → Complaint
  | .fault => .malformed
  | .null => .wrongType "null" expected
  | .bool b => .wrongType s!"boolean `{b}`" expected
  | .number n =>
    match n.name? with
    | some name => .wrongType name expected
    | none => .malformed
  | .string pieces =>
    match pieceText? pieces with
    | some s => .wrongType s!"string {Text.quoted s}" expected
    | none => .malformed
  | .array .. => .wrongType "sequence" expected
  | .object .. => .wrongType "map" expected

/-- The complaint of a container that was cut off; a closed one gives none. -/
def Ending.check : Ending → Read Unit
  | .closed => .ok ()
  | .cut => .error .malformed

mutual

/-- Whether a value that nobody asks for is JSON at all. -/
def Node.isWhole : Node → Bool
  | .fault => false
  | .array items .closed => Node.allWhole items
  | .object members .closed => Node.membersWhole members
  | .array _ .cut => false
  | .object _ .cut => false
  | .null | .bool _ | .number _ | .string _ => true

def Node.allWhole : List Node → Bool
  | [] => true
  | x :: xs => x.isWhole && Node.allWhole xs

def Node.membersWhole : List (List Piece × Node) → Bool
  | [] => true
  | (_, x) :: xs => x.isWhole && Node.membersWhole xs

end

/-! ## Plain values -/

/-- Reads a natural number of sixty-four bits, called `type` in complaints. -/
def readNatural (type : String) : Node → Read UInt64
  | .number (.natural n) => .ok n
  | .number (.negative n) => .error (.wrongValue s!"integer `-{n.toNat + 1}`" type)
  | node => .error (node.mismatch type)

def readBool : Node → Read Bool
  | .bool b => .ok b
  | node => .error (node.mismatch "a boolean")

/-- Reads a text, called `type` in complaints. -/
def readText (type : String) : Node → Read String
  | .string pieces =>
    match pieceText? pieces with
    | some s => .ok s
    | none => .error .malformed
  | node => .error (node.mismatch type)

def readItems {α : Type} (read : Node → Read α) : List Node → Read (List α)
  | [] => .ok []
  | x :: xs => do
    let a ← read x
    return a :: (← readItems read xs)

def readList {α : Type} (read : Node → Read α) : Node → Read (List α)
  | .array items ending => do
    let xs ← readItems read items
    ending.check
    return xs
  | node => .error (node.mismatch "a sequence")

/-- Reads members in order, each key before its value. -/
def readEntries {κ α : Type} (readKey : String → Read κ) (read : Node → Read α) :
    List (List Piece × Node) → Read (List (κ × α))
  | [] => .ok []
  | (key, x) :: xs => do
    let some key := pieceText? key | .error .malformed
    let k ← readKey key
    let a ← read x
    return (k, a) :: (← readEntries readKey read xs)

/-- Reads an object with any keys, in the order of the document. -/
def readMap {κ α : Type} (readKey : String → Read κ) (read : Node → Read α) :
    Node → Read (List (κ × α))
  | .object members ending => do
    let xs ← readEntries readKey read members
    ending.check
    return xs
  | node => .error (node.mismatch "a map")

/-! ## Choices -/

/-- The value that a name stands for. -/
def choose {α : Type} (choices : List (String × α)) (name : String) : Read α :=
  match choices.lookup name with
  | some a => .ok a
  | none => .error (.unknownVariant name (choices.map Prod.fst))

/-- Reads one of some names, alone or as the only key of an object, with null as its value. -/
def readChoice {α : Type} (choices : List (String × α)) : Node → Read α
  | .string pieces =>
    match pieceText? pieces with
    | some name => choose choices name
    | none => .error .malformed
  | .object ((key, x) :: more) ending => do
    let some name := pieceText? key | .error .malformed
    let a ← choose choices name
    match x with
    | .null => pure ()
    | x => .error (x.mismatch "unit")
    ending.check
    if more.isEmpty then return a else .error .malformed
  | _ => .error .malformed

/-! ## Records -/

/-- A field of a record that is read into an `α`. -/
structure Field (α : Type) where
  name : String
  read : Node → α → Read α

/-- How a record is read. -/
structure Form (α : Type) where
  name : String
  blank : α
  /-- Whether a field may be missing; it then keeps its blank value. -/
  lenient : Bool
  fields : List (Field α)

namespace Form

variable {α : Type}

/-- `n` elements, in words. -/
def elements (n : Nat) : String := if n = 1 then "1 element" else s!"{n} elements"

/-- Reads the members in order into the record; `seen` are the fields met so far. -/
def readMembers (form : Form α) (seen : List String) (a : α) :
    List (List Piece × Node) → Read (List String × α)
  | [] => .ok (seen, a)
  | (key, x) :: xs => do
    let some key := pieceText? key | .error .malformed
    match form.fields.find? (·.name == key) with
    | some field =>
      if seen.contains key then .error (.duplicateField key)
      else
        let a ← field.read x a
        form.readMembers (key :: seen) a xs
    | none =>
      if x.isWhole then form.readMembers seen a xs else .error .malformed

/-- The first field that was not met. -/
def missing? (form : Form α) (seen : List String) : Option String :=
  if form.lenient then none
  else (form.fields.map (·.name)).find? fun name => !seen.contains name

/-- Reads the items in order into the fields; `done` counts the fields before these. -/
def readPositions (form : Form α) (ending : Ending) (done : Nat) (a : α) :
    List (Field α) → List Node → Read α
  | [], [] => do ending.check; return a
  | [], _ :: _ => .error .malformed
  | field :: fields, x :: xs => do
    let a ← field.read x a
    form.readPositions ending (done + 1) a fields xs
  | _ :: _, [] => do
    ending.check
    if form.lenient then return a
    else .error (.wrongLength done s!"struct {form.name} with {elements form.fields.length}")

/-- Reads a record from an object, or from an array of its fields in order. -/
def read (form : Form α) : Node → Read α
  | .object members ending => do
    let (seen, a) ← form.readMembers [] form.blank members
    ending.check
    match form.missing? seen with
    | some name => .error (.missingField name)
    | none => return a
  | .array items ending => form.readPositions ending 0 form.blank form.fields items
  | node => .error (node.mismatch s!"struct {form.name}")

end Form

def Document.decode {α : Type} (read : Node → Read α) (d : Document) : Read α := do
  let a ← read d.root
  if d.trailing then .error .malformed else return a

/-- Reads a whole document from its bytes. -/
def decode {α : Type} (read : Node → Read α) (bs : Bytes) : Read α :=
  (Document.read bs).decode read

end Rerun.Json
