import Rerun.Decimal.Digits

/-!
# Writing JSON

The values that are written, and their two written forms: without any space, and with one member or
item a line.
-/

namespace Rerun.Json

inductive Value where
  | null
  | bool (b : Bool)
  | number (n : UInt64)
  | string (s : String)
  | array (items : List Value)
  | object (members : List (String × Value))

/-- A byte of a string: quotes, backslashes and control characters are escaped. -/
def escapeByte (b : UInt8) : Bytes :=
  if b == 0x22 || b == 0x5C then [0x5C, b]
  else if b == 0x08 then [0x5C, 0x62]
  else if b == 0x0C then [0x5C, 0x66]
  else if b == 0x0A then [0x5C, 0x6E]
  else if b == 0x0D then [0x5C, 0x72]
  else if b == 0x09 then [0x5C, 0x74]
  else if b < 0x20 then
    let digit (n : UInt8) : UInt8 := if n < 10 then 0x30 + n else 0x57 + n
    [0x5C, 0x75, 0x30, 0x30, digit (b >>> 4), digit (b &&& 0x0F)]
  else [b]

/-- A string in quotes. -/
def quote (s : String) : Bytes := 0x22 :: (Bytes.ofText s).flatMap escapeByte ++ [0x22]

/-- The items with a comma between each two. -/
def commaSeparated : List Bytes → Bytes
  | [] => []
  | [x] => x
  | x :: xs => x ++ 0x2C :: commaSeparated xs

mutual

/-- The form without any space. -/
def Value.compact : Value → Bytes
  | .null => Bytes.ofText "null"
  | .bool true => Bytes.ofText "true"
  | .bool false => Bytes.ofText "false"
  | .number n => Decimal.bytes n.toNat
  | .string s => quote s
  | .array items => 0x5B :: commaSeparated (Value.compactItems items) ++ [0x5D]
  | .object members => 0x7B :: commaSeparated (Value.compactMembers members) ++ [0x7D]

def Value.compactItems : List Value → List Bytes
  | [] => []
  | x :: xs => x.compact :: Value.compactItems xs

def Value.compactMembers : List (String × Value) → List Bytes
  | [] => []
  | (key, x) :: xs => (quote key ++ 0x3A :: x.compact) :: Value.compactMembers xs

end

/-- A new line that is indented by `depth` steps of two spaces. -/
def newLine (depth : Nat) : Bytes := 0x0A :: List.replicate (2 * depth) 0x20

mutual

/-- The form with one member or item a line, inside `depth` containers. -/
def Value.prettyAt (depth : Nat) : Value → Bytes
  | .array [] => Bytes.ofText "[]"
  | .object [] => [0x7B, 0x7D]
  | .array (x :: xs) =>
    0x5B :: commaSeparated (Value.prettyItems (depth + 1) (x :: xs)) ++ newLine depth ++ [0x5D]
  | .object (x :: xs) =>
    0x7B :: commaSeparated (Value.prettyMembers (depth + 1) (x :: xs)) ++ newLine depth ++ [0x7D]
  | .null => Bytes.ofText "null"
  | .bool true => Bytes.ofText "true"
  | .bool false => Bytes.ofText "false"
  | .number n => Decimal.bytes n.toNat
  | .string s => quote s

def Value.prettyItems (depth : Nat) : List Value → List Bytes
  | [] => []
  | x :: xs => (newLine depth ++ x.prettyAt depth) :: Value.prettyItems depth xs

def Value.prettyMembers (depth : Nat) : List (String × Value) → List Bytes
  | [] => []
  | (key, x) :: xs =>
    (newLine depth ++ quote key ++ 0x3A :: 0x20 :: x.prettyAt depth) ::
      Value.prettyMembers depth xs

end

/-- The form with one member or item a line. -/
def Value.pretty (v : Value) : Bytes := v.prettyAt 0

def Value.text (v : Value) : String := Bytes.lossy v.compact

end Rerun.Json
