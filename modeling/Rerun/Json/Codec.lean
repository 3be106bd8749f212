import Rerun.Error
import Rerun.Json.Form
import Rerun.Json.Value

/-!
# Digests and byte strings in JSON

Both are strings of hexadecimal digits behind `0x`. A digest is read as it is anywhere else; from
the text of a byte string every `0x` in front is dropped.
-/

namespace Rerun

/-- Reads the text of a digest that stands in a document. -/
def Digest.readText (s : String) : Json.Read Digest :=
  match Digest.parse s with
  | .ok d => .ok d
  | .error fault => .error (.badText (Error.ofDigestFault fault).message)

def Digest.ofJson (node : Json.Node) : Json.Read Digest := do
  Digest.readText (← Json.readText "a string" node)

def Digest.toJson (d : Digest) : Json.Value := .string d.text

namespace Bytes

/-- The bytes behind every `0x` in front. -/
def stripMarks : Bytes → Bytes
  | 0x30 :: 0x78 :: rest => stripMarks rest
  | bs => bs

def readText (s : String) : Json.Read Bytes :=
  match Hex.read (stripMarks (ofText s)) with
  | .ok bs => .ok bs
  | .error fault => .error (.badText fault.message)

def ofJson (node : Json.Node) : Json.Read Bytes := do
  readText (← Json.readText "a string" node)

/-- The written form of a byte string. -/
def text (bs : Bytes) : String := "0x" ++ Hex.encode bs

def toJson (bs : Bytes) : Json.Value := .string bs.text

end Bytes

end Rerun
