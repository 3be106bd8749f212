import Rerun.Bytes.Hex
import Rerun.Bytes.Sha256
import Rerun.Text.Blank
import Rerun.Text.Quoted

/-!
# Digests

Thirty-two bytes that name a piece of content. They are written as `0x` and sixty-four lower-case
digits. Reading is more lenient: blanks around the text are dropped, one `0x` or `0X` may stand in
front, and digits may have either case.
-/

namespace Rerun

structure Digest where
  bytes : Bytes
  length_eq : bytes.length = 32
  deriving DecidableEq

namespace Digest

def zero : Digest := ⟨List.replicate 32 0, by simp⟩

instance : Inhabited Digest := ⟨zero⟩

def ofContent (content : Bytes) : Digest := ⟨Sha256.hash content, Sha256.hash_length content⟩

/-- The written form. -/
def text (d : Digest) : String := "0x" ++ Hex.encode d.bytes

instance : ToString Digest := ⟨text⟩

/-- The order of the bytes, which is also the order of the written forms. -/
def le (a b : Digest) : Bool := decide (a.bytes ≤ b.bytes)

/-! ## Reading -/

inductive Fault where
  | badHex (text : String) (fault : Hex.Fault)
  | wrongLength (bytes : Nat)
  deriving DecidableEq

end Digest

def Hex.Fault.message : Hex.Fault → String
  | .oddLength => "Odd number of digits"
  | .badDigit byte index =>
    s!"Invalid character {Text.quotedChar (Char.ofNat byte.toNat)} at position {index}"

namespace Digest

/-- What is wrong with the text of a digest; it is shown as it was given. -/
def Fault.message : Fault → String
  | .badHex text fault => s!"bad hex digest {Text.quoted text}: {fault.message}"
  | .wrongLength bytes => s!"digest must be 32 bytes, got {bytes}"

/-- The bytes behind one `0x` or `0X`. -/
def stripMark : Bytes → Bytes
  | 0x30 :: 0x78 :: rest => rest
  | 0x30 :: 0x58 :: rest => rest
  | bs => bs

def parse (s : String) : Except Fault Digest :=
  match Hex.read (stripMark (Bytes.ofText (Text.trim s))) with
  | .error fault => .error (.badHex s fault)
  | .ok bytes =>
    if h : bytes.length = 32 then .ok ⟨bytes, h⟩ else .error (.wrongLength bytes.length)

end Digest

end Rerun
