import Rerun.Bytes.Basic

/-!
# Hexadecimal text

Two digits a byte, the high one first. Writing uses lower case; reading takes either case, and says
what is wrong in a fixed order: an odd number of digits before a digit that is none.
-/

namespace Rerun.Hex

/-- The lower-case digit of a value below sixteen. -/
def digit (n : UInt8) : UInt8 := if n < 10 then 0x30 + n else 0x57 + n

/-- The value of a digit of either case. -/
def value? (c : UInt8) : Option UInt8 :=
  if 0x30 ≤ c && c ≤ 0x39 then some (c - 0x30)
  else if 0x61 ≤ c && c ≤ 0x66 then some (c - 0x57)
  else if 0x41 ≤ c && c ≤ 0x46 then some (c - 0x37)
  else none

/-- The two digits of a byte. -/
def pair (b : UInt8) : Bytes := [digit (b >>> 4), digit (b &&& 0x0F)]

def digits (bs : Bytes) : Bytes := bs.flatMap pair

inductive Fault where
  | oddLength
  | badDigit (byte : UInt8) (index : Nat)
  deriving DecidableEq, Repr

/-- Reads pairs of digits, of which the first stands at `index`. -/
def readPairs : Nat → Bytes → Except Fault Bytes
  | _, [] => .ok []
  | index, hi :: rest =>
    match value? hi, rest with
    | none, _ => .error (.badDigit hi index)
    | some _, [] => .error .oddLength
    | some h, lo :: rest =>
      match value? lo with
      | none => .error (.badDigit lo (index + 1))
      | some l => do return (h * 16 + l) :: (← readPairs (index + 2) rest)

/-- The bytes that some digits spell. -/
def read (text : Bytes) : Except Fault Bytes :=
  if text.length % 2 = 1 then .error .oddLength else readPairs 0 text

def encode (bs : Bytes) : String :=
  String.ofList ((digits bs).map fun d => Char.ofNat d.toNat)

/-! ## Reading what was written -/

theorem value?_digit : ∀ n : UInt8, n < 16 → value? (digit n) = some n := by
  intro n h
  have : ∀ n : Fin 16, value? (digit (UInt8.ofNat n)) = some (UInt8.ofNat n) := by decide
  have hn : n.toNat < 16 := by simpa [UInt8.lt_iff_toNat_lt] using h
  have := this ⟨n.toNat, hn⟩
  simpa using this

theorem digits_length (bs : Bytes) : (digits bs).length = 2 * bs.length := by
  induction bs with
  | nil => rfl
  | cons b bs ih =>
    rw [digits, List.flatMap_cons, List.length_append, ← digits, ih]
    simp only [pair, List.length_cons, List.length_nil]
    omega

end Rerun.Hex
