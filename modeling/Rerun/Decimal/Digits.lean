import Rerun.Bytes.Basic

/-!
# Decimal digits

Natural numbers as decimal digits, and back.
-/

namespace Rerun.Decimal

/-- The digits of a number, the most significant first, without leading zeros. -/
def digits (n : Nat) : List Nat :=
  if n < 10 then [n] else digits (n / 10) ++ [n % 10]
termination_by n
decreasing_by omega

def ofDigits (ds : List Nat) : Nat := ds.foldl (fun n d => 10 * n + d) 0

theorem ofDigits_append_singleton (ds : List Nat) (d : Nat) :
    ofDigits (ds ++ [d]) = 10 * ofDigits ds + d := by
  simp [ofDigits, List.foldl_append]

theorem ofDigits_digits (n : Nat) : ofDigits (digits n) = n := by
  induction n using digits.induct with
  | case1 n h => unfold digits; simp [h, ofDigits]
  | case2 n h ih =>
    unfold digits
    simp only [h, ↓reduceIte, ofDigits_append_singleton, ih]
    omega

theorem digits_lt (n : Nat) : ∀ d ∈ digits n, d < 10 := by
  induction n using digits.induct with
  | case1 n h => unfold digits; simp [h]
  | case2 n h ih =>
    unfold digits
    simp only [h, ↓reduceIte, List.mem_append, List.mem_singleton]
    rintro d (hd | rfl)
    · exact ih d hd
    · omega

def digitByte (d : Nat) : UInt8 := 0x30 + UInt8.ofNat d

def digit? (b : UInt8) : Option Nat :=
  if 0x30 ≤ b && b ≤ 0x39 then some (b.toNat - 0x30) else none

def bytes (n : Nat) : Bytes := (digits n).map digitByte

end Rerun.Decimal
