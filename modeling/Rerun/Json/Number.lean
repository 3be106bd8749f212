import Rerun.Decimal.Digits

/-!
# Numbers in JSON

A number is read into the first of three kinds that holds it: a natural number of sixty-four bits, a
negative integer of sixty-four bits, or a double. A double is built from the digits that fit into
sixty-four bits and one power of ten, each step rounded on its own.
-/

namespace Rerun.Json

inductive Number where
  | natural (n : UInt64)
  /-- `-(n + 1)`. -/
  | negative (n : UInt64)
  | float (x : Float)
  /-- No double is large enough. -/
  | tooLarge

namespace Number

/-- The first number that does not fit into sixty-four bits. -/
def wordEnd : Nat := 18446744073709551616

/-- The size of the least integer of sixty-four bits. -/
def negativeEnd : Nat := 9223372036854775808

/-- The first exponent that is too large to be read. -/
def exponentEnd : Nat := 2147483648

/-- The parts of a number in writing. -/
structure Written where
  isNegative : Bool
  whole : List Nat
  fraction : Option (List Nat)
  /-- Whether the exponent is negative, and its digits, if there is one. -/
  exponent : Option (Bool × List Nat)

/-- A significand and the power of ten that belongs to it. -/
structure Parts where
  significand : Nat
  exponent : Int

/-- Takes a digit in front of the point; one that no longer fits only moves the power. -/
def Parts.pushWhole (p : Parts) (full : Bool) (d : Nat) : Parts × Bool :=
  if full || wordEnd ≤ p.significand * 10 + d then (⟨p.significand, p.exponent + 1⟩, true)
  else (⟨p.significand * 10 + d, p.exponent⟩, false)

/-- Takes the digits behind the point; the first that no longer fits ends them. -/
def Parts.pushFraction (p : Parts) : List Nat → Parts
  | [] => p
  | d :: ds =>
    if wordEnd ≤ p.significand * 10 + d then p
    else Parts.pushFraction ⟨p.significand * 10 + d, p.exponent - 1⟩ ds

/-- Divides by a power of ten, at most `10 ^ 308` at a time. -/
def scaleDown (x : Float) (e : Nat) : Float :=
  if e ≤ 308 then x / Float.ofScientific 1 false e
  else if x == 0 then x
  else scaleDown (x / Float.ofScientific 1 false 308) (e - 308)
termination_by e
decreasing_by omega

/-- The double nearest to the parts, as far as single steps reach it. -/
def Parts.toFloat? (p : Parts) : Option Float :=
  let x := (UInt64.ofNat p.significand).toFloat
  if p.exponent < 0 then some (scaleDown x p.exponent.natAbs)
  else if 308 < p.exponent then if x == 0 then some x else none
  else
    let y := x * Float.ofScientific 1 false p.exponent.natAbs
    if y.isInf then none else some y

def Written.toFloat? (w : Written) : Option Float := do
  let (parts, _) := w.whole.foldl (fun (p, full) d => p.pushWhole full d) ((⟨0, 0⟩ : Parts), false)
  let parts := parts.pushFraction (w.fraction.getD [])
  let x ← match w.exponent with
    | none => parts.toFloat?
    | some (isNegative, ds) =>
      let e := Decimal.ofDigits ds
      if exponentEnd ≤ e then
        if parts.significand = 0 || isNegative then some 0.0 else none
      else
        let exponent := if isNegative then parts.exponent - e else parts.exponent + e
        Parts.toFloat? ⟨parts.significand, exponent⟩
  return if w.isNegative then -x else x

/-- The kind that holds a number. A minus sign before zero makes a double. -/
def ofWritten (w : Written) : Number :=
  let float := match w.toFloat? with
    | some x => .float x
    | none => .tooLarge
  match w.fraction, w.exponent with
  | none, none =>
    let n := Decimal.ofDigits w.whole
    if w.isNegative then
      if 0 < n ∧ n ≤ negativeEnd then .negative (UInt64.ofNat (n - 1)) else float
    else if n < wordEnd then .natural (UInt64.ofNat n)
    else float
  | _, _ => float

end Number

end Rerun.Json
