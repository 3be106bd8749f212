import Rerun.Decimal.Shortest

/-!
# Fixed decimal places

A double rounded to a fixed number of places behind the point. The double counts with its exact
value, and a half goes to the even neighbour.
-/

namespace Rerun.Decimal

/-- The integer nearest to `n / d`; of two that are as near, the even one. -/
def roundDiv (n d : Nat) : Nat :=
  let q := n / d
  let rest := 2 * (n % d)
  if rest < d ∨ (rest = d ∧ q % 2 = 0) then q else q + 1

/-- A double with `places` digits behind the point. -/
def Double.fixed (places : Nat) (bits : UInt64) : String :=
  let x := Double.ofBits bits
  let scaled := roundDiv (x.mantissa * Nat.pow 2 x.scale * Nat.pow 10 places) (Nat.pow 2 1074)
  let ds := digits scaled
  let ds := List.replicate (places + 1 - ds.length) 0 ++ ds
  let whole := ds.length - places
  let sign := if bits >>> 63 = 1 then "-" else ""
  sign ++ digitText (ds.take whole) ++ (if places = 0 then "" else "." ++ digitText (ds.drop whole))

end Rerun.Decimal
