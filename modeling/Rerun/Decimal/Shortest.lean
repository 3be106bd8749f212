import Rerun.Decimal.Digits

/-!
# The shortest decimal of a floating-point number

A double-precision number stands for every real that rounds to it. Of the decimals in that interval,
the one with the fewest digits is chosen; where two have as few, the nearer one. Everything is
computed exactly on natural numbers.
-/

namespace Rerun.Decimal

/-- A finite, positive double: `mantissa * 2 ^ (scale - 1074)`. -/
structure Double where
  mantissa : Nat
  scale : Nat

/-- The bit of a mantissa that is not written, `2 ^ 52`. -/
def leadingBit : Nat := 4503599627370496

/-- The size of a double, from its bits. Its sign and the values that are not finite are left
out. -/
def Double.ofBits (bits : UInt64) : Double :=
  let fraction := bits.toNat % leadingBit
  let exponent := bits.toNat / leadingBit % 2048
  if exponent = 0 then ⟨fraction, 0⟩ else ⟨fraction + leadingBit, exponent - 1⟩

/-- The reals that round to a double, as numerators over one denominator: the double itself, the two
ends, and whether the ends belong to them. -/
structure Interval where
  low : Nat
  value : Nat
  high : Nat
  denominator : Nat
  closed : Bool

/-- Half a unit to either side, and only a quarter of a unit below a power of two. -/
def Double.interval (x : Double) : Interval :=
  let below := if x.mantissa = leadingBit ∧ 0 < x.scale then 1 else 2
  let unit := Nat.pow 2 x.scale
  ⟨(4 * x.mantissa - below) * unit, 4 * x.mantissa * unit, (4 * x.mantissa + 2) * unit,
    Nat.pow 2 1076, x.mantissa % 2 = 0⟩

def Interval.contains (i : Interval) (n d : Nat) : Bool :=
  if i.closed then i.low * d ≤ n * i.denominator && n * i.denominator ≤ i.high * d
  else i.low * d < n * i.denominator && n * i.denominator < i.high * d

structure Scaled where
  significand : Nat
  exponent : Int

/-- The exponent of the leading digit of `n / d`. -/
def leading (n d : Nat) : Int :=
  if d ≤ n then (digits (n / d)).length - 1
  else -((digits ((d + n - 1) / n - 1)).length : Int)

/-- The multiple of `10 ^ exponent` in the interval that is nearest to its value, if one lies
in it. -/
def Interval.onGrid? (i : Interval) (exponent : Int) : Option Nat :=
  let up := Nat.pow 10 exponent.toNat
  let down := Nat.pow 10 (-exponent).toNat
  let floor := i.value * down / (i.denominator * up)
  let hits := [floor, floor + 1].filter fun c => i.contains (c * up) down
  match hits with
  | [] => none
  | [c] => some c
  | c :: _ =>
    -- twice the distance to the lower neighbour against one step of the grid
    let rest := 2 * (i.value * down - floor * i.denominator * up)
    let step := i.denominator * up
    if rest < step ∨ (rest = step ∧ c % 2 = 0) then some c else some (c + 1)

/-- The first hit on the grids of `n`, `n + 1`, … digits. -/
def Interval.search (i : Interval) (lead : Int) (n : Nat) : Nat → Scaled
  | 0 => ⟨i.value / i.denominator, 0⟩
  | fuel + 1 =>
    let exponent := lead - (n - 1 : Nat)
    match i.onGrid? exponent with
    | some c => ⟨c, exponent⟩
    | none => i.search lead (n + 1) fuel

def Double.shortest (x : Double) : Scaled :=
  if x.mantissa = 0 then ⟨0, 0⟩
  else
    let i := x.interval
    i.search (leading i.value i.denominator) 1 17

/-- Which decimals are written without an exponent. -/
structure Style where
  /-- The least and the greatest exponent of a leading digit that is written positionally. -/
  least : Int
  greatest : Int

def digitText (ds : List Nat) : String :=
  String.ofList (ds.map fun d => Char.ofNat (0x30 + d))

/-- The digits without the zeros at their end. -/
def dropZeros (ds : List Nat) : List Nat := (ds.reverse.dropWhile (· == 0)).reverse

/-- A decimal as text. A positional form always has a point with a digit behind it; an exponent
always has a sign. -/
def Scaled.text (style : Style) (x : Scaled) : String :=
  let all := digits x.significand
  let ds := if x.significand = 0 then [0] else dropZeros all
  let lead : Int := x.exponent + all.length - 1
  if style.least ≤ lead ∧ lead ≤ style.greatest then
    if lead < 0 then "0." ++ digitText (List.replicate (-lead - 1).toNat 0 ++ ds)
    else
      let whole := lead.toNat + 1
      let front := ds.take whole ++ List.replicate (whole - ds.length) 0
      let back := ds.drop whole
      digitText front ++ "." ++ (if back.isEmpty then "0" else digitText back)
  else
    let point := if ds.length ≤ 1 then "" else "." ++ digitText (ds.drop 1)
    digitText (ds.take 1) ++ point ++ (if lead < 0 then "e-" else "e+") ++
      digitText (digits lead.natAbs)

def Double.text (style : Style) (bits : UInt64) : String :=
  (if bits >>> 63 = 1 then "-" else "") ++ (Double.ofBits bits).shortest.text style

end Rerun.Decimal
