import Nominal.Decimal.Binary

/-!
# The shortest decimal of a float

Between a float and its two neighbours lies the interval of the numbers that round to it. Of the
decimal grids of step `10 ^ k` the coarsest one with a point in that interval gives the decimal
with the fewest digits that still reads back as the float.

* `Interval`: the numbers that round to a float.
* `Decimal.shortest`: the decimal on the coarsest grid, the nearest one if the grid has two.
* `plain`, `scientific`: layouts of a decimal.
-/

namespace Nominal.Decimal

/-- A decimal `digits · 10 ^ exponent` without sign. -/
structure Scaled where
  digits : Nat
  exponent : Int
deriving DecidableEq, Repr

/-- The numbers that round to a float, over a common denominator. -/
structure Interval where
  low : Nat
  value : Nat
  high : Nat
  denominator : Nat
  /-- Whether the ends round to the float too. -/
  closed : Bool

namespace Interval

/-- The numbers that round to a float, ties going to an even mantissa. Below a power of two the
next float is half as far away as above it. -/
def ofBinary (b : Binary) : Interval :=
  let below := if b.mantissa = (1 <<< 52) && b.exponent ≠ Binary.minExponent then 1 else 2
  let shift := b.exponent - 2
  let unit := 1 <<< shift.toNat
  ⟨(4 * b.mantissa - below) * unit, 4 * b.mantissa * unit, (4 * b.mantissa + 2) * unit,
    1 <<< (-shift).toNat, b.mantissa % 2 == 0⟩

/-- The interval measured in steps of `10 ^ k`. -/
def scale (i : Interval) (k : Int) : Interval :=
  let up := Nat.pow 10 (-k).toNat
  { i with
    low := i.low * up, value := i.value * up, high := i.high * up
    denominator := i.denominator * Nat.pow 10 k.toNat }

/-- Whether a whole number lies in the interval. -/
def contains (i : Interval) (n : Nat) : Bool :=
  let x := n * i.denominator
  if i.closed then i.low ≤ x && x ≤ i.high else i.low < x && x < i.high

/-- The whole number of the interval that is nearest to the float, the upper one of two equally
near ones. The two neighbours of the float are enough to look at. -/
def nearest? (i : Interval) : Option Nat :=
  let d := i.value / i.denominator
  let half := 2 * (i.value % i.denominator)
  match i.contains d, i.contains (d + 1) with
  | true, true => some (if half < i.denominator then d else d + 1)
  | true, false => some d
  | false, true => some (d + 1)
  | false, false => none

/-- The decimal in the interval on the coarsest of the grids `10 ^ k`, `10 ^ (k - 1)`, …; `steps`
grids are tried. -/
def search (i : Interval) : (steps : Nat) → (k : Int) → Option Scaled
  | 0, _ => none
  | steps + 1, k =>
    match (i.scale k).nearest? with
    | some d => some ⟨d, k⟩
    | none => i.search steps (k - 1)

/-- The place of the first digit of the float, for a float that is not zero. -/
def leading (i : Interval) : Int :=
  if i.denominator ≤ i.value then ((i.value / i.denominator).repr.length : Int) - 1
  else -((((i.denominator - 1) / i.value).repr.length : Nat) : Int)

end Interval

/-- The shortest decimal that rounds to the magnitude of a finite float. Seventeen digits always
are enough. -/
def shortest (b : Binary) : Scaled :=
  if b.mantissa = 0 then ⟨0, 0⟩
  else
    let i := Interval.ofBinary b
    (i.search 20 (i.leading + 1)).getD ⟨0, 0⟩

/-- A decimal in positional notation, without a point when it has no fraction. -/
def Scaled.plain (s : Scaled) : String :=
  let digits := s.digits.repr
  if 0 ≤ s.exponent then digits ++ "".pushn '0' s.exponent.toNat
  else
    let places := (-s.exponent).toNat
    let padded := "".pushn '0' (places + 1 - digits.length) ++ digits
    let whole := padded.length - places
    String.ofList (padded.toList.take whole) ++ "." ++ String.ofList (padded.toList.drop whole)

/-- A decimal with one digit in front of the point, or no point, and a power of ten. -/
def Scaled.scientific (s : Scaled) : String :=
  let digits := s.digits.repr
  let power := s.exponent + digits.length - 1
  let fraction := digits.toList.drop 1
  let point := if fraction.isEmpty then "" else "."
  s!"{String.ofList (digits.toList.take 1)}{point}{String.ofList fraction}e{power}"

end Nominal.Decimal
