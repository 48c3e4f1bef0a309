import Nominal.Decimal.Shortest

/-!
# The text of a float

* `floatText`: how a program prints a float.
* `bareText`: the shortest form alone, as error messages show it.
* `debugText`: the form in debug texts.
-/

namespace Nominal.Decimal

/-- The text of an infinity or of NaN. -/
def specialText (x : Float) : String :=
  if x.isNaN then "NaN" else if x < 0 then "-inf" else "inf"

/-- The sign in front of a magnitude. -/
def signText (negative : Bool) : String := if negative then "-" else ""

/-- The shortest decimal that reads back as the float, in positional notation however long. -/
def bareText (x : Float) : String :=
  match Binary.ofFloat? x with
  | none => specialText x
  | some b => signText b.negative ++ (shortest b).plain

/-- Magnitudes from here on are printed without a fraction. -/
def wholeLimit : Nat := 10000000000000000

/-- The printed form: a whole number below `wholeLimit` shows one fractional zero, so that it
differs from an integer; everything else is as short as `bareText`. -/
def floatText (x : Float) : String :=
  match Binary.ofFloat? x with
  | none => specialText x
  | some b =>
    match b.natural? with
    | some n =>
      if n < wholeLimit then signText b.negative ++ n.repr ++ ".0" else bareText x
    | none => bareText x

/-- The form in debug texts: positional from `1e-4` to below `1e16`, with a power of ten outside. -/
def debugText (x : Float) : String :=
  match Binary.ofFloat? x with
  | none => specialText x
  | some b =>
    let s := shortest b
    let power := s.exponent + s.digits.repr.length - 1
    if s.digits = 0 || (-4 ≤ power && power < 16) then
      signText b.negative ++ s.plain ++ (if 0 ≤ s.exponent then ".0" else "")
    else signText b.negative ++ s.scientific

end Nominal.Decimal
