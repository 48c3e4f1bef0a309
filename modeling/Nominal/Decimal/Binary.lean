/-!
# The exact value of a float

* `Binary`: a sign, a mantissa and a power of two.
* `Binary.ofFloat?`: a finite float in that form.
* `Binary.natural?`: the magnitude, when it is a whole number.
* `Binary.toFloat`: the float of a sign, mantissa and exponent.
-/

namespace Nominal.Decimal

/-- The number `± mantissa · 2 ^ exponent`. -/
structure Binary where
  /-- Whether the sign is minus, for zero too. -/
  negative : Bool
  mantissa : Nat
  exponent : Int
deriving DecidableEq, Repr

namespace Binary

/-- The exponent of the smallest floats. -/
def minExponent : Int := -1074

/-- The bits of a float taken apart; `none` for the infinities and NaN. -/
def ofBits? (bits : Nat) : Option Binary :=
  let negative := (bits >>> 63) % 2 == 1
  let biased : Nat := (bits >>> 52) % (1 <<< 11)
  let fraction := bits % (1 <<< 52)
  if biased = (1 <<< 11) - 1 then none
  else if biased = 0 then some ⟨negative, fraction, minExponent⟩
  else some ⟨negative, (1 <<< 52) + fraction, (biased : Int) - 1 + minExponent⟩

/-- The exact value of a finite float. -/
def ofFloat? (x : Float) : Option Binary := ofBits? x.toBits.toNat

/-- The magnitude as a whole number, unless it has a fraction. -/
def natural? (b : Binary) : Option Nat :=
  if 0 ≤ b.exponent then some (b.mantissa <<< b.exponent.toNat)
  else
    let unit := 1 <<< (-b.exponent).toNat
    if b.mantissa % unit = 0 then some (b.mantissa / unit) else none

/-- The whole part of the magnitude. -/
def truncated (b : Binary) : Nat :=
  if 0 ≤ b.exponent then b.mantissa <<< b.exponent.toNat
  else b.mantissa >>> (-b.exponent).toNat

/-- The bits of a number whose mantissa has at most 53 digits: the mantissa is moved to the left
until it fills them or the exponent is the smallest. -/
def toBits (negative : Bool) : (mantissa shifts : Nat) → Nat
  | mantissa, shifts =>
    let sign := if negative then 1 <<< 63 else 0
    let room := min (53 - (Nat.log2 mantissa + 1)) shifts
    let mantissa := mantissa <<< room
    if mantissa < (1 <<< 52) then sign + mantissa
    else sign + ((shifts - room + 1) <<< 52) + (mantissa - (1 <<< 52))

/-- The float with a given value, for a mantissa of at most 53 binary digits and an exponent that
is not below the smallest. -/
def toFloat (b : Binary) : Float :=
  Float.ofBits (toBits b.negative b.mantissa (b.exponent - minExponent).toNat).toUInt64

end Binary

end Nominal.Decimal
