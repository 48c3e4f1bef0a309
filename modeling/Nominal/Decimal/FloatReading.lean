import Nominal.Decimal.Integer

/-!
# Reading floats

* `ofDecimal`: the float nearest to a decimal.
* `readFloat`: a sign, and the name of a special value or digits with an optional point and an
  optional exponent.
-/

namespace Nominal.Decimal

/-- The positive infinity. -/
def infinity : Float := 1 / 0

/-- The result of an operation without a result. -/
def notANumber : Float := 0 / 0

/-- The float nearest to `mantissa · 10 ^ exponent`. Beyond the range of floats the result is
infinite, far below it zero. -/
def ofDecimal (mantissa : Nat) (exponent : Int) : Float :=
  let size := exponent + mantissa.repr.length
  if mantissa = 0 || size < -400 then 0
  else if 400 < size then infinity
  else Float.ofScientific mantissa (exponent < 0) exponent.natAbs

/-- The exponent behind a mantissa: absent, or a mark, an optional sign and digits. -/
def readExponent : List Char → Option Int
  | [] => some 0
  | c :: cs => if c = 'e' || c = 'E' then readInt cs else none

/-- Digits with an optional point, at least one digit, and an optional exponent. -/
def readMagnitude (cs : List Char) : Option Float :=
  let whole := cs.takeWhile Char.isDigit
  let rest := cs.dropWhile Char.isDigit
  let (fraction, tail) := match rest with
    | '.' :: r => (r.takeWhile Char.isDigit, r.dropWhile Char.isDigit)
    | r => ([], r)
  if whole.isEmpty && fraction.isEmpty then none
  else
    (readExponent tail).map fun e => ofDecimal (valueOf (whole ++ fraction)) (e - fraction.length)

/-- A magnitude, or the name of a special value in letters of any case. -/
def readUnsigned (cs : List Char) : Option Float :=
  let lower := cs.map Char.toLower
  if lower = ['i', 'n', 'f'] || lower = ['i', 'n', 'f', 'i', 'n', 'i', 't', 'y'] then
    some infinity
  else if lower = ['n', 'a', 'n'] then some notANumber
  else readMagnitude cs

/-- The float written by an optional sign and a magnitude. -/
def readFloat : List Char → Option Float
  | '-' :: cs => (readUnsigned cs).map fun x => -x
  | '+' :: cs => readUnsigned cs
  | cs => readUnsigned cs

end Nominal.Decimal
