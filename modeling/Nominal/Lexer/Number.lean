import Nominal.Decimal.FloatReading
import Nominal.Lexer.Fault
import Nominal.Literal

/-!
# Numbers

A number in a source text is the longest run of digits and dots behind a first digit.

* `Number.isPart`: the characters of a run.
* `Number.classify`: the constant that a run writes.
-/

namespace Nominal.Number

/-- The characters that a number goes on with. -/
def isPart (c : Char) : Bool := c.isDigit || c == '.'

/-- The constant that a run of digits and dots writes: an integer without a dot, a float with one
dot. -/
def classify (run : List Char) : Except LexFault Literal :=
  match run.count '.' with
  | 0 =>
    match Decimal.narrow (Decimal.valueOf run) with
    | some n => .ok (.int n)
    | none => .error (.intOverflow (String.ofList run))
  | 1 =>
    match Decimal.readFloat run with
    | some x => .ok (.float x)
    | none => .error .tooManyDots
  | _ => .error .tooManyDots

end Nominal.Number
