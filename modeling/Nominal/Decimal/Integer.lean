/-!
# Decimal integers

* `readNat`: digits as a number.
* `readInt`: the same with an optional sign.
* `narrow`: a number as a 64-bit word, when it fits.
-/

namespace Nominal.Decimal

/-- The value of a digit. -/
def digitValue (c : Char) : Nat := c.toNat - '0'.toNat

/-- The number that a run of digits stands for, the first digit counting most. -/
def valueOf (digits : List Char) : Nat :=
  digits.foldl (fun n c => 10 * n + digitValue c) 0

/-- The number written by one or more digits and nothing else. -/
def readNat (cs : List Char) : Option Nat :=
  if !cs.isEmpty && cs.all Char.isDigit then some (valueOf cs) else none

/-- The number written by an optional sign and one or more digits. -/
def readInt : List Char → Option Int
  | '-' :: cs => (readNat cs).map fun n => -(n : Int)
  | '+' :: cs => (readNat cs).map fun n => (n : Int)
  | cs => (readNat cs).map fun n => (n : Int)

/-- Whether a number fits a signed 64-bit word. -/
def Fits (n : Int) : Prop := Int64.minValue.toInt ≤ n ∧ n ≤ Int64.maxValue.toInt

instance (n : Int) : Decidable (Fits n) := inferInstanceAs (Decidable (_ ∧ _))

/-- A number as a word, unless it does not fit. -/
def narrow (n : Int) : Option Int64 := if Fits n then some (Int64.ofInt n) else none

end Nominal.Decimal
