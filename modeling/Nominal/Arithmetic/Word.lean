import Nominal.Decimal.Integer
import Nominal.Error
import Nominal.Literal

/-!
# Integer operations

Integers are signed 64-bit words. An operation gives the exact result or fails; nothing wraps.
Division rounds towards minus infinity, so a remainder has the sign of its divisor.

* `Word.add`, `Word.sub`, `Word.mul`, `Word.neg`: exact or `integerOverflow`.
* `Word.floorDiv`, `Word.floorMod`: division and remainder.
* `Word.shiftLeft`, `Word.shiftRight`: multiplication and division by powers of two.
* `Word.binary`, `Word.unary`: the operators of `Int`.
-/

namespace Nominal.Word

/-- The exact result of an operation as a word. -/
def exact (operation : String) (n : Int) : Except Cause Int64 :=
  match Decimal.narrow n with
  | some n => .ok n
  | none => .error (.integerOverflow operation)

/-- The sum. -/
def add (a b : Int64) : Except Cause Int64 := exact "+" (a.toInt + b.toInt)

/-- The difference. -/
def sub (a b : Int64) : Except Cause Int64 := exact "-" (a.toInt - b.toInt)

/-- The product. -/
def mul (a b : Int64) : Except Cause Int64 := exact "*" (a.toInt * b.toInt)

/-- The number with the opposite sign. -/
def neg (a : Int64) : Except Cause Int64 := exact "unary -" (-a.toInt)

/-- The quotient rounded down. Division of words rounds towards zero; it is corrected by one when
it is not exact and the signs differ. -/
def floorDiv (a b : Int64) : Except Cause Int64 :=
  if b = 0 then .error .divisionByZero
  else if a = Int64.minValue ∧ b = -1 then .error (.integerOverflow "/")
  else if a % b ≠ 0 ∧ decide (a < 0) ≠ decide (b < 0) then .ok (a / b - 1)
  else .ok (a / b)

/-- The remainder of the quotient rounded down. The remainder of words has the sign of the
dividend; it is corrected by the divisor when it is not zero and the signs differ. -/
def floorMod (a b : Int64) : Except Cause Int64 :=
  if b = 0 then .error .moduloByZero
  else
    let r := a % b
    if r ≠ 0 ∧ decide (r < 0) ≠ decide (b < 0) then .ok (r + b) else .ok r

/-- The product with a power of two. A shift lost no bits when shifting back undoes it. -/
def shiftLeft (a b : Int64) : Except Cause Int64 :=
  if b < 0 then .error (.invalidShift b)
  else if a = 0 then .ok 0
  else if 64 ≤ b then .error (.integerOverflow "<<")
  else
    let shifted := a <<< b
    if shifted >>> b = a then .ok shifted else .error (.integerOverflow "<<")

/-- The quotient by a power of two, rounded down. From 63 on only the sign is left. -/
def shiftRight (a b : Int64) : Except Cause Int64 :=
  if b < 0 then .error (.invalidShift b)
  else .ok (a >>> (if 63 ≤ b then 63 else b))

/-- The error for an operator that `Int` does not have. -/
def undefinedBinary (op : BinaryOp) : Cause :=
  .undefinedFunction (.binaryFunction op Primitive.int.name Primitive.int.name)

/-- The binary operators of `Int`. -/
def binary (op : BinaryOp) (a b : Int64) : Except Cause Literal :=
  match op with
  | .add => (add a b).map .int
  | .sub => (sub a b).map .int
  | .mul => (mul a b).map .int
  | .div => (floorDiv a b).map .int
  | .mod => (floorMod a b).map .int
  | .shl => (shiftLeft a b).map .int
  | .shr => (shiftRight a b).map .int
  | .bitAnd => .ok (.int (a &&& b))
  | .bitOr => .ok (.int (a ||| b))
  | .bitXor => .ok (.int (a ^^^ b))
  | .eq => .ok (.bool (a == b))
  | .ne => .ok (.bool (a != b))
  | .lt => .ok (.bool (a < b))
  | .le => .ok (.bool (a ≤ b))
  | .gt => .ok (.bool (b < a))
  | .ge => .ok (.bool (b ≤ a))
  | .and | .or => .error (undefinedBinary op)

/-- The unary operators of `Int`. -/
def unary (op : UnaryOp) (a : Int64) : Except Cause Literal :=
  match op with
  | .pos => .ok (.int a)
  | .neg => (neg a).map .int
  | .inv => .ok (.int (~~~a))
  | .not => .error (.undefinedFunction (.unaryFunction op Primitive.int.name))

end Nominal.Word
