import Nominal.Decimal.Binary
import Nominal.Error
import Nominal.Literal

/-!
# Float operations

* `Floating.remainder`: the exact remainder of the quotient rounded towards zero.
* `Floating.floorMod`: the remainder with the sign of the divisor.
* `Floating.binary`, `Floating.unary`: the operators of `Float`.
-/

namespace Nominal.Floating

open Decimal (Binary)

/-- The remainder of two numbers `± m · 2 ^ e`, the divisor not zero. It has the sign of the
dividend and is never rounded. -/
def remainderOf (a b : Binary) : Binary :=
  let e := min a.exponent b.exponent
  let m := a.mantissa <<< (a.exponent - e).toNat
  let n := b.mantissa <<< (b.exponent - e).toNat
  ⟨a.negative, m % n, e⟩

/-- The remainder of floats, the divisor not zero: there is none of an infinite dividend, and an
infinite divisor leaves the dividend as it is. -/
def remainder (a b : Float) : Float :=
  match Binary.ofFloat? a, Binary.ofFloat? b with
  | some x, some y => (remainderOf x y).toFloat
  | some _, none => if b.isNaN then b else a
  | none, _ => 0 / 0

/-- The remainder with the sign of the divisor. -/
def floorMod (a b : Float) : Except Cause Float :=
  if b == 0 then .error .moduloByZero
  else
    let r := remainder a b
    if r != 0 && (decide (r < 0) != decide (b < 0)) then .ok (r + b) else .ok r

/-- The quotient. -/
def div (a b : Float) : Except Cause Float :=
  if b == 0 then .error .divisionByZero else .ok (a / b)

/-- The binary operators of `Float`. -/
def binary (op : BinaryOp) (a b : Float) : Except Cause Literal :=
  match op with
  | .add => .ok (.float (a + b))
  | .sub => .ok (.float (a - b))
  | .mul => .ok (.float (a * b))
  | .div => (div a b).map .float
  | .mod => (floorMod a b).map .float
  | .eq => .ok (.bool (a == b))
  | .ne => .ok (.bool (a != b))
  | .lt => .ok (.bool (a < b))
  | .le => .ok (.bool (a ≤ b))
  | .gt => .ok (.bool (b < a))
  | .ge => .ok (.bool (b ≤ a))
  | .and | .or | .bitAnd | .bitOr | .bitXor | .shl | .shr =>
    .error (.undefinedFunction
      (.binaryFunction op Primitive.float.name Primitive.float.name))

/-- The unary operators of `Float`. -/
def unary (op : UnaryOp) (a : Float) : Except Cause Literal :=
  match op with
  | .pos => .ok (.float a)
  | .neg => .ok (.float (-a))
  | .not | .inv => .error (.undefinedFunction (.unaryFunction op Primitive.float.name))

end Nominal.Floating
