import Nominal.Arithmetic.Floating
import Nominal.Arithmetic.Word

/-!
# The operators of the builtin types

* `Literal.binary`, `Literal.unary`: an operator applied to constants.
-/

namespace Nominal

/-- The binary operators of `Bool`. Both operands are known, so `&&` and `||` do not cut short. -/
def Truth.binary (op : BinaryOp) (a b : Bool) : Except Cause Literal :=
  match op with
  | .eq => .ok (.bool (a == b))
  | .ne => .ok (.bool (a != b))
  | .and => .ok (.bool (a && b))
  | .or => .ok (.bool (a || b))
  | _ => .error (.undefinedFunction (.binaryFunction op Primitive.bool.name Primitive.bool.name))

/-- The binary operators of `String`. -/
def Text.binary (op : BinaryOp) (a b : String) : Except Cause Literal :=
  match op with
  | .add => .ok (.string (a ++ b))
  | .eq => .ok (.bool (a == b))
  | .ne => .ok (.bool (a != b))
  | _ =>
    .error (.undefinedFunction (.binaryFunction op Primitive.string.name Primitive.string.name))

namespace Literal

/-- A binary operator applied to two constants of one type. -/
def binary (op : BinaryOp) : Literal → Literal → Except Cause Literal
  | .bool a, .bool b => Truth.binary op a b
  | .int a, .int b => Word.binary op a b
  | .float a, .float b => Floating.binary op a b
  | .string a, .string b => Text.binary op a b
  | l, r => .error (.undefinedFunction (.binaryFunction op l.primitive.name r.primitive.name))

/-- A unary operator applied to a constant. -/
def unary (op : UnaryOp) : Literal → Except Cause Literal
  | .bool a =>
    match op with
    | .not => .ok (.bool (!a))
    | _ => .error (.undefinedFunction (.unaryFunction op Primitive.bool.name))
  | .int a => Word.unary op a
  | .float a => Floating.unary op a
  | l => .error (.undefinedFunction (.unaryFunction op l.primitive.name))

end Literal

end Nominal
