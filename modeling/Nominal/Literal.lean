/-!
# Literals

The language has five builtin types. A literal is a constant of one of them; it is also what a
value of a builtin type carries.

* `Primitive`: the builtin types.
* `Literal`: their constants.
-/

namespace Nominal

/-- The builtin types. -/
inductive Primitive where
  | none | bool | int | float | string
deriving DecidableEq, Repr

/-- The name of a builtin type. -/
def Primitive.name : Primitive → String
  | .none => "None"
  | .bool => "Bool"
  | .int => "Int"
  | .float => "Float"
  | .string => "String"

/-- A constant of a builtin type. -/
inductive Literal where
  | none
  | bool (b : Bool)
  | int (n : Int64)
  | float (x : Float)
  | string (s : String)

namespace Literal

/-- The builtin type of a constant. -/
def primitive : Literal → Primitive
  | .none => .none
  | .bool _ => .bool
  | .int _ => .int
  | .float _ => .float
  | .string _ => .string

/-- Equality of constants, on floats by comparison: the two zeros are equal and NaN equals
nothing. -/
def equals : Literal → Literal → Bool
  | .none, .none => true
  | .bool a, .bool b => a == b
  | .int a, .int b => a == b
  | .float a, .float b => a == b
  | .string a, .string b => a == b
  | _, _ => false

end Literal

end Nominal
