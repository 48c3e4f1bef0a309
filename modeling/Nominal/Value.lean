import Nominal.Overload
import Nominal.Table

/-!
# Values

* `Value`: a value of a builtin type with its constant, or an object with its attributes.
* `Binding`: what a variable stands for, a static type during a check and a value when it runs.
-/

namespace Nominal

/-- A value and the type it is a value of. -/
inductive Value where
  | plain (type : TypeId) (datum : Literal)
  | object (type : TypeId) (attributes : List (String × Value))

namespace Value

/-- The type of a value. -/
def type : Value → TypeId
  | plain t _ | object t _ => t

/-- The same value seen as one of another type. An inherited method sees its receiver as a value of
the type that declares the method. -/
def viewAs (t : TypeId) : Value → Value
  | plain _ datum => plain t datum
  | object _ attributes => object t attributes

/-- An attribute of an object. -/
def attr? (name : String) : Value → Option Value
  | plain .. => none
  | object _ attributes => Table.find? attributes name

/-- The constant of a value, if it is one of a given builtin type. -/
def datum? (p : Primitive) : Value → Option Literal
  | plain _ datum => if datum.primitive = p then some datum else none
  | object .. => none

end Value

/-- What a variable stands for. -/
inductive Binding where
  | static (type : String)
  | value (v : Value)

end Nominal
