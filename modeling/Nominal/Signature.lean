import Nominal.Operator

/-!
# Signatures

A callable is declared and looked up under its signature: its name, whether it has a receiver, and
the names of its parameter types. Two overloads differ in their signatures and in nothing else.

* `Signature`: the key of an overload.
* `Signature.text`: the key as diagnostics show it.
-/

namespace Nominal

/-- The key under which a callable is declared. -/
structure Signature where
  name : String
  /-- Whether the callable has a receiver, which `params` leaves out. -/
  receiver : Bool
  params : List String
deriving DecidableEq, Repr

/-- The name under which a method body sees its receiver. -/
def receiverName : String := "this"

/-- The name of every constructor. -/
def constructorName : String := "init"

namespace Signature

/-- A free function. -/
def function (name : String) (params : List String) : Signature := ⟨name, false, params⟩

/-- A method; `params` follow the receiver. -/
def method (name : String) (params : List String) : Signature := ⟨name, true, params⟩

/-- A constructor. -/
def constructor (params : List String) : Signature := method constructorName params

/-- The constructor without parameters, which default instances go through. -/
def defaultConstructor : Signature := constructor []

/-- A binary operator as a method of its left operand. -/
def binaryMethod (op : BinaryOp) (right : String) : Signature := method op.callableName [right]

/-- A binary operator as a free function. -/
def binaryFunction (op : BinaryOp) (left right : String) : Signature :=
  function op.callableName [left, right]

/-- A unary operator as a method of its operand. -/
def unaryMethod (op : UnaryOp) : Signature := method op.callableName []

/-- A unary operator as a free function. -/
def unaryFunction (op : UnaryOp) (operand : String) : Signature :=
  function op.callableName [operand]

/-- The name, the receiver and each parameter type, separated by single spaces. -/
def text (s : Signature) : String :=
  let receiver := if s.receiver then [receiverName] else []
  " ".intercalate (s.name :: receiver ++ s.params)

end Signature

end Nominal
