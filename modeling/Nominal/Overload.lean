import Nominal.Signature
import Nominal.Syntax

/-!
# Callables

* `Builtin`: the operations of the prelude.
* `Callable`: a prelude operation, a function of the host, or a closure.
* `Overload`: a callable and its declared return type, the entry of a function or method table.
-/

namespace Nominal

/-- A scope, by the order in which scopes were opened. -/
abbrev ScopeId : Type := Nat

/-- A type descriptor, by the order in which types were built. -/
abbrev TypeId : Type := Nat

/-- The operations of the prelude. Constructors and operator methods get their receiver as the
first argument. -/
inductive Builtin where
  /-- The given constant, whatever the arguments. -/
  | fresh (value : Literal)
  /-- The second argument, which must be a `source`, as a `target`. -/
  | convert (source target : Primitive)
  /-- The printed form of the second argument. -/
  | render
  | binary (type : Primitive) (op : BinaryOp)
  | unary (type : Primitive) (op : UnaryOp)
  /-- Writing the printed form of the only argument as a line of output. -/
  | print

/-- What stands behind an entry of a function or method table. -/
inductive Callable where
  | builtin (operation : Builtin)
  | host (index : Nat)
  /-- A body with its parameter names, run in a new child of the scope it was defined in. -/
  | closure (params : List String) (body : Block) (scope : ScopeId)

/-- An entry of a function or method table. -/
structure Overload where
  ret : String
  callable : Callable

namespace Overload

/-- The closure of a free function defined in a scope. -/
def ofFunction (d : FuncDef) (scope : ScopeId) (ret : String) : Overload :=
  ⟨ret, .closure (d.params.map Param.name) d.body scope⟩

/-- The closure of a method of a type defined in a scope; the receiver comes first. -/
def ofMethod (d : FuncDef) (scope : ScopeId) (ret : String) : Overload :=
  ⟨ret, .closure (receiverName :: d.params.map Param.name) d.body scope⟩

end Overload

end Nominal
