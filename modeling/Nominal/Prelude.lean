import Nominal.World

/-!
# The prelude

The builtin types and the functions that print. They are ordinary declarations: a program may
declare the same names again in an inner scope.

* `Primitive.binaryOps`, `Primitive.unaryOps`, `Primitive.sources`: the operators of a builtin type
  and what it can be made of.
* `Primitive.descriptor`: a builtin type.
* `World.install`: the declarations of the prelude in a scope.
-/

namespace Nominal

namespace Primitive

/-- The binary operators of a builtin type between two of its values, with their result types. -/
def binaryOps : Primitive → List (BinaryOp × Primitive)
  | none => []
  | bool => [(.eq, bool), (.ne, bool), (.and, bool), (.or, bool)]
  | int =>
    [(.add, int), (.sub, int), (.mul, int), (.div, int), (.mod, int), (.shl, int), (.shr, int),
      (.bitAnd, int), (.bitOr, int), (.bitXor, int), (.eq, bool), (.ne, bool), (.lt, bool),
      (.gt, bool), (.le, bool), (.ge, bool)]
  | float =>
    [(.add, float), (.sub, float), (.mul, float), (.div, float), (.mod, float), (.eq, bool),
      (.ne, bool), (.lt, bool), (.gt, bool), (.le, bool), (.ge, bool)]
  | string => [(.add, string), (.eq, bool), (.ne, bool)]

/-- The unary operators of a builtin type; the result has the same type. -/
def unaryOps : Primitive → List UnaryOp
  | none | string => []
  | bool => [.not]
  | int => [.pos, .neg, .inv]
  | float => [.pos, .neg]

/-- The builtin types that a constructor takes a value of. -/
def sources : Primitive → List Primitive
  | none => []
  | bool => [bool]
  | int => [int, float, string]
  | float => [float, int, string]
  | string => [string, int, float, bool]

/-- The value of a default instance. -/
def zero : Primitive → Literal
  | none => .none
  | bool => .bool false
  | int => .int 0
  | float => .float 0
  | string => .string ""

/-- The operation behind a constructor. A text is made of the printed form. -/
def conversion (target source : Primitive) : Builtin :=
  if target = string then .render else .convert source target

/-- The methods of a builtin type. -/
def methods (p : Primitive) : Table Signature Overload :=
  [(Signature.defaultConstructor, ⟨p.name, .builtin (.fresh p.zero)⟩)]
  ++ p.sources.map (fun source =>
    (Signature.constructor [source.name], ⟨p.name, .builtin (p.conversion source)⟩))
  ++ p.binaryOps.map (fun (op, result) =>
    (Signature.binaryMethod op p.name, ⟨result.name, .builtin (.binary p op)⟩))
  ++ p.unaryOps.map (fun op => (Signature.unaryMethod op, ⟨p.name, .builtin (.unary p op)⟩))

/-- A builtin type. -/
def descriptor (p : Primitive) : Descriptor := ⟨p.name, true, [], [], p.methods⟩

/-- The builtin types, each once. -/
def all : List Primitive := [none, bool, int, float, string]

end Primitive

namespace World

/-- The world with a builtin type declared in a scope. -/
def installType (n : ScopeId) (w : World) (p : Primitive) : World :=
  (w.addType p.descriptor).declareType n p.name w.types.next

/-- The world with the function that prints values of a builtin type declared in a scope. -/
def installPrint (n : ScopeId) (w : World) (p : Primitive) : World :=
  w.declareFunction n (.function "print" [p.name]) ⟨Primitive.none.name, .builtin .print⟩

/-- The world with the prelude declared in a scope. -/
def install (w : World) (n : ScopeId) : World :=
  Primitive.all.foldl (installPrint n) (Primitive.all.foldl (installType n) w)

end World

end Nominal
