import Nominal.Arithmetic.Conversion
import Nominal.Scope
import Nominal.Types

/-!
# The world

Everything that a program can see or change.

* `Host`: functions that the host has registered, with their state.
* `Output`: where printed lines go.
* `World`: scopes, types, host functions and output.
* `World.textOf`: the printed form of a value.
-/

namespace Nominal

/-- A function that the host has registered. -/
inductive Host where
  | constant (v : Value)
  /-- One of the arguments, counted from zero. -/
  | argument (index : Nat)
  | argumentCount
  /-- A number that grows by one with every call. -/
  | counter (next : Int64)
  /-- `True` for so many calls, then `False`. -/
  | countdown (left : Nat)
  | failure (cause : Cause)

/-- Where printed lines go. -/
inductive Output where
  | captured (text : String)
  | discarded
deriving DecidableEq

namespace Output

/-- The output with one more line. -/
def writeLine (o : Output) (line : String) : Output :=
  match o with
  | captured text => captured (text ++ line ++ "\n")
  | discarded => discarded

/-- What was captured. -/
def text : Output → String
  | captured text => text
  | discarded => ""

/-- The output with nothing captured. -/
def clear : Output → Output
  | captured _ => captured ""
  | discarded => discarded

end Output

/-- Everything that a program can see or change. -/
structure World where
  scopes : Scopes
  types : Types
  hosts : Array Host
  output : Output

namespace World

/-- A world with one scope, in which nothing is declared. -/
def empty (output : Output) : World := ⟨⟨#[.empty []]⟩, ⟨#[]⟩, #[], output⟩

/-- The name of the type of a value. -/
def typeName (w : World) (v : Value) : String := w.types.name v.type

/-- The printed form of a value. -/
def textOf (w : World) : Value → String
  | .plain _ datum => datum.text
  | .object t _ => s!"<{w.types.name t} object>"

/-- The constant of a value that must be of a builtin type. -/
def datumOf (w : World) (p : Primitive) (v : Value) : Except Cause Literal :=
  match v.datum? p with
  | some l => .ok l
  | none => .error (.payloadMismatch p.name (w.typeName v))

/-- The world with one more type. -/
def addType (w : World) (d : Descriptor) : World := { w with types := w.types.add d }

/-- The world with a new scope directly inside `n`. -/
def openChild (w : World) (n : ScopeId) : World := { w with scopes := w.scopes.child n }

/-- The world with a variable declared. -/
def declareVariable (w : World) (n : ScopeId) (name : String) (b : Binding) : World :=
  { w with scopes := w.scopes.declareVariable n name b }

/-- The world with a type declared. -/
def declareType (w : World) (n : ScopeId) (name : String) (t : TypeId) : World :=
  { w with scopes := w.scopes.declareType n name t }

/-- The world with a function declared. -/
def declareFunction (w : World) (n : ScopeId) (s : Signature) (o : Overload) : World :=
  { w with scopes := w.scopes.declareFunction n s o }

/-- The world with one more line of output. -/
def writeLine (w : World) (line : String) : World := { w with output := w.output.writeLine line }

end World

end Nominal
