import Nominal.Position
import Nominal.Signature

/-!
# Errors of the check and of the execution

* `Cause`: what went wrong, with its data.
* `Category`: the three families of causes.
* `EvalError`: a cause together with the position of the node it arose at.
* `EvalError.message`: the text shown for an error.
-/

namespace Nominal

/-- The families of causes. -/
inductive Category where
  | nameResolution
  | typeConflict
  | runtime
deriving DecidableEq, Repr

/-- The name of a family. -/
def Category.text : Category → String
  | .nameResolution => "NameResolutionError"
  | .typeConflict => "TypeConflictError"
  | .runtime => "RuntimeError"

/-- What went wrong. -/
inductive Cause where
  | undefinedVariable (name : String)
  | undefinedType (name : String)
  | undefinedFunction (signature : Signature)
  | undefinedMethod (type : String) (signature : Signature)
  | undefinedAttribute (type attr : String)
  /-- Two parents of the type inherit or have the method from different owners. -/
  | ambiguousMethod (type : String) (signature : Signature) (first second : String)
  | conflictingReturnTypes (first second : String)
  | returnTypeMismatch (function declared found : String)
  | initializerMismatch (name declared found : String)
  | conditionNotBool (found : String)
  | constructorReturnType (type found : String)
  | primitiveParent (type parent : String)
  | divisionByZero
  | moduloByZero
  /-- The exact result does not fit a word. -/
  | integerOverflow (operation : String)
  | invalidShift (amount : Int64)
  | invalidConversion (value target : String)
  /-- A variable that only has a static type was read. -/
  | unboundValue (name : String)
  | payloadMismatch (expected found : String)
  | arityMismatch (expected got : Nat)
  /-- A call ended without the value it is declared to return. -/
  | missingReturn (expected : String)
deriving DecidableEq

namespace Cause

/-- The family of a cause. -/
def category : Cause → Category
  | undefinedVariable _ | undefinedType _ | undefinedFunction _ | undefinedMethod ..
  | undefinedAttribute .. | ambiguousMethod .. => .nameResolution
  | conflictingReturnTypes .. | returnTypeMismatch .. | initializerMismatch .. | conditionNotBool _
  | constructorReturnType .. | primitiveParent .. => .typeConflict
  | divisionByZero | moduloByZero | integerOverflow _ | invalidShift _ | invalidConversion ..
  | unboundValue _ | payloadMismatch .. | arityMismatch .. | missingReturn _ => .runtime

/-- The wording of a cause. -/
def text : Cause → String
  | undefinedVariable name => s!"undefined variable '{name}'"
  | undefinedType name => s!"undefined type '{name}'"
  | undefinedFunction signature => s!"undefined function '{signature.text}'"
  | undefinedMethod type signature => s!"type '{type}' has no method '{signature.text}'"
  | undefinedAttribute type attr => s!"type '{type}' has no attribute '{attr}'"
  | ambiguousMethod type signature first second =>
    s!"method '{signature.text}' of type '{type}' is inherited from both '{first}' and '{second}'"
  | conflictingReturnTypes first second => s!"conflicting return types '{first}' and '{second}'"
  | returnTypeMismatch function declared found =>
    s!"function '{function}' is declared to return '{declared}' but returns '{found}'"
  | initializerMismatch name declared found =>
    s!"'{name}' is declared as '{declared}' but initialized with '{found}'"
  | conditionNotBool found => s!"condition must be 'Bool', found '{found}'"
  | constructorReturnType type found =>
    s!"constructor of '{type}' must return '{type}', found '{found}'"
  | primitiveParent type parent => s!"type '{type}' cannot inherit from builtin type '{parent}'"
  | divisionByZero => "division by zero"
  | moduloByZero => "modulo by zero"
  | integerOverflow operation => s!"integer overflow in '{operation}'"
  | invalidShift amount => s!"invalid shift amount {amount.toInt}"
  | invalidConversion value target => s!"cannot convert '{value}' to '{target}'"
  | unboundValue name => s!"variable '{name}' has no value"
  | payloadMismatch expected found => s!"expected a '{expected}' value, found '{found}'"
  | arityMismatch expected got => s!"expected {expected} arguments, got {got}"
  | missingReturn expected => s!"call ended without returning a '{expected}' value"

end Cause

/-- A cause and the position of the node that raised it. -/
structure EvalError where
  cause : Cause
  position : Option Position
deriving DecidableEq

namespace EvalError

/-- An error that has no position yet. -/
def ofCause (cause : Cause) : EvalError := ⟨cause, none⟩

/-- The error at a given position, whatever it had before. -/
def locate (e : EvalError) (p : Position) : EvalError := { e with position := some p }

/-- The error at the position it has, or else at the given one: the innermost position stays. -/
def orAt (e : EvalError) (p : Option Position) : EvalError :=
  { e with position := e.position.or p }

/-- The text shown for an error. -/
def message (e : EvalError) : String :=
  let place := match e.position with
    | some p => s!" at {p.text}"
    | none => ""
  s!"{e.cause.category.text}{place}: {e.cause.text}."

end EvalError

end Nominal
