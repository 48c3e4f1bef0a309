import Nominal.Text.Quoted
import Nominal.World

/-!
# Debug texts

* `Scope.debugText`, `World.describeType`, `Overload.debugText`: scopes, types and callables in
  debug texts.
-/

namespace Nominal

/-- A record with named fields. -/
def debugRecord (name : String) (fields : List (String × String)) : String :=
  name ++ " \x7b " ++ ", ".intercalate (fields.map fun (k, v) => s!"{k}: {v}") ++ " \x7d"

/-- A list of names between brackets. -/
def debugNames (names : List String) : String :=
  "[" ++ ", ".intercalate (names.map Text.quoted) ++ "]"

/-- A scope by the sizes of its tables. -/
def Scope.debugText (s : Scope) : String :=
  debugRecord "Environment" [("variables", toString s.vars.length),
    ("types", toString s.types.length), ("functions", toString s.functions.length),
    ("has_parent", toString (!s.enclosing.isEmpty))]

/-- A type by what it declares itself. -/
def World.describeType (w : World) (t : TypeId) : String :=
  let d := w.types.get t
  debugRecord "TypeDetail" [("name", Text.quoted d.name), ("primitive", toString d.primitive),
    ("parents", debugNames (d.parents.map w.types.name)),
    ("attrs", debugNames (d.attributes.map Prod.fst)), ("methods", toString d.methods.length)]

/-- A callable by its parameter names, which only a closure has. -/
def Callable.debugText : Callable → String
  | builtin _ | host _ => "Native(..)"
  | closure params _ _ =>
    s!"Closure(Func \x7b params: {debugNames params}, .. \x7d)"

/-- A callable with its declared return type. -/
def Overload.debugText (o : Overload) : String :=
  debugRecord "Overload" [("ret", debugRecord "BasicType" [("name", Text.quoted o.ret)]),
    ("callable", o.callable.debugText)]

end Nominal
