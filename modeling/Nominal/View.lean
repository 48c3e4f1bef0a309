import Nominal.Arithmetic.Conversion
import Nominal.Text.Quoted
import Nominal.Types

/-!
# Views of values

A view is what can be seen of a value from outside: type names in place of types, and attributes in
the order of their names.

* `View`, `Value.view`: the view of a value.
* `View.equals`: equality of values, by type name and by constant or attributes.
* `View.text`, `View.debugText`: the printed form and the form in debug texts.
-/

namespace Nominal

/-- What can be seen of a value. -/
inductive View where
  | plain (type : String) (datum : Literal)
  /-- The attributes of an object in the order of their names, and the name of its type. -/
  | object (type : String) (attributes : List (String × View))

/-- Attributes in the order of their names. -/
def sortByName {α : Type} (entries : List (String × α)) : List (String × α) :=
  entries.mergeSort fun a b => decide (a.1 ≤ b.1)

mutual

/-- The view of a value. -/
def Value.view (ts : Types) (v : Value) : View :=
  match v with
  | .plain t datum => .plain (ts.name t) datum
  | .object t attributes => .object (ts.name t) (sortByName (viewAttributes ts attributes))

/-- The views of attributes, in the same order. -/
def viewAttributes (ts : Types) (attributes : List (String × Value)) : List (String × View) :=
  match attributes with
  | [] => []
  | (name, v) :: rest => (name, v.view ts) :: viewAttributes ts rest

end

namespace View

mutual

/-- Equality: the same type name, and equal constants or the same attributes with equal values. -/
def equals (a b : View) : Bool :=
  match a, b with
  | plain s l, plain t r => s == t && l.equals r
  | object s as, object t bs => s == t && equalAttributes as bs
  | _, _ => false

/-- Equality of attributes in the order of their names. -/
def equalAttributes (as bs : List (String × View)) : Bool :=
  match as, bs with
  | [], [] => true
  | (x, a) :: as, (y, b) :: bs => x == y && a.equals b && equalAttributes as bs
  | _, _ => false

end

/-- The printed form. -/
def text : View → String
  | plain _ datum => datum.text
  | object type _ => s!"<{type} object>"

/-- A constant in debug texts. -/
def debugLiteral : Literal → String
  | .none => "None"
  | .bool b => s!"Bool({b})"
  | .int n => s!"Int({n.toInt})"
  | .float x => s!"Float({Decimal.debugText x})"
  | .string s => s!"Str({Text.quoted s})"

/-- A value in debug texts, around the text of what it carries. -/
def record (type payload : String) : String :=
  "Value \x7b ty: " ++ Text.quoted type ++ ", payload: " ++ payload ++ " \x7d"

mutual

/-- The form in debug texts. -/
def debugText (v : View) : String :=
  match v with
  | plain type datum => record type (debugLiteral datum)
  | object type attributes =>
    record type ("Object(\x7b" ++ ", ".intercalate (debugAttributes attributes) ++ "\x7d)")

/-- The attributes in debug texts. -/
def debugAttributes (attributes : List (String × View)) : List String :=
  match attributes with
  | [] => []
  | (name, v) :: rest => s!"{Text.quoted name}: {v.debugText}" :: debugAttributes rest

end

end View

end Nominal
