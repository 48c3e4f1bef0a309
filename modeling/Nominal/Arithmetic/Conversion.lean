import Nominal.Decimal.FloatReading
import Nominal.Decimal.FloatText
import Nominal.Error
import Nominal.Literal
import Nominal.Text.WhiteSpace

/-!
# Conversions between the builtin types

* `Literal.text`: the printed form of a constant.
* `Literal.convert`: a constant as one of another builtin type.
-/

namespace Nominal

namespace Literal

/-- The printed form of a constant. -/
def text : Literal → String
  | .none => "None"
  | .bool true => "True"
  | .bool false => "False"
  | .int n => toString n.toInt
  | .float x => Decimal.floatText x
  | .string s => s

end Literal

namespace Conversion

/-- A float without its fraction, as long as that is a word. -/
def truncate (x : Float) : Except Cause Int64 :=
  let result := (Decimal.Binary.ofFloat? x).bind fun b =>
    Decimal.narrow (if b.negative then -(b.truncated : Int) else b.truncated)
  match result with
  | some n => .ok n
  | none => .error (.invalidConversion (Decimal.bareText x) Primitive.int.name)

/-- The integer that a text writes between optional white space. -/
def parseInt (s : String) : Except Cause Int64 :=
  match (Decimal.readInt (Text.trim s.toList)).bind Decimal.narrow with
  | some n => .ok n
  | none => .error (.invalidConversion s Primitive.int.name)

/-- The float that a text writes between optional white space. -/
def parseFloat (s : String) : Except Cause Float :=
  match Decimal.readFloat (Text.trim s.toList) with
  | some x => .ok x
  | none => .error (.invalidConversion s Primitive.float.name)

end Conversion

/-- A constant as one of the type `target`. -/
def Literal.convert (target : Primitive) (l : Literal) : Except Cause Literal :=
  match target, l with
  | .bool, .bool b => .ok (.bool b)
  | .int, .int n => .ok (.int n)
  | .int, .float x => (Conversion.truncate x).map .int
  | .int, .string s => (Conversion.parseInt s).map .int
  | .float, .float x => .ok (.float x)
  | .float, .int n => .ok (.float (Float.ofInt n.toInt))
  | .float, .string s => (Conversion.parseFloat s).map .float
  | .string, l => .ok (.string l.text)
  | .none, .none => .ok .none
  | target, l => .error (.payloadMismatch target.name l.primitive.name)

end Nominal
