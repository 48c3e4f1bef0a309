/-!
# Operators

* `BinaryOp`, `UnaryOp`: the operators of the language.
* `BinaryOp.symbol`: how an operator is written.
* `BinaryOp.callableName`: the name under which an operator is declared and looked up.
* `BinaryOp.precedence`: how tightly an operator binds.
-/

namespace Nominal

/-- Operators between two operands. -/
inductive BinaryOp where
  | add | sub | mul | div | mod
  | eq | ne | lt | le | gt | ge
  | and | or
  | bitAnd | bitOr | bitXor
  | shl | shr
deriving DecidableEq, Repr

/-- Operators in front of one operand. -/
inductive UnaryOp where
  | pos | neg | not | inv
deriving DecidableEq, Repr

namespace BinaryOp

/-- The operators, each once. -/
def all : List BinaryOp :=
  [.add, .sub, .mul, .div, .mod, .eq, .ne, .lt, .le, .gt, .ge, .and, .or, .bitAnd, .bitOr, .bitXor,
    .shl, .shr]

/-- The written form. -/
def symbol : BinaryOp → String
  | .add => "+"
  | .sub => "-"
  | .mul => "*"
  | .div => "/"
  | .mod => "%"
  | .eq => "=="
  | .ne => "!="
  | .lt => "<"
  | .le => "<="
  | .gt => ">"
  | .ge => ">="
  | .and => "&&"
  | .or => "||"
  | .bitAnd => "&"
  | .bitOr => "|"
  | .bitXor => "^"
  | .shl => "<<"
  | .shr => ">>"

/-- The operator written as `s`. -/
def ofSymbol? (s : String) : Option BinaryOp := all.find? fun op => op.symbol = s

/-- The name of the functions and methods that give the operator its meaning. -/
def callableName (op : BinaryOp) : String := "operator" ++ op.symbol

/-- Binding strength: an operator of greater precedence takes its operands first. -/
def precedence : BinaryOp → Nat
  | .mul | .div | .mod => 100
  | .add | .sub => 99
  | .shl | .shr => 98
  | .eq | .ne => 97
  | .lt | .le | .gt | .ge => 96
  | .bitAnd => 95
  | .bitXor => 94
  | .bitOr => 93
  | .and => 92
  | .or => 91

end BinaryOp

namespace UnaryOp

/-- The operators, each once. -/
def all : List UnaryOp := [.pos, .neg, .not, .inv]

/-- The written form. -/
def symbol : UnaryOp → String
  | .pos => "+"
  | .neg => "-"
  | .not => "!"
  | .inv => "~"

/-- The operator written as `s`. -/
def ofSymbol? (s : String) : Option UnaryOp := all.find? fun op => op.symbol = s

/-- The name of the functions and methods that give the operator its meaning. -/
def callableName (op : UnaryOp) : String := "operator" ++ op.symbol

end UnaryOp

end Nominal
