import Nominal.Literal
import Nominal.Operator
import Nominal.Position

/-!
# Syntax trees

Programs arrive as trees. Expressions, statements and function definitions may each know where
they stand in a source text; positions only serve messages.

* `Expr`: expressions.
* `Stmt`, `Branch`, `FuncDef`, `TypeDef`: statements and definitions.
* `Block`: a sequence of statements; a program is a block.
-/

namespace Nominal

/-- Expressions, each with the position it may have. -/
inductive Expr where
  | literal (position : Option Position) (value : Literal)
  | var (position : Option Position) (name : String)
  | binary (position : Option Position) (op : BinaryOp) (left right : Expr)
  | unary (position : Option Position) (op : UnaryOp) (operand : Expr)
  /-- A call of a function, or of a constructor by the name of its type. -/
  | call (position : Option Position) (callee : String) (args : List Expr)
  | methodCall (position : Option Position) (receiver : Expr) (method : String) (args : List Expr)
  | attr (position : Option Position) (object : Expr) (name : String)

/-- A parameter with its type annotation. -/
structure Param where
  name : String
  type : String
deriving DecidableEq, Repr

/-- An attribute in a type definition. -/
structure AttributeDef where
  name : String
  type : String
  /-- The default value; without one the attribute starts as a default instance of its type. -/
  init : Option Expr

mutual

/-- Statements, each with the position it may have. -/
inductive Stmt where
  | expr (position : Option Position) (e : Expr)
  | declareVar (position : Option Position) (name type : String) (init : Option Expr)
  | defineFunc (position : Option Position) (definition : FuncDef)
  | defineType (position : Option Position) (definition : TypeDef)
  | ifElse (position : Option Position) (branches : List Branch) (default : Option (List Stmt))
  | whileLoop (position : Option Position) (condition : Expr) (body : List Stmt)
  | returns (position : Option Position) (value : Option Expr)
  | breakLoop (position : Option Position)
  | continueLoop (position : Option Position)

/-- A condition and the block it guards. -/
inductive Branch where
  | mk (condition : Expr) (body : List Stmt)

/-- A function or method definition. A missing return type stands for `None`. -/
inductive FuncDef where
  | mk (position : Option Position) (name : String) (params : List Param) (ret : Option String)
    (body : List Stmt)

/-- A type definition. -/
inductive TypeDef where
  | mk (name : String) (parents : List String) (attributes : List AttributeDef)
    (methods : List FuncDef)

end

/-- A sequence of statements. -/
abbrev Block : Type := List Stmt

namespace Expr

/-- Where an expression stands. -/
def position : Expr → Option Position
  | literal p _ | var p _ | binary p .. | unary p .. | call p .. | methodCall p .. | attr p .. => p

/-- The same expression at another position. -/
def withPosition (p : Option Position) : Expr → Expr
  | literal _ value => literal p value
  | var _ name => var p name
  | binary _ op left right => binary p op left right
  | unary _ op operand => unary p op operand
  | call _ callee args => call p callee args
  | methodCall _ receiver method args => methodCall p receiver method args
  | attr _ object name => attr p object name

end Expr

namespace Stmt

/-- Where a statement stands. -/
def position : Stmt → Option Position
  | expr p _ | declareVar p .. | defineFunc p _ | defineType p _ | ifElse p .. | whileLoop p ..
  | returns p _ | breakLoop p | continueLoop p => p

/-- The same statement at another position; positions inside it are kept. -/
def withPosition (p : Option Position) : Stmt → Stmt
  | expr _ e => expr p e
  | declareVar _ name type init => declareVar p name type init
  | defineFunc _ definition => defineFunc p definition
  | defineType _ definition => defineType p definition
  | ifElse _ branches default => ifElse p branches default
  | whileLoop _ condition body => whileLoop p condition body
  | returns _ value => returns p value
  | breakLoop _ => breakLoop p
  | continueLoop _ => continueLoop p

end Stmt

namespace FuncDef

/-- Where the definition stands. -/
def position : FuncDef → Option Position
  | mk p .. => p

/-- The name that is defined. -/
def name : FuncDef → String
  | mk _ name .. => name

/-- The parameters, without the receiver of a method. -/
def params : FuncDef → List Param
  | mk _ _ params .. => params

/-- The name of the declared return type. -/
def returnType : FuncDef → String
  | mk _ _ _ ret _ => ret.getD Primitive.none.name

/-- The annotated return type, if there is one. -/
def ret : FuncDef → Option String
  | mk _ _ _ ret _ => ret

/-- The statements of the body. -/
def body : FuncDef → Block
  | mk _ _ _ _ body => body

end FuncDef

namespace TypeDef

/-- The name that is defined. -/
def name : TypeDef → String
  | mk name .. => name

/-- The names of the parent types, in order. -/
def parents : TypeDef → List String
  | mk _ parents .. => parents

/-- The attributes, in order. -/
def attributes : TypeDef → List AttributeDef
  | mk _ _ attributes _ => attributes

/-- The methods, in order. -/
def methods : TypeDef → List FuncDef
  | mk _ _ _ methods => methods

end TypeDef

end Nominal
