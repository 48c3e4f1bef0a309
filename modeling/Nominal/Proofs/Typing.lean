import Nominal.Check
import Nominal.Proofs.Glossary

/-!
# Typing by name

What the check finds out about a program, without the world that it works in: every expression has a
type, given by name, in a context that tells what is visible. A body has a type in the context in
which it is defined, and it keeps this type when it runs later, as long as what was visible then
stays visible with the same types. So a block must not give another type to a variable that an
earlier definition in the block may have captured.

* `Context`: the visible variables with their types, and the visible types and functions.
* `Expr.HasType`, `Stmt.Typed`: the typing rules.
* `Stmt.Steady`: captured variables keep their types.
-/

namespace Nominal

/-! ## Definitions by name -/

def FuncDef.bindings (d : FuncDef) : List (String × String) :=
  d.params.map fun p => (p.name, p.type)

def FuncDef.signature (d : FuncDef) : Signature := .function d.name (d.params.map Param.type)

def FuncDef.methodSignature (d : FuncDef) : Signature := .method d.name (d.params.map Param.type)

/-- The attributes of a definition by name. -/
def attributeTypes (attributes : List AttributeDef) (table : Table String String) :
    Table String String :=
  attributes.foldl (fun table a => Table.insert table a.name a.type) table

/-- The methods of a definition by name. -/
def methodReturns (methods : List FuncDef) (table : Table Signature String) :
    Table Signature String :=
  methods.foldl (fun table m => Table.insert table m.methodSignature m.returnType) table

/-- The interface that a type definition declares. -/
def TypeDef.interface (d : TypeDef) : Interface :=
  ⟨d.parents, attributeTypes d.attributes [], methodReturns d.methods []⟩

/-- Whether a name is that of a builtin type. -/
def IsBuiltinName (name : String) : Prop := ∃ p : Primitive, name = p.name

/-! ## Contexts -/

abbrev Vars : Type := String → Option String

namespace Vars

def none : Vars := fun _ => .none

/-- One more variable, or another type for it. -/
def declare (γ : Vars) (name type : String) : Vars := fun x => if name = x then some type else γ x

theorem of_declare {γ : Vars} {x T y U : String} (h : γ.declare x T y = some U) :
    x = y ∧ U = T ∨ x ≠ y ∧ γ y = some U := by
  unfold declare at h
  split at h
  · next heq => exact .inl ⟨heq, (Option.some_inj.1 h).symm⟩
  · next hne => exact .inr ⟨hne, h⟩

def bind (γ : Vars) : List (String × String) → Vars
  | [] => γ
  | (name, type) :: rest => (γ.declare name type).bind rest

/-- The variables of `γ` are there, with the same types. -/
protected def Le (γ δ : Vars) : Prop := ∀ x type, γ x = some type → δ x = some type

end Vars

/-- What is visible from a scope, by name. -/
@[ext] structure Context where
  vars : Vars
  types : String → Prop
  functions : Signature → Prop

namespace Context

def declare (V : Context) (name type : String) : Context :=
  { V with vars := V.vars.declare name type }

def bind (V : Context) (bindings : List (String × String)) : Context :=
  { V with vars := V.vars.bind bindings }

def addType (V : Context) (name : String) : Context :=
  { V with types := fun x => x = name ∨ V.types x }

def addFunction (V : Context) (s : Signature) : Context :=
  { V with functions := fun x => x = s ∨ V.functions x }

/-- What is visible in `V` is visible in `U`. -/
protected structure Le (V U : Context) : Prop where
  vars : V.vars.Le U.vars
  types : ∀ name, V.types name → U.types name
  functions : ∀ s, V.functions s → U.functions s

def empty : Context := ⟨Vars.none, fun _ => False, fun _ => False⟩

end Context

/-! ## Expressions -/

section Typing

variable (G : Glossary)

/-- An operator is a method of its left operand's type, or else a visible function. -/
def Context.Operator (V : Context) (left : String) (method function : Signature) (type : String) :
    Prop :=
  G.Finds left method (.ok (some type)) ∨
    G.Finds left method (.ok none) ∧ V.functions function ∧ G.functions function = some type

/-- A call constructs an object of a visible type, or else calls a visible function. -/
def Context.Call (V : Context) (callee : String) (args : List String) (type : String) : Prop :=
  V.types callee ∧ args = [] ∧ type = callee ∨
    V.types callee ∧ args ≠ [] ∧ G.ownMethod? callee (.constructor args) = some type ∨
    G.types callee = none ∧ V.functions (.function callee args) ∧
      G.functions (.function callee args) = some type

mutual

/-- An expression has a type. -/
def Expr.HasType (V : Context) (e : Expr) (type : String) : Prop :=
  match e with
  | .literal _ l => type = l.primitive.name
  | .var _ name => V.vars name = some type
  | .binary _ op left right => ∃ L R, left.HasType V L ∧ right.HasType V R ∧
      V.Operator G L (.binaryMethod op R) (.binaryFunction op L R) type
  | .unary _ op operand => ∃ L, operand.HasType V L ∧
      V.Operator G L (.unaryMethod op) (.unaryFunction op L) type
  | .call _ callee args => ∃ Ts, argsHaveTypes V args Ts ∧ V.Call G callee Ts type
  | .methodCall _ receiver method args => ∃ R Ts, receiver.HasType V R ∧ argsHaveTypes V args Ts ∧
      G.Finds R (.method method Ts) (.ok (some type))
  | .attr _ object name => ∃ T, object.HasType V T ∧ G.HasAttr T name type

def argsHaveTypes (V : Context) (es : List Expr) (types : List String) : Prop :=
  match es with
  | [] => types = []
  | e :: es => ∃ T Ts, types = T :: Ts ∧ e.HasType V T ∧ argsHaveTypes V es Ts

end

/-- An initial value, if there is one, has the declared type. -/
def InitTyped (V : Context) (type : String) (init : Option Expr) : Prop :=
  ∀ e, init = some e → e.HasType G V type

/-! ## Statements -/

/-- What a statement defines is as the glossary says. -/
def Stmt.DefinedIn (s : Stmt) : Prop :=
  match s with
  | .defineFunc _ d => G.functions d.signature = some d.returnType
  | .defineType _ d => G.types d.name = some d.interface ∧ ¬IsBuiltinName d.name
  | _ => True

/-- The context after a statement that has ended normally. -/
def Context.after (V : Context) (s : Stmt) : Context :=
  match s with
  | .declareVar _ name type _ => V.declare name type
  | .defineFunc _ d => V.addFunction d.signature
  | .defineType _ d => V.addType d.name
  | _ => V

mutual

/-- A statement is typed, its returns as `ret` says. -/
def Stmt.Typed (ret : Option String) (V : Context) (s : Stmt) : Prop :=
  match s with
  | .expr _ e => ∃ type, e.HasType G V type
  | .declareVar _ _ type init => V.types type ∧ InitTyped G V type init
  | .defineFunc p d => (Stmt.defineFunc p d).DefinedIn G ∧ d.Typed (V.addFunction d.signature) []
  | .defineType p d => (Stmt.defineType p d).DefinedIn G ∧ d.Typed V
  | .ifElse _ branches default => branchesTyped ret V branches ∧
      match default with
      | none => True
      | some body => blockTyped ret V body
  | .whileLoop _ condition body =>
    condition.HasType G V Primitive.bool.name ∧ blockTyped ret V body
  | .returns _ (some e) => ∃ type, e.HasType G V type ∧ ret = some type
  | .returns _ none => ret = some Primitive.none.name
  | .breakLoop _ | .continueLoop _ => True

/-- Statements are typed, each in the context that the ones before it leave. -/
def blockTyped (ret : Option String) (V : Context) (body : List Stmt) : Prop :=
  match body with
  | [] => True
  | s :: rest => s.Typed ret V ∧ blockTyped ret (V.after s) rest

def branchesTyped (ret : Option String) (V : Context) (branches : List Branch) : Prop :=
  match branches with
  | [] => True
  | .mk condition body :: rest => condition.HasType G V Primitive.bool.name ∧
      blockTyped ret V body ∧ branchesTyped ret V rest

/-- A definition's body is typed with its parameters, after the given variables, and returns what is
declared. -/
def FuncDef.Typed (V : Context) (before : List (String × String)) (d : FuncDef) : Prop :=
  match d with
  | .mk p name params ret body =>
    blockTyped (some (FuncDef.mk p name params ret body).returnType)
      (V.bind (before ++ (FuncDef.mk p name params ret body).bindings)) body

/-- The parts of a type definition are typed, the method bodies with the type itself visible. -/
def TypeDef.Typed (V : Context) (d : TypeDef) : Prop :=
  match d with
  | .mk name parents attributes methods =>
    (∀ parent ∈ parents, V.types parent ∧ ¬IsBuiltinName parent) ∧
      (∀ a ∈ attributes, V.types a.type ∧ InitTyped G V a.type a.init) ∧
      methodsTyped (V.addType name) name methods

/-- Methods are typed, each with a receiver, and constructors return their type. -/
def methodsTyped (V : Context) (type : String) (methods : List FuncDef) : Prop :=
  match methods with
  | [] => True
  | m :: rest => m.Typed V [(receiverName, type)] ∧
      (m.name = constructorName → m.returnType = type) ∧ methodsTyped V type rest

end

end Typing

/-! ## The parts of a program -/

mutual

/-- A statement and all statements inside it, bodies of functions and methods included. -/
def Stmt.parts (s : Stmt) : List Stmt :=
  match s with
  | .defineFunc p d => .defineFunc p d :: d.parts
  | .defineType p d => .defineType p d :: d.parts
  | .ifElse p branches default => .ifElse p branches default :: (branchParts branches ++
      match default with
      | none => []
      | some body => blockParts body)
  | .whileLoop p condition body => .whileLoop p condition body :: blockParts body
  | s => [s]

def blockParts (body : List Stmt) : List Stmt :=
  match body with
  | [] => []
  | s :: rest => s.parts ++ blockParts rest

def branchParts (branches : List Branch) : List Stmt :=
  match branches with
  | [] => []
  | .mk _ body :: rest => blockParts body ++ branchParts rest

def FuncDef.parts (d : FuncDef) : List Stmt :=
  match d with
  | .mk _ _ _ _ body => blockParts body

def TypeDef.parts (d : TypeDef) : List Stmt :=
  match d with
  | .mk _ _ _ methods => methodParts methods

def methodParts (methods : List FuncDef) : List Stmt :=
  match methods with
  | [] => []
  | m :: rest => m.parts ++ methodParts rest

end

/-- Whether a statement defines a function or a type. -/
def Stmt.isDefinition : Stmt → Bool
  | .defineFunc .. | .defineType .. => true
  | _ => false

/-- Whether a function or a type is defined somewhere in a statement. -/
def Stmt.defines (s : Stmt) : Bool := s.parts.any Stmt.isDefinition

def blockDefines (body : Block) : Bool := (blockParts body).any Stmt.isDefinition

theorem blockDefines_cons (s : Stmt) (rest : Block) :
    blockDefines (s :: rest) = (s.defines || blockDefines rest) := by
  rw [blockDefines, blockParts, List.any_append]
  rfl

namespace Stmt

variable {p : Option Position}

theorem defines_declareVar (name type : String) (init : Option Expr) :
    (declareVar p name type init).defines = false := by
  unfold defines parts
  rfl

theorem defines_defineFunc (d : FuncDef) : (defineFunc p d).defines = true := by
  unfold defines parts
  rfl

theorem defines_defineType (d : TypeDef) : (defineType p d).defines = true := by
  unfold defines parts
  rfl

theorem defines_ifElse {branches : List Branch} {default : Option Block}
    (h : (branchParts branches).any isDefinition = true ∨
      ∃ body, default = some body ∧ blockDefines body = true) :
    (ifElse p branches default).defines = true := by
  unfold defines parts
  rw [List.any_cons, List.any_append, Bool.or_eq_true, Bool.or_eq_true]
  right
  obtain h | ⟨body, rfl, h⟩ := h
  · exact .inl h
  · exact .inr h

theorem defines_whileLoop {condition : Expr} {body : Block} (h : blockDefines body = true) :
    (whileLoop p condition body).defines = true := by
  unfold defines parts
  rw [List.any_cons, Bool.or_eq_true]
  exact .inr h

end Stmt

/-! ## Captured variables -/

/-- A declaration gives a variable of `δ` no other type. -/
def Stmt.Respects (δ : Vars) (s : Stmt) : Prop :=
  match s with
  | .declareVar _ name type _ => ∀ T, δ name = some T → T = type
  | _ => True

/-- The variables that are visible after a statement. -/
def Vars.after (γ : Vars) (s : Stmt) : Vars :=
  match s with
  | .declareVar _ name type _ => γ.declare name type
  | _ => γ

mutual

/-- In all blocks of a statement captured variables keep their types. -/
def Stmt.Steady (γ : Vars) (s : Stmt) : Prop :=
  match s with
  | .defineFunc _ d => d.Steady γ []
  | .defineType _ d => d.Steady γ
  | .ifElse _ branches default => branchesSteady γ branches ∧
      match default with
      | none => True
      | some body => blockSteady γ Vars.none body
  | .whileLoop _ _ body => blockSteady γ Vars.none body
  | _ => True

/-- A variable that is visible where a statement with a definition stands gets no other type in the
rest of the block. The variables `γ` are visible, and those of `δ` may have been captured. -/
def blockSteady (γ δ : Vars) (body : List Stmt) : Prop :=
  match body with
  | [] => True
  | s :: rest => s.Steady γ ∧ s.Respects δ ∧
      blockSteady (γ.after s) (if s.defines then γ else δ) rest

def branchesSteady (γ : Vars) (branches : List Branch) : Prop :=
  match branches with
  | [] => True
  | .mk _ body :: rest => blockSteady γ Vars.none body ∧ branchesSteady γ rest

/-- Captured variables keep their types in a body, which sees its parameters. -/
def FuncDef.Steady (γ : Vars) (before : List (String × String)) (d : FuncDef) : Prop :=
  match d with
  | .mk p name params ret body =>
    blockSteady (γ.bind (before ++ (FuncDef.mk p name params ret body).bindings)) Vars.none body

def TypeDef.Steady (γ : Vars) (d : TypeDef) : Prop :=
  match d with
  | .mk name _ _ methods => methodsSteady γ name methods

def methodsSteady (γ : Vars) (type : String) (methods : List FuncDef) : Prop :=
  match methods with
  | [] => True
  | m :: rest => m.Steady γ [(receiverName, type)] ∧ methodsSteady γ type rest

end

section After

variable {s : Stmt}

theorem Stmt.respects_of_defines (hs : s.defines = true) (δ : Vars) : s.Respects δ := by
  cases s with
  | declareVar p name type init =>
    rw [Stmt.defines_declareVar] at hs
    cases hs
  | _ => trivial

theorem Stmt.Respects.mono {δ ε : Vars} (h : s.Respects ε) (hle : δ.Le ε) : s.Respects δ := by
  cases s with
  | declareVar p name type init => exact fun T hT => h T (hle name T hT)
  | _ => trivial

theorem Vars.after_of_defines (hs : s.defines = true) (γ : Vars) : γ.after s = γ := by
  cases s with
  | declareVar p name type init =>
    rw [Stmt.defines_declareVar] at hs
    cases hs
  | _ => rfl

theorem Context.vars_after (V : Context) (s : Stmt) : (V.after s).vars = V.vars.after s := by
  cases s <;> rfl

/-- What is visible stays visible when a statement that defines nothing respects it. -/
theorem Context.Le.after {U V : Context} (h : U.Le V) (hs : s.defines = false)
    (hr : s.Respects U.vars) : U.Le (V.after s) := by
  cases s with
  | declareVar p name type init =>
    refine ⟨fun x T hx => ?_, h.types, h.functions⟩
    unfold Context.after Context.declare Vars.declare
    dsimp only
    split
    · next heq => exact congrArg some (hr T (heq ▸ hx)).symm
    · exact h.vars x T hx
  | defineFunc p d =>
    rw [Stmt.defines_defineFunc] at hs
    cases hs
  | defineType p d =>
    rw [Stmt.defines_defineType] at hs
    cases hs
  | _ => exact h

end After

end Nominal
