import Nominal.Natives
import Nominal.Dispatch

/-!
# The execution

Running a program evaluates its expressions to values and lets its statements declare variables,
functions and types. A program may run forever, so every run has a bound on the depth of its
evaluation; a run that ends within a bound ends in the same way within every larger one.

* `Flow`: how a statement ends.
* `evaluate`: the value of an expression.
* `execute`: the effect of a statement.
* `invoke`: a call with arguments that are already values.
* `runBlock`: statements one after the other, up to the first that does not end normally.
-/

namespace Nominal

open Effect (ask query update fail findType plain openChild bindAll)

/-- How a statement ends. -/
inductive Flow where
  | normal
  /-- The body of a function is left, with a value or without. -/
  | returns (value : Option Value)
  | breakLoop
  | continueLoop

/-- Whether the next statement follows. -/
def Flow.isNormal : Flow → Bool
  | normal => true
  | _ => false

/-- Statements one after the other, up to the first that does not end normally. -/
def runBlock (step : Stmt → Run Flow) : Block → Run Flow
  | [] => pure .normal
  | s :: rest => do
    let flow ← step s
    match flow with
    | .normal => runBlock step rest
    | flow => return flow

/-- The value of a visible variable. -/
def variableValue (n : ScopeId) (name : String) : Effect Value :=
  query fun w =>
    match w.scopes.findVariable n name with
    | .ok (.value v) => .ok v
    | .ok (.static _) => .error (.unboundValue name)
    | .error c => .error c

/-- The truth of a condition's value. -/
def truth (condition : Expr) (v : Value) : Effect Bool :=
  match v with
  | .plain _ (.bool b) => pure b
  | v => Effect.orAt condition.position do
    let type ← ask (·.typeName v)
    fail (.conditionNotBool type)

/-- A default instance of a type, which goes through the type's own constructor without parameters
if there is one. -/
def instantiate (call : Overload → ScopeId → List Value → Run Value) (t : TypeId) (n : ScopeId) :
    Run Value := do
  let blank ← ask (·.types.blank t)
  match ← ask (·.types.ownMethod? t .defaultConstructor) with
  | some o => call o n [blank]
  | none => return blank

/-- What a plain call stands for, applied to arguments. -/
def invokeTarget (call : Overload → ScopeId → List Value → Run Value) (target : Target)
    (n : ScopeId) (args : List Value) : Run Value :=
  match target with
  | .function o => call o n args
  | .construct t => instantiate call t n
  | .constructWith t o => do
    let blank ← ask (·.types.blank t)
    call o n (blank :: args)

/-- A closure applied to arguments: the body runs in a new scope inside the captured one. Only a
`return` with an expression gives a value. -/
def applyClosure (step : Stmt → ScopeId → Run Flow) (params : List String) (body : Block)
    (captured : ScopeId) (args : List Value) : Run (Option Value) :=
  if args.length = params.length then do
    let inner ← openChild captured
    bindAll inner (params.zip (args.map .value))
    let flow ← runBlock (step · inner) body
    match flow with
    | .returns value => return value
    | _ => return none
  else fail (.arityMismatch params.length args.length)

/-- The first branch whose condition holds runs in a new scope, or else the default block does. -/
def runBranches (eval : Expr → Run Value) (step : Stmt → ScopeId → Run Flow) (n : ScopeId)
    (default : Option Block) : List Branch → Run Flow
  | [] =>
    match default with
    | some body => do
      let inner ← openChild n
      runBlock (step · inner) body
    | none => return .normal
  | .mk condition body :: rest => do
    let v ← eval condition
    if ← truth condition v then
      let inner ← openChild n
      runBlock (step · inner) body
    else runBranches eval step n default rest

/-- The value that a declaration starts with: its initial value, or else a default instance of its
type. -/
def initialValue (eval : Expr → Run Value) (call : Overload → ScopeId → List Value → Run Value)
    (n : ScopeId) (type : String) : Option Expr → Run Value
  | some e => eval e
  | none => do
    let t ← findType n type
    instantiate call t n

/-- The attributes of a type definition with their default values. -/
def defaultAttributes (init : AttributeDef → Run Value) : List AttributeDef →
    Table String Attribute → Run (Table String Attribute)
  | [], attrs => pure attrs
  | a :: rest, attrs => do
    let v ← init a
    defaultAttributes init rest (Table.insert attrs a.name ⟨a.type, some v⟩)

/-- The methods of a type definition, as closures over its scope. -/
def methodTable (n : ScopeId) (methods : List FuncDef) : Table Signature Overload :=
  methods.foldl (fun table m =>
    Table.insert table (.method m.name (m.params.map Param.type)) (.ofMethod m n m.returnType)) []

/-- A type definition: its parents, the default values of its attributes, its methods. -/
def defineType (init : AttributeDef → Run Value) (d : TypeDef) (n : ScopeId) : Run Unit := do
  let parents ← Effect.each (findType n) d.parents
  let attrs ← defaultAttributes init d.attributes []
  let t ← ask (·.types.next)
  update (·.addType ⟨d.name, false, parents, attrs, methodTable n d.methods⟩)
  update (·.declareType n d.name t)

/-! ## One level of evaluation -/

section Level

variable (eval : Expr → ScopeId → Run Value) (step : Stmt → ScopeId → Run Flow)
  (repeating : Expr → Block → ScopeId → Run Flow)
  (call : Overload → ScopeId → List Value → Run Value)

/-- The value of an expression, given those of its parts. Operands and arguments come from left to
right, and then the operation is looked up by their types. -/
@[inline] def evaluateWith (e : Expr) (n : ScopeId) : Run Value :=
  Run.orAt e.position <|
    match e with
    | .literal _ l => plain n l
    | .var _ name => variableValue n name
    | .binary _ op left right => do
      let left ← eval left n
      let right ← eval right n
      let r ← query fun w => w.resolveBinary n op left.type (w.typeName right)
      call r.overload n (r.arguments [left, right])
    | .unary _ op operand => do
      let operand ← eval operand n
      let r ← query (·.resolveUnary n op operand.type)
      call r.overload n (r.arguments [operand])
    | .call _ callee args => do
      let args ← Run.each (eval · n) args
      let target ← query fun w => w.resolveCall n callee (args.map w.typeName)
      invokeTarget call target n args
    | .methodCall _ receiver method args => do
      let receiver ← eval receiver n
      let args ← Run.each (eval · n) args
      let r ← query fun w => w.resolveMethod receiver.type method (args.map w.typeName)
      call r.overload n (r.arguments (receiver :: args))
    | .attr _ object name => do
      let object ← eval object n
      query fun w =>
        match object.attr? name with
        | some v => .ok v
        | none => .error (.undefinedAttribute (w.typeName object) name)

/-- The effect of a statement, given those of its parts. -/
@[inline] def executeWith (s : Stmt) (n : ScopeId) : Run Flow :=
  Run.orAt s.position <|
    match s with
    | .expr _ e => do
      let _ ← eval e n
      return .normal
    | .declareVar _ name type init => do
      let v ← initialValue (eval · n) call n type init
      update (·.declareVariable n name (.value v))
      return .normal
    | .defineFunc _ d => do
      update (·.declareFunction n (.function d.name (d.params.map Param.type))
        (.ofFunction d n d.returnType))
      return .normal
    | .defineType _ d => do
      defineType (fun a => initialValue (eval · n) call n a.type a.init) d n
      return .normal
    | .ifElse _ branches default => runBranches (eval · n) step n default branches
    | .whileLoop _ condition body => repeating condition body n
    | .returns _ (some e) => do
      let v ← eval e n
      return .returns (some v)
    | .returns _ none => return .returns none
    | .breakLoop _ => return .breakLoop
    | .continueLoop _ => return .continueLoop

/-- A loop, given its next rounds. The condition belongs to the scope around the loop, each round
has a new scope. -/
@[inline] def loopWith (condition : Expr) (body : Block) (n : ScopeId) : Run Flow := do
  let v ← eval condition n
  if ← truth condition v then
    let inner ← openChild n
    let flow ← runBlock (step · inner) body
    match flow with
    | .returns value => return .returns value
    | .breakLoop => return .normal
    | .normal | .continueLoop => repeating condition body n
  else return .normal

/-- A call with arguments that are already values, given the effects of statements. A closure that
gives no value counts as giving `None` when that is its declared type. -/
@[inline] def invokeWith (o : Overload) (n : ScopeId) (args : List Value) : Run Value :=
  match o.callable with
  | .builtin b => b.run n args
  | .host index => hostCall index n args
  | .closure params body captured => do
    let result ← applyClosure step params body captured args
    match result with
    | some v => return v
    | none => if o.ret = Primitive.none.name then plain n .none else fail (.missingReturn o.ret)

end Level

/-! ## The evaluator -/

mutual

/-- The value of an expression in a scope. -/
def evaluate (fuel : Nat) (e : Expr) (n : ScopeId) : Run Value :=
  match fuel with
  | 0 => .exhausted
  | fuel + 1 => evaluateWith (evaluate fuel) (invoke fuel) e n
termination_by structural fuel

/-- The effect of a statement in a scope. -/
def execute (fuel : Nat) (s : Stmt) (n : ScopeId) : Run Flow :=
  match fuel with
  | 0 => .exhausted
  | fuel + 1 => executeWith (evaluate fuel) (execute fuel) (loop fuel) (invoke fuel) s n
termination_by structural fuel

/-- A loop in a scope. -/
def loop (fuel : Nat) (condition : Expr) (body : Block) (n : ScopeId) : Run Flow :=
  match fuel with
  | 0 => .exhausted
  | fuel + 1 => loopWith (evaluate fuel) (execute fuel) (loop fuel) condition body n
termination_by structural fuel

/-- A call from a scope with arguments that are already values. -/
def invoke (fuel : Nat) (o : Overload) (n : ScopeId) (args : List Value) : Run Value :=
  match fuel with
  | 0 => .exhausted
  | fuel + 1 => invokeWith (execute fuel) o n args
termination_by structural fuel

end

theorem evaluate_succ (fuel : Nat) :
    evaluate (fuel + 1) = evaluateWith (evaluate fuel) (invoke fuel) := rfl

theorem execute_succ (fuel : Nat) :
    execute (fuel + 1) =
      executeWith (evaluate fuel) (execute fuel) (loop fuel) (invoke fuel) := rfl

theorem loop_succ (fuel : Nat) :
    loop (fuel + 1) = loopWith (evaluate fuel) (execute fuel) (loop fuel) := rfl

theorem invoke_succ (fuel : Nat) : invoke (fuel + 1) = invokeWith (execute fuel) := rfl

end Nominal
