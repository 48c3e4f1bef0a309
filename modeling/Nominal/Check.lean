import Nominal.Effect
import Nominal.Dispatch

/-!
# The check

A program is checked before it runs. The check finds the type of every expression, and it declares
what the program declares, variables by their static types, so that later statements see earlier
ones as they will when the program runs.

* `Expr.check`: the type of an expression.
* `checkBlock`: the type that a block returns, if it returns.
* `mergeReturn`: two returns of one block must agree.
-/

namespace Nominal

open Effect (ask query update fail findType openChild bindAll)

/-! ## Expressions -/

/-- The name of the visible type of a name. They differ when a type is declared under another
name. -/
def World.resolveName (w : World) (n : ScopeId) (name : String) : Except Cause String :=
  (w.scopes.findType n name).map w.types.name

/-- The static type of a binding. -/
def World.bindingType (w : World) : Binding → String
  | .static type => type
  | .value v => w.typeName v

mutual

/-- The type of an expression in a scope. -/
def Expr.check (e : Expr) (n : ScopeId) : Effect String :=
  match e with
  | .literal p l => (query (·.resolveName n l.primitive.name)).orAt p
  | .var p name => Effect.orAt p do
    let b ← query (·.scopes.findVariable n name)
    ask (·.bindingType b)
  | .binary p op left right => Effect.orAt p do
    let left ← left.check n
    let left ← findType n left
    let right ← right.check n
    let r ← query (·.resolveBinary n op left right)
    return r.overload.ret
  | .unary p op operand => Effect.orAt p do
    let operand ← operand.check n
    let operand ← findType n operand
    let r ← query (·.resolveUnary n op operand)
    return r.overload.ret
  | .call p callee args => Effect.orAt p do
    let args ← checkArgs args n
    let target ← query (·.resolveCall n callee args)
    ask (·.returnType target)
  | .methodCall p receiver method args => Effect.orAt p do
    let receiver ← receiver.check n
    let receiver ← findType n receiver
    let args ← checkArgs args n
    let r ← query (·.resolveMethod receiver method args)
    return r.overload.ret
  | .attr p object name => Effect.orAt p do
    let object ← object.check n
    let object ← findType n object
    query fun w =>
      match w.types.attrType? object name with
      | some type => .ok type
      | none => .error (.undefinedAttribute (w.types.name object) name)

/-- The types of expressions, in order. -/
def checkArgs (es : List Expr) (n : ScopeId) : Effect (List String) :=
  match es with
  | [] => pure []
  | e :: es => do
    let type ← e.check n
    let types ← checkArgs es n
    return type :: types

end

/-- The check of an initial value that must have a declared type. A missing one is as declared. -/
def checkInit (name declared : String) (init : Option Expr) (n : ScopeId) : Effect Unit :=
  match init with
  | none => pure ()
  | some e => do
    let found ← e.check n
    if found = declared then pure ()
    else (fail (.initializerMismatch name declared found)).orAt e.position

/-- The check of a condition. -/
def checkCondition (e : Expr) (n : ScopeId) : Effect Unit := do
  let type ← e.check n
  if type = Primitive.bool.name then pure () else (fail (.conditionNotBool type)).orAt e.position

/-! ## Definitions -/

/-- The type that an annotation names. Inside a type definition the name of the type itself is
known before it is declared. -/
def World.typeNamed (w : World) (n : ScopeId) (defining : Option String) (name : String) :
    Except Cause String :=
  if defining = some name then .ok name else w.resolveName n name

/-- The parameter and return types of a definition. -/
structure Header where
  params : List String
  ret : String

/-- The parameter and return types that a definition declares. -/
def checkHeader (d : FuncDef) (n : ScopeId) (defining : Option String) : Effect Header := do
  let params ← Effect.each (fun (p : Param) => query (·.typeNamed n defining p.type)) d.params
  let ret ← match d.ret with
    | some name => query (·.typeNamed n defining name)
    | none => pure Primitive.none.name
  return ⟨params, ret⟩

/-- Parameters bound to their static types. -/
def paramBindings (d : FuncDef) (h : Header) : List (String × Binding) :=
  (d.params.map Param.name).zip (h.params.map .static)

/-- The parent types of a definition, none of them builtin. -/
def checkParents (d : TypeDef) (n : ScopeId) : Effect (List TypeId) :=
  Effect.each (fun name => do
    let parent ← findType n name
    query fun w =>
      if (w.types.get parent).primitive then
        .error (.primitiveParent d.name (w.types.name parent))
      else .ok parent) d.parents

/-- The attributes of a definition by their declared types. -/
def checkAttributes (n : ScopeId) : List AttributeDef → Table String Attribute →
    Effect (Table String Attribute)
  | [], attrs => pure attrs
  | a :: rest, attrs => do
    let type ← query (·.resolveName n a.type)
    checkInit a.name type a.init n
    checkAttributes n rest (attrs.insert a.name ⟨type, none⟩)

/-- A constructor must be declared to return the type that is defined. -/
def checkConstructor (type : String) (m : FuncDef) (h : Header) : Effect Unit :=
  if m.name = constructorName ∧ h.ret ≠ type then
    (fail (.constructorReturnType type h.ret)).orAt m.position
  else pure ()

/-- The methods of a definition by their signatures, with their headers. -/
def checkMethods (type : String) (n : ScopeId) : List FuncDef → Table Signature Overload →
    Effect (Table Signature Overload × List Header)
  | [], methods => pure (methods, [])
  | m :: rest, methods => do
    let h ← checkHeader m n (some type)
    checkConstructor type m h
    let (methods, hs) ← checkMethods type n rest
      (methods.insert (.method m.name h.params) (.ofMethod m n h.ret))
    return (methods, h :: hs)

/-! ## Statements -/

/-- The return type of two parts of a block; nothing when neither returns. -/
def mergeReturn : Option String → Option String → Except Cause (Option String)
  | found, none => .ok found
  | none, some type => .ok (some type)
  | some first, some second =>
    if first = second then .ok (some first) else .error (.conflictingReturnTypes first second)

/-- A body must return what its definition declares; a body that never returns counts as returning
`None`. -/
def matchReturn (d : FuncDef) (declared : String) (inferred : Option String) : Effect Unit :=
  let found := inferred.getD Primitive.none.name
  if found = declared then pure ()
  else (fail (.returnTypeMismatch d.name declared found)).orAt d.position

mutual

/-- The type that a statement returns, if it returns. -/
def Stmt.check (s : Stmt) (n : ScopeId) : Effect (Option String) :=
  match s with
  | .expr p e => Effect.orAt p do
    let _ ← e.check n
    return none
  | .declareVar p name type init => Effect.orAt p do
    let declared ← query (·.resolveName n type)
    checkInit name declared init n
    update (·.declareVariable n name (.static declared))
    return none
  | .defineFunc p d => Effect.orAt p do
    let h ← checkHeader d n none
    update (·.declareFunction n (.function d.name h.params) (.ofFunction d n h.ret))
    d.checkBody n (paramBindings d h) h.ret
    return none
  | .defineType p d => Effect.orAt p do
    d.check n
    return none
  | .ifElse p branches default => Effect.orAt p do
    let found ← checkBranches branches n none
    match default with
    | none => return found
    | some body =>
      let inner ← openChild n
      let type ← checkBlock body inner none
      query fun _ => mergeReturn found type
  | .whileLoop p condition body => Effect.orAt p do
    checkCondition condition n
    let inner ← openChild n
    checkBlock body inner none
  | .returns p (some e) => Effect.orAt p do
    let type ← e.check n
    return some type
  | .returns _ none => pure (some Primitive.none.name)
  | .breakLoop _ | .continueLoop _ => pure none

/-- The type that statements return, together with what was found before them. -/
def checkBlock (body : List Stmt) (n : ScopeId) (found : Option String) : Effect (Option String) :=
  match body with
  | [] => pure found
  | s :: rest => do
    let type ← s.check n
    let found ← (query fun _ => mergeReturn found type).orAt s.position
    checkBlock rest n found

/-- The type that branches return, together with what was found before them. Each body has a scope
of its own. -/
def checkBranches (branches : List Branch) (n : ScopeId) (found : Option String) :
    Effect (Option String) :=
  match branches with
  | [] => pure found
  | .mk condition body :: rest => do
    checkCondition condition n
    let inner ← openChild n
    let type ← checkBlock body inner none
    let found ← query fun _ => mergeReturn found type
    checkBranches rest n found

/-- The check of a body in a new scope with its parameters. -/
def FuncDef.checkBody (d : FuncDef) (n : ScopeId) (params : List (String × Binding))
    (declared : String) : Effect Unit :=
  match d with
  | .mk p name ps ret body => do
    let inner ← openChild n
    bindAll inner params
    let inferred ← checkBlock body inner none
    matchReturn (.mk p name ps ret body) declared inferred

/-- The check of a type definition. The type is declared before its method bodies are checked. -/
def TypeDef.check (d : TypeDef) (n : ScopeId) : Effect Unit :=
  match d with
  | .mk name parents attributes methods => do
    let parentTypes ← checkParents (.mk name parents attributes methods) n
    let attrs ← checkAttributes n attributes []
    let (table, headers) ← checkMethods name n methods []
    let t ← ask (·.types.next)
    update (·.addType ⟨name, false, parentTypes, attrs, table⟩)
    update (·.declareType n name t)
    checkBodies name methods headers n

/-- The check of method bodies, each in a new scope with the receiver and its parameters. -/
def checkBodies (type : String) (methods : List FuncDef) (headers : List Header) (n : ScopeId) :
    Effect Unit :=
  match methods, headers with
  | m :: methods, h :: headers => do
    m.checkBody n ((receiverName, .static type) :: paramBindings m h) h.ret
    checkBodies type methods headers n
  | _, _ => pure ()

end

end Nominal
