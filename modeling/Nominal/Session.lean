import Nominal.Describe
import Nominal.Interpreter
import Nominal.View

/-!
# Sessions

A session drives one interpreter step by step. It keeps a list of scopes, the first of them the
root, and named slots for types and for values. A step that fails leaves the slots as they were and
the world as far as it was changed.

* `TypeRef`, `ValueSpec`, `OverloadSpec`: how steps name types, values and callables.
* `Step`, `Reply`: what can be asked, and what is answered.
* `Session.step`: one step.
-/

namespace Nominal

/-! ## What steps are made of -/

/-- A type. -/
inductive TypeRef where
  | slot (name : String)
  | named (scope : Nat) (name : String)

/-- A value to be built. -/
inductive ValueSpec where
  | literal (l : Literal)
  /-- An instance with default attributes that no constructor has seen. -/
  | blank (type : TypeRef)
  | slot (name : String)
  | rawPlain (type : TypeRef) (l : Literal)
  | rawObject (type : TypeRef) (attributes : List (String × ValueSpec))

/-- A host function to be registered. -/
inductive HostSpec where
  /-- Always the same value, which is built when the function is registered. -/
  | constant (v : ValueSpec)
  | given (h : Host)

/-- A callable to be built, with its declared return type. -/
inductive OverloadSpec where
  | host (ret : String) (h : HostSpec)
  | closure (ret : String) (params : List String) (body : Block) (scope : Nat)

/-- A type to be built. -/
structure TypeSpec where
  slot : String
  name : String
  primitive : Bool
  parents : List TypeRef
  attributes : List (String × String × Option ValueSpec)
  methods : List (Signature × OverloadSpec)

/-- What can be asked of a session. A scope is named by its place in the list of scopes. -/
inductive Step where
  /-- The check of a program, in the root unless a scope is chosen. -/
  | check (scope : Option Nat) (program : Block)
  | execute (scope : Option Nat) (program : Block)
  /-- The check and, when it passes, the execution of a program in the root. -/
  | run (program : Block)
  | typeOf (scope : Nat) (e : Expr)
  | evaluate (scope : Nat) (e : Expr) (slot : Option String)
  | root
  | child (scope : Nat)
  /-- Whether two places in the list hold the same scope. -/
  | same (a b : Nat)
  | install (scope : Nat)
  | scopeDebug (scope : Nat)
  /-- The declaration of a variable by a static type, which is not looked up. -/
  | declareStatic (scope : Nat) (name type : String)
  | declareValue (scope : Nat) (name : String) (v : ValueSpec)
  /-- The visible variable of a name; it must exist. -/
  | findVariable (scope : Nat) (name : String)
  /-- The visible variable of a name, if there is one. -/
  | lookupVariable (scope : Nat) (name : String)
  | findType (scope : Nat) (name : String)
  | lookupType (scope : Nat) (name : String)
  /-- The own name of the visible type of a name. -/
  | resolve (scope : Nat) (name : String)
  /-- The declaration of a type, under any name. -/
  | declareType (scope : Nat) (name : String) (type : TypeRef)
  | declareFunction (scope : Nat) (s : Signature) (o : OverloadSpec)
  | findFunction (scope : Nat) (s : Signature)
  | lookupFunction (scope : Nat) (s : Signature)
  | callFunction (scope : Nat) (s : Signature) (args : List ValueSpec)
  | functionDebug (scope : Nat) (s : Signature)
  | newType (spec : TypeSpec)
  | typeInfo (type : TypeRef)
  | typeDebug (type : TypeRef)
  | findMethod (type : TypeRef) (s : Signature)
  | ownMethod (type : TypeRef) (s : Signature)
  /-- A call of a method with exactly the given arguments. -/
  | callMethod (scope : Nat) (type : TypeRef) (s : Signature) (args : List ValueSpec)
  | attrType (type : TypeRef) (name : String)
  | defaults (type : TypeRef)
  | instantiate (scope : Nat) (type : TypeRef)
  | set (slot : String) (v : ValueSpec)
  | viewAs (slot : String) (type : TypeRef)
  /-- The constant of a value that must be of a builtin type. -/
  | read (v : ValueSpec) (kind : Primitive)
  | attr (v : ValueSpec) (name : String)
  | equal (a b : ValueSpec)
  | valueDebug (v : ValueSpec)
  | apply (scope : Nat) (params : List String) (body : Block) (args : List ValueSpec)
  | output
  | clear
  | writeLine (line : String)

/-- How a statement ended, seen from outside. -/
inductive FlowView where
  | normal
  | returns (value : Option View)
  | breakLoop
  | continueLoop

/-- A type, seen from outside. -/
structure TypeInfo where
  name : String
  primitive : Bool
  parents : List String

/-- A variable, seen from outside. -/
inductive BindingView where
  | static (type : String)
  | value (v : View)

/-- The answer to a step. -/
inductive Reply where
  | nothing
  | truth (b : Bool)
  | count (n : Nat)
  | text (s : String)
  | literal (l : Literal)
  | value (v : View)
  | flow (f : FlowView)
  /-- How a program ended in a chosen scope, and whether the next statement would follow. -/
  | flowIn (f : FlowView) (isNormal : Bool)
  | binding (b : BindingView)
  | typeInfo (i : TypeInfo)
  /-- The ancestor that declares a method, if it is inherited, and the declared return type. -/
  | method (inheritedFrom : Option String) (ret : String)
  | attributes (entries : List (String × View))

/-- The answer that may be missing. -/
def Reply.ofOption {α : Type} (f : α → Reply) : Option α → Reply
  | some a => f a
  | none => .nothing

/-! ## The state of a session -/

/-- What steps refer to by place or by name. -/
structure Slots where
  scopes : List ScopeId
  types : Table String TypeId
  values : Table String Value

/-- A session. -/
structure Session where
  world : World
  slots : Slots

namespace Slots

/-- The slots before the first step. -/
def start : Slots := ⟨[Interpreter.root], [], []⟩

/-- A scope by its place. -/
def scope (s : Slots) (i : Nat) : ScopeId := s.scopes.getD i Interpreter.root

/-- The slots with one more scope. -/
def addScope (s : Slots) (n : ScopeId) : Slots := { s with scopes := s.scopes ++ [n] }

/-- The slots with a type kept under a name. -/
def setType (s : Slots) (name : String) (t : TypeId) : Slots :=
  { s with types := s.types.insert name t }

/-- The slots with a value kept under a name. -/
def setValue (s : Slots) (name : String) (v : Value) : Slots :=
  { s with values := s.values.insert name v }

open Effect (ask query update findType)

/-- The type that a reference stands for. An empty slot counts as an unknown type. -/
def typeOf (s : Slots) : TypeRef → Effect TypeId
  | .slot name => query fun _ =>
    match s.types.find? name with
    | some t => .ok t
    | none => .error (.undefinedType name)
  | .named i name => findType (s.scope i) name

mutual

/-- The value that a specification stands for. An empty slot counts as an unknown variable. -/
def valueOf (s : Slots) (spec : ValueSpec) : Effect Value :=
  match spec with
  | .literal l => Effect.plain (s.scope 0) l
  | .blank type => do
    let t ← s.typeOf type
    ask (·.types.blank t)
  | .slot name => query fun _ =>
    match s.values.find? name with
    | some v => .ok v
    | none => .error (.undefinedVariable name)
  | .rawPlain type l => do
    let t ← s.typeOf type
    return .plain t l
  | .rawObject type attributes => do
    let t ← s.typeOf type
    let attrs ← s.attributesOf attributes
    return .object t (Table.union [] attrs)

/-- The attributes that specifications stand for, in order. -/
def attributesOf (s : Slots) (specs : List (String × ValueSpec)) : Effect (List (String × Value)) :=
  match specs with
  | [] => pure []
  | (name, spec) :: rest => do
    let v ← s.valueOf spec
    let vs ← s.attributesOf rest
    return (name, v) :: vs

end

/-- The values that specifications stand for, in order. -/
def valuesOf (s : Slots) (specs : List ValueSpec) : Effect (List Value) :=
  Effect.each s.valueOf specs

/-- The host function that a specification stands for. -/
def hostOf (s : Slots) : HostSpec → Effect Host
  | .constant v => do
    let v ← s.valueOf v
    return .constant v
  | .given h => pure h

/-- The callable that a specification stands for; a host function is registered. -/
def overloadOf (s : Slots) : OverloadSpec → Effect Overload
  | .host ret h => do
    let h ← s.hostOf h
    let index ← ask (·.hosts.size)
    update fun w => { w with hosts := w.hosts.push h }
    return ⟨ret, .host index⟩
  | .closure ret params body i => pure ⟨ret, .closure params body (s.scope i)⟩

/-- The attribute that a specification stands for. -/
def attributeOf (s : Slots) : String × String × Option ValueSpec → Effect (String × Attribute)
  | (name, type, none) => pure (name, ⟨type, none⟩)
  | (name, type, some v) => do
    let v ← s.valueOf v
    return (name, ⟨type, some v⟩)

/-- The method that a specification stands for. -/
def methodOf (s : Slots) : Signature × OverloadSpec → Effect (Signature × Overload)
  | (signature, o) => do
    let o ← s.overloadOf o
    return (signature, o)

/-- The type that a specification stands for; it is built after everything it is made of. -/
def newType (s : Slots) (spec : TypeSpec) : Effect TypeId := do
  let parents ← Effect.each s.typeOf spec.parents
  let attrs ← Effect.each s.attributeOf spec.attributes
  let methods ← Effect.each s.methodOf spec.methods
  let t ← ask (·.types.next)
  update (·.addType ⟨spec.name, spec.primitive, parents, Table.union [] attrs,
    Table.union [] methods⟩)
  return t

end Slots

/-! ## Steps -/

namespace Session

open Effect (ask query update findType)

/-- A session before the first step. -/
def start (prelude : Bool) (output : Output) : Session :=
  ⟨Interpreter.start prelude output, .start⟩

/-- The bound on the depth of evaluation in a session. No program comes near it. -/
def fuel : Nat := 1000000000000000000

/-- How a statement ended, seen from outside. -/
def viewFlow (f : Flow) : Effect FlowView :=
  ask fun w =>
    match f with
    | .normal => .normal
    | .returns value => .returns (value.map (Value.view w.types))
    | .breakLoop => .breakLoop
    | .continueLoop => .continueLoop

/-- A value, seen from outside, as an answer. -/
def replyValue (v : Value) : Effect Reply := ask fun w => .value (v.view w.types)

/-- A variable, seen from outside, as an answer. -/
def replyBinding (b : Binding) : Effect Reply :=
  ask fun w =>
    match b with
    | .static type => .binding (.static type)
    | .value v => .binding (.value (v.view w.types))

/-- A type, seen from outside, as an answer. -/
def replyType (t : TypeId) : Effect Reply :=
  ask fun w =>
    let d := w.types.get t
    .typeInfo ⟨d.name, d.primitive, d.parents.map w.types.name⟩

/-- Looking something up, which may fail, and answering. -/
def finding {α : Type} (f : World → Except Cause α) (reply : α → Effect Reply) : Effect Reply := do
  let a ← query f
  reply a

/-- Looking something up, which may find nothing, and answering. -/
def looking {α : Type} (f : World → Option α) (reply : α → Effect Reply) : Effect Reply := do
  match ← ask f with
  | some a => reply a
  | none => return .nothing

/-- A step that leaves the slots alone. -/
def keeping (s : Slots) (m : Run Reply) : Run (Reply × Slots) := do
  let r ← m
  return (r, s)

/-- The return type of a callable as an answer. -/
def replyReturn (o : Overload) : Effect Reply := return .text o.ret

/-- One step with the given slots: its answer, and the slots after it. -/
def perform (s : Slots) (step : Step) : Run (Reply × Slots) :=
  match step with
  | .check i program => keeping s do
    let type ← checkBlock program (s.scope (i.getD 0)) none
    return .ofOption .text type
  | .execute none program => keeping s do
    let f ← Interpreter.execute fuel program
    let f ← viewFlow f
    return .flow f
  | .execute (some i) program => keeping s do
    let f ← runBlock (Nominal.execute fuel · (s.scope i)) program
    let view ← viewFlow f
    return .flowIn view f.isNormal
  | .run program => keeping s do
    let f ← Interpreter.run fuel program
    let f ← viewFlow f
    return .flow f
  | .typeOf i e => keeping s do
    let type ← e.check (s.scope i)
    return .text type
  | .evaluate i e slot => do
    let v ← Nominal.evaluate fuel e (s.scope i)
    let r ← replyValue v
    match slot with
    | some name => return (r, s.setValue name v)
    | none => return (r, s)
  | .root => do
    let n ← ask (·.scopes.next)
    update fun w => { w with scopes := w.scopes.root }
    return (.count s.scopes.length, s.addScope n)
  | .child i => do
    let n ← Effect.openChild (s.scope i)
    return (.count s.scopes.length, s.addScope n)
  | .same a b => return (.truth (s.scope a == s.scope b), s)
  | .install i => keeping s do
    update (·.install (s.scope i))
    return .nothing
  | .scopeDebug i => keeping s (ask fun w => .text (w.scopes.get (s.scope i)).debugText)
  | .declareStatic i name type => keeping s do
    update (·.declareVariable (s.scope i) name (.static type))
    return .nothing
  | .declareValue i name v => keeping s do
    let v ← s.valueOf v
    update (·.declareVariable (s.scope i) name (.value v))
    return .nothing
  | .findVariable i name =>
    keeping s (finding (·.scopes.findVariable (s.scope i) name) replyBinding)
  | .lookupVariable i name =>
    keeping s (looking (·.scopes.lookupVariable (s.scope i) name) replyBinding)
  | .findType i name => keeping s (finding (·.scopes.findType (s.scope i) name) replyType)
  | .lookupType i name => keeping s (looking (·.scopes.lookupType (s.scope i) name) replyType)
  | .resolve i name => keeping s do
    let type ← query (·.resolveName (s.scope i) name)
    return .text type
  | .declareType i name type => keeping s do
    let t ← s.typeOf type
    update (·.declareType (s.scope i) name t)
    return .nothing
  | .declareFunction i signature o => keeping s do
    let o ← s.overloadOf o
    update (·.declareFunction (s.scope i) signature o)
    return .nothing
  | .findFunction i signature =>
    keeping s (finding (·.scopes.findFunction (s.scope i) signature) replyReturn)
  | .lookupFunction i signature =>
    keeping s (looking (·.scopes.lookupFunction (s.scope i) signature) replyReturn)
  | .callFunction i signature args => keeping s do
    let o ← query (·.scopes.findFunction (s.scope i) signature)
    let args ← s.valuesOf args
    let v ← invoke fuel o (s.scope i) args
    replyValue v
  | .functionDebug i signature =>
    keeping s (finding (·.scopes.findFunction (s.scope i) signature) fun o =>
      return .text o.debugText)
  | .newType spec => do
    let t ← s.newType spec
    return (.nothing, s.setType spec.slot t)
  | .typeInfo type => keeping s do
    let t ← s.typeOf type
    replyType t
  | .typeDebug type => keeping s do
    let t ← s.typeOf type
    ask fun w => .text (w.describeType t)
  | .findMethod type signature => keeping s do
    let t ← s.typeOf type
    let m ← query (·.types.findMethod t signature)
    ask fun w =>
      .ofOption (fun m => .method (m.inheritedFrom.map w.types.name) m.overload.ret) m
  | .ownMethod type signature => keeping s do
    let t ← s.typeOf type
    looking (·.types.ownMethod? t signature) replyReturn
  | .callMethod i type signature args => keeping s do
    let t ← s.typeOf type
    match ← query (·.types.findMethod t signature) with
    | none => return .nothing
    | some m => do
      let args ← s.valuesOf args
      let v ← invoke fuel m.overload (s.scope i) args
      replyValue v
  | .attrType type name => keeping s do
    let t ← s.typeOf type
    ask fun w => .ofOption .text (w.types.attrType? t name)
  | .defaults type => keeping s do
    let t ← s.typeOf type
    ask fun w => .attributes (sortByName (viewAttributes w.types (w.types.defaults t)))
  | .instantiate i type => keeping s do
    let t ← s.typeOf type
    let v ← Nominal.instantiate (invoke fuel) t (s.scope i)
    replyValue v
  | .set slot v => do
    let v ← s.valueOf v
    let r ← replyValue v
    return (r, s.setValue slot v)
  | .viewAs slot type => do
    let v ← s.valueOf (.slot slot)
    let t ← s.typeOf type
    let v := v.viewAs t
    let r ← replyValue v
    return (r, s.setValue slot v)
  | .read v kind => keeping s do
    let v ← s.valueOf v
    let l ← query (·.datumOf kind v)
    return .literal l
  | .attr v name => keeping s do
    let v ← s.valueOf v
    match v.attr? name with
    | some v => replyValue v
    | none => return .nothing
  | .equal a b => keeping s do
    let a ← s.valueOf a
    let b ← s.valueOf b
    ask fun w => .truth ((a.view w.types).equals (b.view w.types))
  | .valueDebug v => keeping s do
    let v ← s.valueOf v
    ask fun w => .text (v.view w.types).debugText
  | .apply i params body args => keeping s do
    let args ← s.valuesOf args
    let v ← applyClosure (Nominal.execute fuel) params body (s.scope i) args
    match v with
    | some v => replyValue v
    | none => return .nothing
  | .output => keeping s (ask fun w => .text w.output.text)
  | .clear => keeping s do
    update fun w => { w with output := w.output.clear }
    return .nothing
  | .writeLine line => keeping s do
    update (·.writeLine line)
    return .nothing

/-- The text that a step has added to the output. -/
def printed (before after : World) : String :=
  String.ofList (after.output.text.toList.drop before.output.text.length)

/-- The outcome of a step. -/
structure Outcome where
  result : Except EvalError Reply
  printed : String

/-- One step of a session: its outcome, and the session after it. -/
def step (s : Session) (request : Step) : Option (Outcome × Session) :=
  (perform s.slots request s.world).map fun (result, w) =>
    match result with
    | .ok (r, slots) => (⟨.ok r, printed s.world w⟩, ⟨w, slots⟩)
    | .error e => (⟨.error e, printed s.world w⟩, ⟨w, s.slots⟩)

/-- The steps of a session in order, and their outcomes. -/
def steps (s : Session) : List Step → Option (List Outcome × Session)
  | [] => some ([], s)
  | request :: rest => do
    let (o, s) ← s.step request
    let (os, s) ← s.steps rest
    return (o :: os, s)

end Session

end Nominal
