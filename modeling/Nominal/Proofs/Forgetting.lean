import Nominal.Proofs.Bare
import Nominal.Proofs.Steps

/-!
# Steps that forget positions

A step on a bare tree does in a bare world what the step does in the world: it ends with the same
result without positions, or with an error of the same cause, and in the same world without
positions.

* `Effect.Forgets`, `Run.Forgets`: one step does in bare worlds what another one does in worlds.
* **`Effect.Forgets.bind`**, **`Run.Forgets.bind`**: one step after another.
* **`Expr.check_forgets`**, **`Stmt.check_forgets`**, `checkBlock_forgets`: the check.
* `evaluateWith_forgets`, `executeWith_forgets`, `loopWith_forgets`, `invokeWith_forgets`: one
  level of evaluation.
* **`runsForget`**: the evaluator with any bound.
-/

namespace Nominal

open Effect (ask query update fail findType plain openChild bindAll)

variable {α β γ δ : Type}

/-- An error without its position. -/
def EvalError.bare (e : EvalError) : EvalError := .ofCause e.cause

/-- An outcome without positions; `f` takes them out of the result. -/
def bareOutcome (f : α → β) : Except EvalError α × World → Except EvalError β × World
  | (.ok a, w) => (.ok (f a), w.bare)
  | (.error e, w) => (.error e.bare, w.bare)

/-! ## Effects -/

namespace Effect

/-- The step `m'` does in bare worlds what `m` does in worlds. -/
def Forgets (f : α → β) (m : Effect α) (m' : Effect β) : Prop :=
  ∀ w, m' w.bare = bareOutcome f (m w)

namespace Forgets

variable {f : α → β} {k : γ → δ} {m : Effect α} {m' : Effect β} {g : α → Effect γ}
  {g' : β → Effect δ}

theorem pure (a : α) : (Pure.pure a : Effect α).Forgets f (Pure.pure (f a)) := fun _ => rfl

theorem fail (c : Cause) : (Effect.fail c : Effect α).Forgets f (Effect.fail c) := fun _ => rfl

theorem ask {q : World → α} {q' : World → β} (h : ∀ w, q' w.bare = f (q w)) :
    (Effect.ask q).Forgets f (Effect.ask q') := by
  intro w
  rw [Effect.ask, h]
  rfl

theorem query {q : World → Except Cause α} {q' : World → Except Cause β}
    (h : ∀ w, q' w.bare = (q w).map f) : (Effect.query q).Forgets f (Effect.query q') := by
  intro w
  rw [Effect.query, Effect.query, h]
  cases q w <;> rfl

theorem same {q q' : World → Except Cause α} (h : ∀ w, q' w.bare = q w) :
    (Effect.query q).Forgets id (Effect.query q') :=
  query fun w => by rw [h, Except.map_id, id]

theorem update {c c' : World → World} (h : ∀ w, (c w).bare = c' w.bare) :
    (Effect.update c).Forgets id (Effect.update c') := by
  intro w
  rw [Effect.update, ← h]
  rfl

/-- **One step after another.** -/
theorem bind (hm : m.Forgets f m') (hg : ∀ a, (g a).Forgets k (g' (f a))) :
    (m >>= g).Forgets k (m' >>= g') := by
  intro w
  rw [bind_apply, bind_apply, hm w]
  rcases m w with ⟨e | a, w'⟩
  · rfl
  · exact hg a w'

/-- An error gets its position in the world only. -/
theorem orAt (p : Option Position) (hm : m.Forgets f m') :
    (m.orAt p).Forgets f (m'.orAt none) := by
  intro w
  rw [Effect.orAt, Effect.orAt, hm w]
  rcases m w with ⟨e | a, w'⟩ <;> rfl

theorem each {ι : Type} {g g' : ι → Effect α} (hg : ∀ a, (g a).Forgets id (g' a)) :
    ∀ as : List ι, (Effect.each g as).Forgets id (Effect.each g' as)
  | [] => pure []
  | a :: as => bind (hg a) fun b => bind (each hg as) fun bs => pure (b :: bs)

theorem openChild (n : ScopeId) : (Effect.openChild n).Forgets id (Effect.openChild n) := by
  intro w
  rw [Effect.openChild, Effect.openChild, World.scopes_bare, Scopes.next_bare,
    ← World.bare_openChild]
  rfl

theorem findType (n : ScopeId) (name : String) :
    (Effect.findType n name).Forgets id (Effect.findType n name) :=
  same fun w => w.scopes.findType_bare n name

theorem bindAll (n : ScopeId) :
    ∀ bs : List (String × Binding), (Effect.bindAll n bs).Forgets id (Effect.bindAll n bs)
  | [] => pure ()
  | (name, b) :: rest =>
    bind (update fun w => w.bare_declareVariable n name b) fun _ => bindAll n rest

end Forgets

end Effect

open Effect (Forgets)

/-! ## The check -/

variable {n : ScopeId}

mutual

/-- **An expression has the same type without positions.** -/
theorem Expr.check_forgets (e : Expr) (n : ScopeId) :
    (e.check n).Forgets id (e.bare.check n) := by
  match e with
  | .literal p l => exact .orAt p (.same fun w => w.resolveName_bare n _)
  | .var p name =>
    exact .orAt p <| .bind (.same fun w => w.scopes.findVariable_bare n name) fun b =>
      .ask fun w => w.bindingType_bare b
  | .binary p op left right =>
    exact .orAt p <| .bind (left.check_forgets n) fun l => .bind (.findType n l) fun t =>
      .bind (right.check_forgets n) fun r =>
        .bind (.query fun w => w.resolveBinary_bare n op t r) fun r => .pure r.overload.ret
  | .unary p op operand =>
    exact .orAt p <| .bind (operand.check_forgets n) fun o => .bind (.findType n o) fun t =>
      .bind (.query fun w => w.resolveUnary_bare n op t) fun r => .pure r.overload.ret
  | .call p callee args =>
    exact .orAt p <| .bind (checkArgs_forgets args n) fun types =>
      .bind (.query fun w => w.resolveCall_bare n callee types) fun target =>
        .ask fun w => w.returnType_bare target
  | .methodCall p receiver method args =>
    exact .orAt p <| .bind (receiver.check_forgets n) fun r => .bind (.findType n r) fun t =>
      .bind (checkArgs_forgets args n) fun types =>
        .bind (.query fun w => w.resolveMethod_bare t method types) fun r => .pure r.overload.ret
  | .attr p object name =>
    refine .orAt p <| .bind (object.check_forgets n) fun o => .bind (.findType n o) fun t =>
      .same fun w => ?_
    rw [World.types_bare, Types.attrType?_bare, Types.name_bare]
    rfl

theorem checkArgs_forgets (es : List Expr) (n : ScopeId) :
    (checkArgs es n).Forgets id (checkArgs (bareArgs es) n) := by
  match es with
  | [] => exact .pure []
  | e :: es =>
    exact .bind (e.check_forgets n) fun type => .bind (checkArgs_forgets es n) fun types =>
      .pure (type :: types)

end

theorem checkInit_forgets (name declared : String) (init : Option Expr) (n : ScopeId) :
    (checkInit name declared init n).Forgets id
      (checkInit name declared (init.map Expr.bare) n) := by
  cases init with
  | none => exact .pure ()
  | some e =>
    refine .bind (e.check_forgets n) fun found => ?_
    rw [Expr.position_bare, id]
    split
    · exact .pure ()
    · exact .orAt _ (.fail _)

theorem checkCondition_forgets (e : Expr) (n : ScopeId) :
    (checkCondition e n).Forgets id (checkCondition e.bare n) := by
  refine .bind (e.check_forgets n) fun type => ?_
  rw [Expr.position_bare, id]
  split
  · exact .pure ()
  · exact .orAt _ (.fail _)

theorem checkHeader_forgets (d : FuncDef) (n : ScopeId) (defining : Option String) :
    (checkHeader d n defining).Forgets id (checkHeader d.bare n defining) := by
  have hnamed (name : String) :
      (query (·.typeNamed n defining name)).Forgets id (query (·.typeNamed n defining name)) :=
    .same fun w => w.typeNamed_bare n defining name
  unfold checkHeader
  rw [FuncDef.params_bare, FuncDef.ret_bare]
  refine .bind (.each (fun p => hnamed p.type) d.params) fun params => ?_
  cases d.ret with
  | none => exact .pure (Header.mk params Primitive.none.name)
  | some name => exact .bind (hnamed name) fun ret => .pure (Header.mk params ret)

theorem paramBindings_bare (d : FuncDef) (h : Header) :
    paramBindings d.bare h = paramBindings d h := by
  rw [paramBindings, paramBindings, FuncDef.params_bare]

theorem checkParents_forgets (d : TypeDef) (n : ScopeId) :
    (checkParents d n).Forgets id (checkParents d.bare n) := by
  unfold checkParents
  rw [TypeDef.parents_bare, TypeDef.name_bare]
  refine .each (fun name => .bind (.findType n name) fun t => .same fun w => ?_) d.parents
  rw [World.types_bare, Types.get_bare, Types.name_bare]
  rfl

theorem checkAttributes_forgets (n : ScopeId) (attributes : List AttributeDef)
    (attrs : Table String Attribute) :
    (checkAttributes n attributes attrs).Forgets id
      (checkAttributes n (attributes.map AttributeDef.bare) attrs) := by
  induction attributes generalizing attrs with
  | nil => exact .pure attrs
  | cons a rest ih =>
    exact .bind (.same fun w => w.resolveName_bare n a.type) fun type =>
      .bind (checkInit_forgets a.name type a.init n) fun _ => ih _

theorem checkConstructor_forgets (type : String) (m : FuncDef) (h : Header) :
    (checkConstructor type m h).Forgets id (checkConstructor type m.bare h) := by
  unfold checkConstructor
  rw [FuncDef.name_bare, FuncDef.position_bare]
  split
  · exact .orAt _ (.fail _)
  · exact .pure ()

theorem checkMethods_forgets (type : String) (n : ScopeId) (methods : List FuncDef)
    (table : Table Signature Overload) :
    (checkMethods type n methods table).Forgets (Prod.map bareTable id)
      (checkMethods type n (bareMethods methods) (bareTable table)) := by
  induction methods generalizing table with
  | nil => exact .pure (table, ([] : List Header))
  | cons m rest ih =>
    refine .bind (checkHeader_forgets m n (some type)) fun h =>
      .bind (checkConstructor_forgets type m h) fun _ => .bind (f := Prod.map bareTable id) ?_
        fun (table, hs) => .pure (table, h :: hs)
    have hrest := ih (table.insert (.method m.name h.params) (.ofMethod m n h.ret))
    rw [bareTable_insert, Overload.bare_ofMethod] at hrest
    rwa [FuncDef.name_bare]

theorem matchReturn_forgets (d : FuncDef) (declared : String) (inferred : Option String) :
    (matchReturn d declared inferred).Forgets id (matchReturn d.bare declared inferred) := by
  unfold matchReturn
  rw [FuncDef.name_bare, FuncDef.position_bare]
  dsimp only
  split
  · exact .pure ()
  · exact .orAt _ (.fail _)

mutual

/-- **A statement passes the check without positions, or fails for the same cause.** -/
theorem Stmt.check_forgets (s : Stmt) (n : ScopeId) :
    (s.check n).Forgets id (s.bare.check n) := by
  match s with
  | .expr p e => exact .orAt p <| .bind (e.check_forgets n) fun _ => .pure none
  | .declareVar p name type init =>
    exact .orAt p <| .bind (.same fun w => w.resolveName_bare n type) fun declared =>
      .bind (checkInit_forgets name declared init n) fun _ =>
        .bind (.update fun w => w.bare_declareVariable n name _) fun _ => .pure none
  | .defineFunc p d =>
    refine .orAt p <| .bind (checkHeader_forgets d n none) fun h => .bind (f := id) (.update ?_)
      fun _ => .bind (f := id) ?_ fun _ => .pure none
    · intro w
      rw [World.bare_declareFunction, Overload.bare_ofFunction, FuncDef.name_bare]
      rfl
    · rw [id, paramBindings_bare]
      exact d.checkBody_forgets n _ _
  | .defineType p d => exact .orAt p <| .bind (d.check_forgets n) fun _ => .pure none
  | .ifElse p branches none =>
    exact .orAt p <| .bind (checkBranches_forgets branches n none) fun found => .pure found
  | .ifElse p branches (some body) =>
    exact .orAt p <| .bind (checkBranches_forgets branches n none) fun found =>
      .bind (.openChild n) fun inner => .bind (checkBlock_forgets body inner none) fun type =>
        .same fun _ => rfl
  | .whileLoop p condition body =>
    exact .orAt p <| .bind (checkCondition_forgets condition n) fun _ =>
      .bind (.openChild n) fun inner => checkBlock_forgets body inner none
  | .returns p (some e) => exact .orAt p <| .bind (e.check_forgets n) fun type => .pure (some type)
  | .returns _ none => exact .pure (some Primitive.none.name)
  | .breakLoop _ => exact .pure none
  | .continueLoop _ => exact .pure none

theorem checkBlock_forgets (body : List Stmt) (n : ScopeId) (found : Option String) :
    (checkBlock body n found).Forgets id (checkBlock (bareBlock body) n found) := by
  match body with
  | [] => exact .pure found
  | s :: rest =>
    refine .bind (s.check_forgets n) fun type => .bind (f := id) ?_ fun found =>
      checkBlock_forgets rest n found
    rw [Stmt.position_bare]
    exact .orAt s.position (.same fun _ => rfl)

theorem checkBranches_forgets (branches : List Branch) (n : ScopeId) (found : Option String) :
    (checkBranches branches n found).Forgets id
      (checkBranches (bareBranches branches) n found) := by
  match branches with
  | [] => exact .pure found
  | .mk condition body :: rest =>
    exact .bind (checkCondition_forgets condition n) fun _ => .bind (.openChild n) fun inner =>
      .bind (checkBlock_forgets body inner none) fun type => .bind (.same fun _ => rfl) fun found =>
        checkBranches_forgets rest n found

theorem FuncDef.checkBody_forgets (d : FuncDef) (n : ScopeId) (params : List (String × Binding))
    (declared : String) :
    (d.checkBody n params declared).Forgets id (d.bare.checkBody n params declared) := by
  match d with
  | .mk p name ps ret body =>
    exact .bind (.openChild n) fun inner => .bind (.bindAll inner params) fun _ =>
      .bind (checkBlock_forgets body inner none) fun inferred =>
        matchReturn_forgets (.mk p name ps ret body) declared inferred

theorem TypeDef.check_forgets (d : TypeDef) (n : ScopeId) :
    (d.check n).Forgets id (d.bare.check n) := by
  match d with
  | .mk name parents attributes methods =>
    exact .bind (checkParents_forgets (.mk name parents attributes methods) n) fun parentTypes =>
      .bind (checkAttributes_forgets n attributes []) fun attrs =>
        .bind (checkMethods_forgets name n methods []) fun r =>
          .bind (.ask (f := id) fun w => w.types.next_bare) fun t =>
            .bind (.update fun w => w.bare_addType _) fun _ =>
              .bind (.update fun w => w.bare_declareType n name t) fun _ =>
                checkBodies_forgets name methods r.2 n

theorem checkBodies_forgets (type : String) (methods : List FuncDef) (headers : List Header)
    (n : ScopeId) :
    (checkBodies type methods headers n).Forgets id
      (checkBodies type (bareMethods methods) headers n) := by
  match methods, headers with
  | [], _ => exact .pure ()
  | _ :: _, [] => exact .pure ()
  | m :: methods, h :: headers =>
    refine .bind (f := id) ?_ fun _ => checkBodies_forgets type methods headers n
    rw [paramBindings_bare]
    exact m.checkBody_forgets n _ _

end

/-! ## Runs -/

namespace Run

/-- The run `m'` does in bare worlds what `m` does in worlds. -/
def Forgets (f : α → β) (m : Run α) (m' : Run β) : Prop :=
  ∀ w, m' w.bare = (m w).map (bareOutcome f)

namespace Forgets

variable {f : α → β} {k : γ → δ} {m : Run α} {m' : Run β} {g : α → Run γ} {g' : β → Run δ}

theorem exhausted : (Run.exhausted : Run α).Forgets f Run.exhausted := fun _ => rfl

theorem pure (a : α) : (Pure.pure a : Run α).Forgets f (Pure.pure (f a)) := fun _ => rfl

theorem lift {m : Effect α} {m' : Effect β} (h : m.Forgets f m') :
    (liftM m : Run α).Forgets f (liftM m') :=
  fun w => congrArg some (h w)

/-- **One step after another.** -/
theorem bind (hm : m.Forgets f m') (hg : ∀ a, (g a).Forgets k (g' (f a))) :
    (m >>= g).Forgets k (m' >>= g') := by
  intro w
  rw [bind_apply, bind_apply, hm w]
  rcases m w with _ | ⟨e | a, w'⟩
  · rfl
  · rfl
  · exact hg a w'

theorem orAt (p : Option Position) (hm : m.Forgets f m') :
    (m.orAt p).Forgets f (m'.orAt none) := by
  intro w
  rw [Run.orAt, Run.orAt, hm w]
  rcases m w with _ | ⟨e | a, w'⟩ <;> rfl

theorem each {ι κ : Type} {g : ι → Run α} {g' : κ → Run α} {φ : ι → κ}
    (hg : ∀ a, (g a).Forgets id (g' (φ a))) :
    ∀ as : List ι, (Run.each g as).Forgets id (Run.each g' (as.map φ))
  | [] => pure []
  | a :: as => bind (hg a) fun b => bind (each hg as) fun bs => pure (b :: bs)

end Forgets

end Run

open Run.Forgets (lift)

/-! ## Operations of the prelude and of the host -/

theorem plain_forgets (n : ScopeId) (l : Literal) : (plain n l).Forgets id (plain n l) :=
  .bind (.findType n _) fun t => .pure (Value.plain t l)

theorem Builtin.run_forgets (b : Builtin) (n : ScopeId) (args : List Value) :
    (b.run n args).Forgets id (b.run n args) := by
  cases b with
  | fresh value => exact plain_forgets n value
  | convert source target =>
    exact .bind (.same fun _ => rfl) fun (_, v) => .bind (.same fun w => w.datumOf_bare source v)
      fun l => .bind (.same fun _ => rfl) fun r => plain_forgets n r
  | render =>
    exact .bind (.same fun _ => rfl) fun (_, v) => .bind (.ask (f := id) fun w => w.textOf_bare v)
      fun text => plain_forgets n (.string text)
  | binary type op =>
    exact .bind (.same fun _ => rfl) fun (v, u) => .bind (.same fun w => w.datumOf_bare type v)
      fun l => .bind (.same fun w => w.datumOf_bare type u) fun r =>
        .bind (.same fun _ => rfl) fun x => plain_forgets n x
  | unary type op =>
    exact .bind (.same fun _ => rfl) fun v => .bind (.same fun w => w.datumOf_bare type v)
      fun l => .bind (.same fun _ => rfl) fun x => plain_forgets n x
  | print =>
    exact .bind (.same fun _ => rfl) fun v => .bind (.ask (f := id) fun w => w.textOf_bare v)
      fun text => .bind (.update fun _ => rfl) fun _ => plain_forgets n .none

theorem hostCall_forgets (index : Nat) (n : ScopeId) (args : List Value) :
    (hostCall index n args).Forgets id (hostCall index n args) := by
  refine .bind (.ask (f := id) fun _ => rfl) fun h => .bind (.update fun _ => rfl) fun _ => ?_
  cases h with
  | constant v => exact .pure v
  | argument i =>
    dsimp only [id]
    cases args[i]? with
    | some v => exact .pure v
    | none => exact .fail _
  | argumentCount => exact plain_forgets n _
  | counter next => exact plain_forgets n _
  | countdown left => exact plain_forgets n _
  | failure c => exact .fail c

theorem variableValue_forgets (n : ScopeId) (name : String) :
    (variableValue n name).Forgets id (variableValue n name) := by
  refine .same fun w => ?_
  rw [World.scopes_bare, Scopes.findVariable_bare]

theorem truth_forgets (condition : Expr) (v : Value) :
    (truth condition v).Forgets id (truth condition.bare v) := by
  have hfail : Forgets (id : Bool → Bool) (Effect.orAt condition.position do
        let type ← ask (·.typeName v)
        fail (.conditionNotBool type)) (Effect.orAt condition.bare.position do
        let type ← ask (·.typeName v)
        fail (.conditionNotBool type)) := by
    rw [Expr.position_bare]
    exact .orAt _ <| .bind (.ask (f := id) fun w => w.typeName_bare v) fun type => .fail _
  cases v with
  | plain t l =>
    cases l with
    | bool b => exact .pure b
    | none | int | float | string => exact hfail
  | object => exact hfail

/-! ## Values and arguments -/

section Calls

variable {call : Overload → ScopeId → List Value → Run Value}
  (hcall : ∀ o n args, (call o n args).Forgets id (call o.bare n args))

include hcall

theorem instantiate_forgets (t : TypeId) (n : ScopeId) :
    (instantiate call t n).Forgets id (instantiate call t n) := by
  refine .bind (lift (.ask (f := id) fun w => w.types.blank_bare t)) fun blank =>
    .bind (lift (.ask fun w => w.types.ownMethod?_bare t _)) fun init => ?_
  cases init with
  | none => exact .pure blank
  | some o => exact hcall o n [blank]

theorem invokeTarget_forgets (target : Target) (n : ScopeId) (args : List Value) :
    (invokeTarget call target n args).Forgets id (invokeTarget call target.bare n args) := by
  cases target with
  | function o => exact hcall o n args
  | construct t => exact instantiate_forgets hcall t n
  | constructWith t o =>
    exact .bind (lift (.ask (f := id) fun w => w.types.blank_bare t)) fun blank =>
      hcall o n (blank :: args)

theorem initialValue_forgets {eval : Expr → Run Value}
    (heval : ∀ e, (eval e).Forgets id (eval e.bare)) (n : ScopeId) (type : String)
    (init : Option Expr) :
    (initialValue eval call n type init).Forgets id
      (initialValue eval call n type (init.map Expr.bare)) := by
  cases init with
  | none => exact .bind (lift (.findType n type)) fun t => instantiate_forgets hcall t n
  | some e => exact heval e

end Calls

/-! ## Blocks -/

theorem runBlock_forgets {step : Stmt → Run Flow} (h : ∀ s, (step s).Forgets id (step s.bare))
    (body : Block) : (runBlock step body).Forgets id (runBlock step (bareBlock body)) := by
  induction body with
  | nil => exact .pure Flow.normal
  | cons s rest ih =>
    refine .bind (h s) fun flow => ?_
    cases flow with
    | normal => exact ih
    | returns v => exact .pure (Flow.returns v)
    | breakLoop => exact .pure Flow.breakLoop
    | continueLoop => exact .pure Flow.continueLoop

section Blocks

variable {step : Stmt → ScopeId → Run Flow}
  (hstep : ∀ s n, (step s n).Forgets id (step s.bare n))

include hstep

theorem innerBlock_forgets (body : Block) (n : ScopeId) :
    ((liftM (openChild n) : Run ScopeId) >>= fun inner => runBlock (step · inner) body).Forgets id
      ((liftM (openChild n) : Run ScopeId) >>= fun inner =>
        runBlock (step · inner) (bareBlock body)) :=
  .bind (lift (.openChild n)) fun inner => runBlock_forgets (hstep · inner) body

theorem runBranches_forgets {eval : Expr → Run Value}
    (heval : ∀ e, (eval e).Forgets id (eval e.bare)) (n : ScopeId) (default : Option Block)
    (branches : List Branch) :
    (runBranches eval step n default branches).Forgets id
      (runBranches eval step n (default.map bareBlock) (bareBranches branches)) := by
  induction branches with
  | nil =>
    cases default with
    | none => exact .pure Flow.normal
    | some body => exact innerBlock_forgets hstep body n
  | cons b rest ih =>
    obtain ⟨condition, body⟩ := b
    refine .bind (heval condition) fun v => .bind (lift (truth_forgets condition v)) fun holds => ?_
    cases holds with
    | true => exact innerBlock_forgets hstep body n
    | false => exact ih

theorem applyClosure_forgets (params : List String) (body : Block) (captured : ScopeId)
    (args : List Value) :
    (applyClosure step params body captured args).Forgets id
      (applyClosure step params (bareBlock body) captured args) := by
  unfold applyClosure
  split
  · refine .bind (lift (.openChild captured)) fun inner => .bind (lift (.bindAll inner _)) fun _ =>
      .bind (runBlock_forgets (hstep · inner) body) fun flow => ?_
    cases flow with
    | returns v => exact .pure v
    | normal | breakLoop | continueLoop => exact .pure none
  · exact lift (.fail _)

/-- **A call without positions.** -/
theorem invokeWith_forgets (o : Overload) (n : ScopeId) (args : List Value) :
    (invokeWith step o n args).Forgets id (invokeWith step o.bare n args) := by
  obtain ⟨ret, callable⟩ := o
  cases callable with
  | builtin b => exact lift (b.run_forgets n args)
  | host index => exact lift (hostCall_forgets index n args)
  | closure params body captured =>
    refine .bind (applyClosure_forgets hstep params body captured args) fun result => ?_
    cases result with
    | some v => exact .pure v
    | none =>
      let ended : Run Value :=
        if ret = Primitive.none.name then liftM (plain n .none)
        else liftM (fail (.missingReturn ret) : Effect Value)
      change ended.Forgets id ended
      unfold ended
      split
      · exact lift (plain_forgets n .none)
      · exact lift (.fail _)

end Blocks

/-! ## Type definitions -/

theorem defaultAttributes_forgets {init : AttributeDef → Run Value}
    (hinit : ∀ a, (init a).Forgets id (init a.bare)) (attributes : List AttributeDef)
    (attrs : Table String Attribute) :
    (defaultAttributes init attributes attrs).Forgets id
      (defaultAttributes init (attributes.map AttributeDef.bare) attrs) := by
  induction attributes generalizing attrs with
  | nil => exact .pure attrs
  | cons a rest ih => exact .bind (hinit a) fun v => ih _

theorem defineType_forgets {init : AttributeDef → Run Value}
    (hinit : ∀ a, (init a).Forgets id (init a.bare)) (d : TypeDef) (n : ScopeId) :
    (defineType init d n).Forgets id (defineType init d.bare n) := by
  unfold defineType
  rw [TypeDef.name_bare, TypeDef.parents_bare, TypeDef.attributes_bare, TypeDef.methods_bare]
  refine .bind (lift (.each (.findType n) d.parents)) fun parents =>
    .bind (defaultAttributes_forgets hinit d.attributes []) fun attrs =>
      .bind (lift (.ask (f := id) fun w => w.types.next_bare)) fun t =>
        .bind (f := id) (lift (.update fun w => ?_)) fun _ =>
          lift (.update fun w => w.bare_declareType n d.name t)
  rw [World.bare_addType, methodTable_bare]
  rfl

/-! ## One level of evaluation -/

section Level

variable {eval : Expr → ScopeId → Run Value} {step : Stmt → ScopeId → Run Flow}
  {repeating : Expr → Block → ScopeId → Run Flow}
  {call : Overload → ScopeId → List Value → Run Value}
  (heval : ∀ e n, (eval e n).Forgets id (eval e.bare n))
  (hstep : ∀ s n, (step s n).Forgets id (step s.bare n))
  (hrepeating : ∀ condition body n,
    (repeating condition body n).Forgets id (repeating condition.bare (bareBlock body) n))
  (hcall : ∀ o n args, (call o n args).Forgets id (call o.bare n args))

include heval hcall in
/-- **An expression has the same value without positions.** -/
theorem evaluateWith_forgets (e : Expr) (n : ScopeId) :
    (evaluateWith eval call e n).Forgets id (evaluateWith eval call e.bare n) := by
  unfold evaluateWith
  rw [Expr.position_bare]
  refine .orAt _ ?_
  cases e with
  | literal _ l => exact lift (plain_forgets n l)
  | var _ name => exact lift (variableValue_forgets n name)
  | binary _ op left right =>
    refine .bind (heval left n) fun l => .bind (heval right n) fun r =>
      .bind (f := Resolved.bare) (lift (.query fun w => ?_)) fun target => hcall target.overload n _
    rw [World.typeName_bare, World.resolveBinary_bare]
    rfl
  | unary _ op operand =>
    exact .bind (heval operand n) fun o =>
      .bind (lift (.query fun w => w.resolveUnary_bare n op o.type)) fun target =>
        hcall target.overload n _
  | call _ callee args =>
    refine .bind (f := id) ?_ fun vs => .bind (lift (.query fun w => ?_)) fun target =>
      invokeTarget_forgets hcall target n vs
    · rw [bareArgs_eq_map]
      exact .each (heval · n) args
    · rw [funext w.typeName_bare, World.resolveCall_bare]
      rfl
  | methodCall _ receiver method args =>
    refine .bind (heval receiver n) fun v => .bind (f := id) ?_ fun vs =>
      .bind (f := Resolved.bare) (lift (.query fun w => ?_)) fun target => hcall target.overload n _
    · rw [bareArgs_eq_map]
      exact .each (heval · n) args
    · rw [funext w.typeName_bare, World.resolveMethod_bare]
      rfl
  | attr _ object name =>
    refine .bind (heval object n) fun v => lift (.same fun w => ?_)
    rw [World.typeName_bare]
    rfl

include heval hstep hrepeating hcall in
/-- **A statement does the same without positions.** -/
theorem executeWith_forgets (s : Stmt) (n : ScopeId) :
    (executeWith eval step repeating call s n).Forgets id
      (executeWith eval step repeating call s.bare n) := by
  have hinit := initialValue_forgets hcall (heval · n) n
  unfold executeWith
  rw [Stmt.position_bare]
  refine .orAt _ ?_
  cases s with
  | expr _ e => exact .bind (heval e n) fun _ => .pure Flow.normal
  | declareVar _ name type init =>
    exact .bind (hinit type init) fun v =>
      .bind (lift (.update fun w => w.bare_declareVariable n name (.value v))) fun _ =>
        .pure Flow.normal
  | defineFunc _ d =>
    refine .bind (f := id) (lift (.update fun w => ?_)) fun _ => .pure Flow.normal
    rw [World.bare_declareFunction, Overload.bare_ofFunction, FuncDef.name_bare,
      FuncDef.params_bare, FuncDef.returnType_bare]
  | defineType _ d =>
    exact .bind (defineType_forgets (fun a => hinit a.type a.init) d n) fun _ => .pure Flow.normal
  | ifElse _ branches default =>
    have hbranches := runBranches_forgets hstep (heval · n) n default branches
    cases default <;> exact hbranches
  | whileLoop _ condition body => exact hrepeating condition body n
  | returns _ value =>
    cases value with
    | none => exact .pure (Flow.returns none)
    | some e => exact .bind (heval e n) fun v => .pure (Flow.returns (some v))
  | breakLoop => exact .pure Flow.breakLoop
  | continueLoop => exact .pure Flow.continueLoop

include heval hstep hrepeating in
theorem loopWith_forgets (condition : Expr) (body : Block) (n : ScopeId) :
    (loopWith eval step repeating condition body n).Forgets id
      (loopWith eval step repeating condition.bare (bareBlock body) n) := by
  refine .bind (heval condition n) fun v => .bind (lift (truth_forgets condition v)) fun holds => ?_
  cases holds with
  | false => exact .pure Flow.normal
  | true =>
    refine .bind (lift (.openChild n)) fun inner =>
      .bind (runBlock_forgets (hstep · inner) body) fun flow => ?_
    cases flow with
    | returns v => exact .pure (Flow.returns v)
    | breakLoop => exact .pure Flow.normal
    | normal | continueLoop => exact hrepeating condition body n

end Level

/-! ## The evaluator -/

/-- The four kinds of runs with one bound do the same without positions. -/
structure RunsForget (fuel : Nat) : Prop where
  evaluate : ∀ e n, (evaluate fuel e n).Forgets id (evaluate fuel e.bare n)
  execute : ∀ s n, (execute fuel s n).Forgets id (execute fuel s.bare n)
  loop : ∀ condition body n,
    (loop fuel condition body n).Forgets id (loop fuel condition.bare (bareBlock body) n)
  invoke : ∀ o n args, (invoke fuel o n args).Forgets id (invoke fuel o.bare n args)

/-- **Every run of the evaluator does the same without positions.** -/
theorem runsForget : ∀ fuel, RunsForget fuel
  | 0 => ⟨fun _ _ => .exhausted, fun _ _ => .exhausted, fun _ _ _ => .exhausted,
      fun _ _ _ => .exhausted⟩
  | fuel + 1 =>
    have ih := runsForget fuel
    ⟨evaluateWith_forgets ih.evaluate ih.invoke,
      executeWith_forgets ih.evaluate ih.execute ih.loop ih.invoke,
      loopWith_forgets ih.evaluate ih.execute ih.loop, invokeWith_forgets ih.execute⟩

end Nominal
