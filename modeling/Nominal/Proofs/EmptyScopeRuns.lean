import Nominal.Proofs.EmptyScopes

/-!
# Runs around an empty scope

An evaluation gives the same value and makes the same changes, whether it begins in a scope or in an
empty scope inside it. A closure may have captured the empty scope: its body runs in a new scope,
from which the same is seen.

* **`Builtin.run_inStep`**, **`hostCall_inStep`**: natives.
* **`evaluateWith_inStep`**, **`executeWith_inStep`**, `loopWith_inStep`, `invokeWith_inStep`: one
  level of evaluation.
* **`runsInStep`**: the evaluator with any bound.
* `runBranches_inStep`: branches in a scope and in an empty scope inside it.
-/

namespace Nominal

open Effect (plain fail findType)

variable {n k m m' : ScopeId}

/-! ## Natives -/

/-- **An operation of the prelude.** -/
theorem Builtin.run_inStep (b : Builtin) (hm : Beside n k m m') (args : List Value) :
    (b.run m args).InStep n k (b.run m' args) := by
  cases b with
  | fresh value => exact .plain hm value
  | convert source target =>
    exact .bind (.const _) fun (_, v) => .bind (.query fun _ _ h => h.datumOf source v) fun l =>
      .bind (.const _) fun r => .plain hm r
  | render =>
    exact .bind (.const _) fun (_, v) => .bind (.ask fun _ _ h => h.textOf v) fun text =>
      .plain hm _
  | binary type op =>
    exact .bind (.const _) fun (v, u) => .bind (.query fun _ _ h => h.datumOf type v) fun l =>
      .bind (.query fun _ _ h => h.datumOf type u) fun r => .bind (.const _) fun x => .plain hm x
  | unary type op =>
    exact .bind (.const _) fun v => .bind (.query fun _ _ h => h.datumOf type v) fun l =>
      .bind (.const _) fun x => .plain hm x
  | print =>
    exact .bind (.const _) fun v => .bind (.ask fun _ _ h => h.textOf v) fun text =>
      .bind (.update fun _ _ h => h.writeLine text) fun _ => .plain hm .none

/-- **A function of the host.** -/
theorem hostCall_inStep (index : Nat) (hm : Beside n k m m') (args : List Value) :
    (hostCall index m args).InStep n k (hostCall index m' args) := by
  refine .bind (.ask fun _ _ h => by rw [h.hosts]) fun host =>
    .bind (.update fun _ _ h => h.advanceHost index) fun _ => ?_
  cases host with
  | constant v => exact .pure v
  | argument i =>
    dsimp only
    cases args[i]? with
    | some v => exact .pure v
    | none => exact .fail _
  | argumentCount => exact .plain hm _
  | counter next => exact .plain hm _
  | countdown left => exact .plain hm _
  | failure c => exact .fail c

theorem truth_inStep (condition : Expr) (v : Value) :
    (truth condition v).InStep n k (truth condition v) := by
  have hfail : (Effect.orAt condition.position (do
        let type ← Effect.ask (·.typeName v)
        fail (.conditionNotBool type)) : Effect Bool).InStep n k
      (Effect.orAt condition.position do
        let type ← Effect.ask (·.typeName v)
        fail (.conditionNotBool type)) :=
    .orAt (.bind (.ask fun _ _ h => h.typeName v) fun type => .fail _) _
  cases v with
  | plain t l =>
    cases l with
    | bool b => exact .pure b
    | none | int | float | string => exact hfail
  | object => exact hfail

/-! ## Calls -/

section Calls

variable {call : Overload → ScopeId → List Value → Run Value}
  (hcall : ∀ o {m m'} args, Beside n k m m' → (call o m args).InStep n k (call o m' args))

include hcall

theorem instantiate_inStep (t : TypeId) (hm : Beside n k m m') :
    (instantiate call t m).InStep n k (instantiate call t m') := by
  refine .bind (.lift (.ask fun _ _ h => by rw [h.types])) fun blank =>
    .bind (.lift (.ask fun _ _ h => by rw [h.types])) fun init => ?_
  cases init with
  | none => exact .pure blank
  | some o => exact hcall o [blank] hm

theorem invokeTarget_inStep (target : Target) (hm : Beside n k m m') (args : List Value) :
    (invokeTarget call target m args).InStep n k (invokeTarget call target m' args) := by
  cases target with
  | function o => exact hcall o args hm
  | construct t => exact instantiate_inStep hcall t hm
  | constructWith t o =>
    exact .bind (.lift (.ask fun _ _ h => by rw [h.types])) fun blank =>
      hcall o (blank :: args) hm

theorem initialValue_inStep {eval : Expr → Run Value} (heval : ∀ e, (eval e).InStep n k (eval e))
    (type : String) (init : Option Expr) :
    (initialValue eval call m type init).InStep n k (initialValue eval call m type init) := by
  cases init with
  | none =>
    exact .bind (.lift (.findType (.same m) type)) fun t => instantiate_inStep hcall t (.same m)
  | some e => exact heval e

end Calls

/-! ## Blocks -/

section Blocks

variable {step : Stmt → ScopeId → Run Flow}
  (hstep : ∀ s {m}, m ≠ k → (step s m).InStep n k (step s m))

include hstep

theorem runBlock_inStep (hm : m ≠ k) :
    ∀ body : Block, (runBlock (step · m) body).InStep n k (runBlock (step · m) body)
  | [] => .pure Flow.normal
  | s :: rest => .bind (hstep s hm) fun flow => by
    cases flow with
    | normal => exact runBlock_inStep hm rest
    | returns | breakLoop | continueLoop => exact .pure _

theorem innerBlock_inStep (body : Block) (hm : Beside n k m m') :
    Run.InStep n k (do
      let inner ← Effect.openChild m
      runBlock (step · inner) body) (do
      let inner ← Effect.openChild m'
      runBlock (step · inner) body) :=
  .openChild hm fun _ hinner => runBlock_inStep hstep hinner body

/-- **Branches in a scope and in an empty scope inside it.** -/
theorem runBranches_inStep {eval eval' : Expr → Run Value}
    (heval : ∀ e, (eval e).InStep n k (eval' e)) (hm : Beside n k m m') (default : Option Block)
    (branches : List Branch) :
    (runBranches eval step m default branches).InStep n k
      (runBranches eval' step m' default branches) := by
  induction branches with
  | nil =>
    cases default with
    | none => exact .pure Flow.normal
    | some body => exact innerBlock_inStep hstep body hm
  | cons branch rest ih =>
    obtain ⟨condition, body⟩ := branch
    refine .bind (heval condition) fun v => .bind (.lift (truth_inStep condition v)) fun holds => ?_
    cases holds with
    | true => exact innerBlock_inStep hstep body hm
    | false => exact ih

theorem applyClosure_inStep (params : List String) (body : Block) (captured : ScopeId)
    (args : List Value) :
    (applyClosure step params body captured args).InStep n k
      (applyClosure step params body captured args) := by
  unfold applyClosure
  split
  · refine .openChild (.same captured) fun inner hinner =>
      .bind (.lift (.bindAll hinner _)) fun _ => .bind (runBlock_inStep hstep hinner body)
        fun flow => ?_
    cases flow with
    | returns v => exact .pure v
    | normal | breakLoop | continueLoop => exact .pure none
  · exact .lift (.fail _)

end Blocks

/-! ## One level of evaluation -/

section Level

variable {eval : Expr → ScopeId → Run Value} {step : Stmt → ScopeId → Run Flow}
  {repeating : Expr → Block → ScopeId → Run Flow}
  {call : Overload → ScopeId → List Value → Run Value}
  (heval : ∀ e {m m'}, Beside n k m m' → (eval e m).InStep n k (eval e m'))
  (hstep : ∀ s {m}, m ≠ k → (step s m).InStep n k (step s m))
  (hrepeating : ∀ condition body m,
    (repeating condition body m).InStep n k (repeating condition body m))
  (hcall : ∀ o {m m'} args, Beside n k m m' → (call o m args).InStep n k (call o m' args))

include heval hcall in
/-- **An expression has the same value in a scope and in an empty scope inside it.** -/
theorem evaluateWith_inStep (e : Expr) (hm : Beside n k m m') :
    (evaluateWith eval call e m).InStep n k (evaluateWith eval call e m') := by
  have hargs := Run.InStep.each (n := n) (k := k) (fun e => heval e hm)
  refine .orAt ?_ _
  cases e with
  | literal _ l => exact .lift (.plain hm l)
  | var _ name => exact .lift (.query fun _ _ h => by rw [h.findVariable hm])
  | binary _ op left right =>
    exact .bind (heval left hm) fun v => .bind (heval right hm) fun u =>
      .bind (.lift (.query fun _ _ h => by rw [h.typeName, h.resolveBinary hm])) fun r =>
        hcall _ _ hm
  | unary _ op operand =>
    exact .bind (heval operand hm) fun v =>
      .bind (.lift (.query fun _ _ h => h.resolveUnary hm op v.type)) fun r => hcall _ _ hm
  | call _ callee args =>
    refine .bind (hargs args) fun vs => .bind (.lift (.query fun w w' h => ?_)) fun target =>
      invokeTarget_inStep hcall target hm vs
    rw [funext h.typeName, h.resolveCall hm]
  | methodCall _ receiver method args =>
    refine .bind (heval receiver hm) fun v => .bind (hargs args) fun vs =>
      .bind (.lift (.query fun w w' h => ?_)) fun r => hcall _ _ hm
    rw [funext h.typeName, h.resolveMethod]
  | attr _ object name =>
    exact .bind (heval object hm) fun v => .lift (.query fun _ _ h => by rw [h.typeName])

theorem defaultAttributes_inStep {init : AttributeDef → Run Value}
    (hinit : ∀ a, (init a).InStep n k (init a)) :
    ∀ (attributes : List AttributeDef) (attrs : Table String Attribute),
      (defaultAttributes init attributes attrs).InStep n k (defaultAttributes init attributes attrs)
  | [], attrs => .pure attrs
  | a :: rest, _ => .bind (hinit a) fun _ => defaultAttributes_inStep hinit rest _

theorem defineType_inStep {init : AttributeDef → Run Value}
    (hinit : ∀ a, (init a).InStep n k (init a)) (d : TypeDef) (hm : m ≠ k) :
    (defineType init d m).InStep n k (defineType init d m) := by
  refine .bind (.lift (.each (fun name => .findType (.same m) name) _)) fun parents =>
    .bind (defaultAttributes_inStep hinit d.attributes []) fun attrs => ?_
  refine .bind (.lift (.ask fun _ _ h => congrArg Types.next h.types)) fun t => ?_
  refine .bind (.lift (.update fun _ _ h => h.addType _)) fun _ => ?_
  exact .lift (.update fun _ _ h => h.declareType hm d.name t)

include heval hstep hrepeating hcall in
/-- **A statement outside the empty scope.** -/
theorem executeWith_inStep (s : Stmt) (hm : m ≠ k) :
    (executeWith eval step repeating call s m).InStep n k
      (executeWith eval step repeating call s m) := by
  have hinit := initialValue_inStep (m := m) hcall fun e => heval e (.same m)
  refine .orAt ?_ _
  cases s with
  | expr _ e => exact .bind (heval e (.same m)) fun _ => .pure _
  | declareVar _ name type init =>
    refine .bind (hinit type init) fun v => .bind ?_ fun _ => .pure _
    exact .lift (.update fun _ _ h => h.declareVariable hm name (.value v))
  | defineFunc _ d =>
    refine .bind ?_ fun _ => .pure _
    exact .lift (.update fun _ _ h => h.declareFunction hm _ _)
  | defineType _ d =>
    exact .bind (defineType_inStep (fun a => hinit a.type a.init) d hm) fun _ => .pure _
  | ifElse _ branches default =>
    exact runBranches_inStep hstep (fun e => heval e (.same m)) (.same m) default branches
  | whileLoop _ condition body => exact hrepeating condition body m
  | returns _ value =>
    cases value with
    | none => exact .pure _
    | some e => exact .bind (heval e (.same m)) fun v => .pure _
  | breakLoop | continueLoop => exact .pure _

include heval hstep hrepeating in
theorem loopWith_inStep (condition : Expr) (body : Block) (m : ScopeId) :
    (loopWith eval step repeating condition body m).InStep n k
      (loopWith eval step repeating condition body m) := by
  refine .bind (heval condition (.same m)) fun v =>
    .bind (.lift (truth_inStep condition v)) fun holds => ?_
  cases holds with
  | false => exact .pure _
  | true =>
    refine .openChild (.same m) fun inner hinner => .bind (runBlock_inStep hstep hinner body)
      fun flow => ?_
    cases flow with
    | normal | continueLoop => exact hrepeating condition body m
    | returns | breakLoop => exact .pure _

include hstep in
theorem invokeWith_inStep (o : Overload) (args : List Value) (hm : Beside n k m m') :
    (invokeWith step o m args).InStep n k (invokeWith step o m' args) := by
  unfold invokeWith
  cases o.callable with
  | builtin b => exact .lift (b.run_inStep hm args)
  | host index => exact .lift (hostCall_inStep index hm args)
  | closure params body captured =>
    refine .bind (applyClosure_inStep hstep params body captured args) fun result => ?_
    cases result with
    | some v => exact .pure v
    | none =>
      dsimp only
      split
      · exact .lift (.plain hm .none)
      · exact .lift (.fail _)

end Level

/-! ## The evaluator -/

/-- The four kinds of runs with one bound, where an empty scope is aside. -/
structure RunsInStep (n k : ScopeId) (fuel : Nat) : Prop where
  evaluate : ∀ e {m m'}, Beside n k m m' → (evaluate fuel e m).InStep n k (evaluate fuel e m')
  execute : ∀ s {m}, m ≠ k → (execute fuel s m).InStep n k (execute fuel s m)
  loop : ∀ condition body m, (loop fuel condition body m).InStep n k (loop fuel condition body m)
  invoke : ∀ o {m m'} args, Beside n k m m' →
    (invoke fuel o m args).InStep n k (invoke fuel o m' args)

/-- **Every run of the evaluator.** -/
theorem runsInStep (n k : ScopeId) : ∀ fuel, RunsInStep n k fuel
  | 0 => ⟨fun _ _ _ _ => .exhausted, fun _ _ _ => .exhausted, fun _ _ _ => .exhausted,
      fun _ _ _ _ _ => .exhausted⟩
  | fuel + 1 =>
    have ih := runsInStep n k fuel
    ⟨fun e _ _ => evaluateWith_inStep ih.evaluate ih.invoke e,
      fun s _ => executeWith_inStep ih.evaluate ih.execute ih.loop ih.invoke s,
      loopWith_inStep ih.evaluate ih.execute ih.loop,
      fun o _ _ args => invokeWith_inStep ih.execute o args⟩

end Nominal
