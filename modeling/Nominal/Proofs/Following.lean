import Nominal.Proofs.Copies
import Nominal.Proofs.Frame

/-!
# Runs in copies of worlds

A run in a copy of a world does what it does in the world: it ends in the same way, with the result
renamed and in a copy of the world that it leads to, and it prints the same. The one exception are
failures for names that only the copy knows.

* `Copying.Outcomes`: the outcome of a run and that of the run in the copy.
* `Run.Follows`: one run does in every copy what another one does in the world.
* **`Run.Follows.bind`**, **`Run.Follows.query_bind`**: one step after another.
* **`evaluateWith_follows`**, **`executeWith_follows`**, `loopWith_follows`,
  **`invokeWith_follows`**: one level of evaluation.
* **`runsFollow`**: the evaluator with any bound.
-/

namespace Nominal

open Effect (ask query update fail findType plain openChild bindAll)

variable {α β γ δ : Type} {κ : Copying}

/-! ## Outcomes -/

/-- The outcome of a run in a world, and the outcome in a copy: none for both, a result and the same
result renamed, the same failure in both, or a failure for a name that only the copy knows. -/
inductive Copying.Outcomes (κ : Copying) (f : α → β) :
    Option (Except EvalError α × World) → Option (Except EvalError β × World) → Prop
  | exhausted : κ.Outcomes f none none
  | ok {a : α} {w w' : World} (h : κ.Copies w w') :
    κ.Outcomes f (some (.ok a, w)) (some (.ok (f a), w'))
  | error {e : EvalError} {w w' : World} (h : κ.Copies w w') :
    κ.Outcomes f (some (.error e, w)) (some (.error e, w'))
  | lost {e : EvalError} {w : World} {r : Option (Except EvalError β × World)}
    (h : κ.extra.Missing e.cause) : κ.Outcomes f (some (.error e, w)) r

/-- **One step after another**, when the first has an outcome in the world and in the copy. -/
theorem Copying.Outcomes.bind {m : Run α} {m' : Run β} {g : α → Run γ} {g' : β → Run δ} {f : α → β}
    {k : γ → δ} {w w' : World} (hm : κ.Outcomes f (m w) (m' w'))
    (hg : ∀ a v v', m w = some (.ok a, v) → κ.Copies v v' →
      κ.Outcomes k (g a v) (g' (f a) v')) :
    κ.Outcomes k ((m >>= g) w) ((m' >>= g') w') := by
  rw [Run.bind_apply, Run.bind_apply]
  revert hg
  generalize m w = r, m' w' = r' at hm
  intro hg
  cases hm with
  | exhausted => exact .exhausted
  | ok h => exact hg _ _ _ rfl h
  | error h => exact .error h
  | lost h => exact .lost h

/-- The run `m'` does in every copy what `m` does in the world. -/
def Run.Follows (κ : Copying) (f : α → β) (m : Run α) (m' : Run β) : Prop :=
  ∀ w w', κ.Copies w w' → κ.Outcomes f (m w) (m' w')

namespace Run.Follows

variable {f : α → β} {k : γ → δ} {m : Run α} {m' : Run β} {g : α → Run γ} {g' : β → Run δ}

theorem exhausted : (Run.exhausted : Run α).Follows κ f Run.exhausted := fun _ _ _ => .exhausted

theorem pure (a : α) : (Pure.pure a : Run α).Follows κ f (Pure.pure (f a)) := fun _ _ h => .ok h

theorem fail (c : Cause) :
    (liftM (Effect.fail c : Effect α) : Run α).Follows κ f (liftM (Effect.fail c : Effect β)) :=
  fun _ _ h => .error h

theorem bind (hm : m.Follows κ f m') (hg : ∀ a, (g a).Follows κ k (g' (f a))) :
    (m >>= g).Follows κ k (m' >>= g') :=
  fun w w' h => (hm w w' h).bind fun a v v' _ hv => hg a v v' hv

theorem orAt (hm : m.Follows κ f m') (p : Option Position) :
    (m.orAt p).Follows κ f (m'.orAt p) := by
  intro w w' h
  have hw := hm w w' h
  unfold Run.orAt
  generalize m w = r, m' w' = r' at hw
  cases hw with
  | exhausted => exact .exhausted
  | ok h => exact .ok h
  | error h => exact .error h
  | lost h => exact .lost h

theorem update {c c' : World → World} (h : ∀ w w', κ.Copies w w' → κ.Copies (c w) (c' w')) :
    (liftM (Effect.update c) : Run Unit).Follows κ id (liftM (Effect.update c')) :=
  fun w w' hw => .ok (h w w' hw)

theorem ask_bind {q : World → α} {q' : World → β} (hq : ∀ w w', κ.Copies w w' → q' w' = f (q w))
    (hg : ∀ a, (g a).Follows κ k (g' (f a))) :
    ((liftM (Effect.ask q) : Run α) >>= g).Follows κ k
      ((liftM (Effect.ask q') : Run β) >>= g') := by
  intro w w' h
  change κ.Outcomes k (g (q w) w) (g' (q' w') w')
  rw [hq w w' h]
  exact hg _ w w' h

theorem query {q : World → Except Cause α} {q' : World → Except Cause β}
    (hq : ∀ w w', κ.Copies w w' → κ.Answered f (q w) (q' w')) :
    (liftM (Effect.query q) : Run α).Follows κ f (liftM (Effect.query q')) := by
  intro w w' h
  change κ.Outcomes f (some (Effect.query q w)) (some (Effect.query q' w'))
  unfold Effect.query
  obtain heq | ⟨c, hc, hlost⟩ := hq w w' h
  · rw [heq]
    cases q w with
    | ok a => exact .ok h
    | error c => exact .error h
  · rw [hc]
    exact .lost hlost

/-- A question whose answer has a property `P`, and then another step. -/
theorem query_bind {P : α → Prop} {q : World → Except Cause α} {q' : World → Except Cause β}
    (hq : ∀ w w', κ.Copies w w' → κ.Answered f (q w) (q' w'))
    (hP : ∀ w a, w.Settled (Stmt.Avoids κ.extra.types) → q w = .ok a → P a)
    (hg : ∀ a, P a → (g a).Follows κ k (g' (f a))) :
    ((liftM (Effect.query q) : Run α) >>= g).Follows κ k
      ((liftM (Effect.query q') : Run β) >>= g') := by
  intro w w' h
  refine (query hq w w' h).bind fun a v v' ha hv => hg a ?_ v v' hv
  have ha := (Effect.query_eq_ok_iff.1 (lift_eq_some_iff.1 ha)).1
  exact hP w a h.settled ha

theorem openChild_bind {n : ScopeId} {g : ScopeId → Run γ} {g' : ScopeId → Run δ}
    (hg : ∀ inner, (g inner).Follows κ k (g' (κ.scope inner))) :
    ((liftM (Effect.openChild n) : Run ScopeId) >>= g).Follows κ k
      ((liftM (Effect.openChild (κ.scope n)) : Run ScopeId) >>= g') := by
  intro w w' h
  change κ.Outcomes k (g w.scopes.next (w.openChild n)) (g' w'.scopes.next _)
  rw [← h.scopes.scope_next]
  exact hg _ _ _ (h.openChild n)

theorem each {ι : Type} {g g' : ι → Run α} {f : α → α} (hg : ∀ a, (g a).Follows κ f (g' a)) :
    ∀ as : List ι, (Run.each g as).Follows κ (List.map f) (Run.each g' as)
  | [] => .pure []
  | a :: as => .bind (hg a) fun b => .bind (each hg as) fun bs => .pure (b :: bs)

end Run.Follows

open Run (Follows)

/-! ## What is found -/

/-- A callable is not one of the host, and all statements inside it have a property. -/
structure Overload.Own (S : Stmt → Prop) (o : Overload) : Prop where
  notHost : ∀ index, o.callable ≠ .host index
  within : o.Within S

theorem Overload.Answers.own {S : Stmt → Prop} {s : Signature} {o : Overload}
    (h : o.Answers S s) : o.Own S where
  notHost index hindex := by
    have htakes := h.takes
    unfold HasArity at htakes
    rw [hindex] at htakes
    exact htakes
  within := h.within

/-- What a plain call stands for is not a function of the host. -/
def Target.Own (S : Stmt → Prop) : Target → Prop
  | .function o | .constructWith _ o => o.Own S
  | .construct _ => True

namespace World.Settled

variable {S : Stmt → Prop} {w : World} {n : ScopeId} {t : TypeId} {s : Signature} {o : Overload}
  (h : w.Settled S)

include h

theorem own_findFunction (ho : w.scopes.findFunction n s = .ok o) : o.Own S := by
  unfold Scopes.findFunction at ho
  split at ho
  · next o' ho' =>
    cases ho
    obtain ⟨m, -, hfind⟩ := Scopes.exists_of_lookup ho'
    exact (h.functions m _ (Table.mem_of_find? hfind)).own
  · cases ho

theorem own_ownMethod? (ho : w.types.ownMethod? t s = some o) : o.Own S :=
  (h.methods t _ (Table.mem_of_find? ho)).own

theorem own_findMethod {m : MethodEntry} (hm : w.types.findMethod t s = .ok (some m)) :
    m.overload.Own S := by
  obtain ⟨-, hown⟩ | ⟨owner, -, -, hown⟩ := Types.findMethod_eq_ok hm
  · exact h.own_ownMethod? hown
  · exact h.own_ownMethod? hown

theorem own_resolveOperator {method function : Signature} {r : Resolved}
    (hr : w.resolveOperator n t method function = .ok r) : r.overload.Own S := by
  unfold World.resolveOperator at hr
  split at hr
  · cases hr
  · next m hm =>
    cases hr
    exact h.own_findMethod hm
  · cases hfind : w.scopes.findFunction n function with
    | error c => rw [hfind] at hr; cases hr
    | ok o =>
      rw [hfind] at hr
      cases hr
      exact h.own_findFunction hfind

theorem own_resolveMethod {method : String} {args : List String} {r : Resolved}
    (hr : w.resolveMethod t method args = .ok r) : r.overload.Own S := by
  unfold World.resolveMethod at hr
  dsimp only at hr
  split at hr
  · cases hr
  · next m hm =>
    cases hr
    exact h.own_findMethod hm
  · cases hr

theorem own_resolveCall {callee : String} {args : List String} {target : Target}
    (ht : w.resolveCall n callee args = .ok target) : target.Own S := by
  unfold World.resolveCall at ht
  split at ht
  · split at ht
    · cases ht
      trivial
    · dsimp only at ht
      split at ht
      · next o ho =>
        cases ht
        exact h.own_ownMethod? ho
      · cases ht
  · cases hfind : w.scopes.findFunction n (.function callee args) with
    | error c => rw [hfind] at ht; cases ht
    | ok o =>
      rw [hfind] at ht
      cases ht
      exact h.own_findFunction hfind

end World.Settled

/-! ## Operations of the prelude -/

variable {n : ScopeId}

theorem findType_follows (name : String) :
    (liftM (findType n name) : Run TypeId).Follows κ κ.type (liftM (findType (κ.scope n) name)) :=
  .query fun _ _ h => h.findType n name

theorem plain_follows (l : Literal) :
    (liftM (plain n l) : Run Value).Follows κ κ.value (liftM (plain (κ.scope n) l)) := by
  rw [plain, plain, Run.lift_bind, Run.lift_bind]
  exact .bind (findType_follows _) fun t => .pure (Value.plain t l)

theorem truth_follows (condition : Expr) (v : Value) :
    (liftM (truth condition v) : Run Bool).Follows κ id
      (liftM (truth condition (κ.value v))) := by
  have hfail (v : Value) : (liftM (Effect.orAt condition.position (do
        let type ← ask (·.typeName v)
        fail (.conditionNotBool type)) : Effect Bool) : Run Bool).Follows κ id
      (liftM (Effect.orAt condition.position (do
        let type ← ask (·.typeName (κ.value v))
        fail (.conditionNotBool type)) : Effect Bool)) := by
    intro w w' h
    let failure (type : String) : EvalError :=
      (EvalError.ofCause (.conditionNotBool type)).orAt condition.position
    change κ.Outcomes id (some (.error (failure (w.typeName v)), w))
      (some (.error (failure (w'.typeName (κ.value v))), w'))
    rw [h.typeName]
    exact .error h
  cases v with
  | plain t l =>
    cases l with
    | bool b => exact .pure b
    | none => exact hfail (.plain t .none)
    | int i => exact hfail (.plain t (.int i))
    | float x => exact hfail (.plain t (.float x))
    | string s => exact hfail (.plain t (.string s))
  | object t attributes => exact hfail (.object t attributes)

theorem operands_map (args : List Value) :
    operands (args.map κ.value) = (operands args).map (Prod.map κ.value κ.value) := by
  rcases args with _ | ⟨v, _ | ⟨u, _ | ⟨x, rest⟩⟩⟩
  · rfl
  · rfl
  · rfl
  · simp only [operands, List.map_cons, List.length_cons, List.length_map]
    rfl

theorem operand_map (args : List Value) :
    operand (args.map κ.value) = (operand args).map κ.value := by
  rcases args with _ | ⟨v, _ | ⟨u, rest⟩⟩
  · rfl
  · rfl
  · simp only [operand, List.map_cons, List.length_cons, List.length_map]
    rfl

/-- A question that the copy answers with the same constant, and then another step. -/
theorem Run.Follows.same_bind {f : γ → δ} {q q' : World → Except Cause α} {g : α → Run γ}
    {g' : α → Run δ} (hq : ∀ w w', κ.Copies w w' → q' w' = q w)
    (hg : ∀ a, (g a).Follows κ f (g' a)) :
    ((liftM (Effect.query q) : Run α) >>= g).Follows κ f
      ((liftM (Effect.query q') : Run α) >>= g') :=
  .query_bind (f := id) (P := fun _ => True)
    (fun w w' h => .inl (by rw [hq w w' h]; cases q w <;> rfl)) (fun _ _ _ _ => trivial)
    fun a _ => hg a

/-- **An operation of the prelude does the same in a copy.** -/
theorem Builtin.run_follows (b : Builtin) (args : List Value) :
    (liftM (b.run n args) : Run Value).Follows κ κ.value
      (liftM (b.run (κ.scope n) (args.map κ.value))) := by
  have hoperands {γ δ : Type} {f : γ → δ} {g : Value × Value → Run γ} {g' : Value × Value → Run δ}
      (hg : ∀ v u, (g (v, u)).Follows κ f (g' (κ.value v, κ.value u))) :
      ((liftM (query fun _ => operands args) : Run (Value × Value)) >>= g).Follows κ f
        ((liftM (query fun _ => operands (args.map κ.value)) : Run (Value × Value)) >>= g') :=
    .query_bind (f := Prod.map κ.value κ.value) (P := fun _ => True)
      (fun _ _ _ => .inl (operands_map args)) (fun _ _ _ _ => trivial) fun (v, u) _ => hg v u
  have hoperand {γ δ : Type} {f : γ → δ} {g : Value → Run γ} {g' : Value → Run δ}
      (hg : ∀ v, (g v).Follows κ f (g' (κ.value v))) :
      ((liftM (query fun _ => operand args) : Run Value) >>= g).Follows κ f
        ((liftM (query fun _ => operand (args.map κ.value)) : Run Value) >>= g') :=
    .query_bind (f := κ.value) (P := fun _ => True)
      (fun _ _ _ => .inl (operand_map args)) (fun _ _ _ _ => trivial) fun v _ => hg v
  cases b with
  | fresh value => exact plain_follows value
  | convert source target =>
    simp only [run, Run.lift_bind]
    exact hoperands fun _ v => .same_bind (fun _ _ h => h.datumOf source v) fun l =>
      .same_bind (fun _ _ _ => rfl) fun r => plain_follows r
  | render =>
    simp only [run, Run.lift_bind]
    exact hoperands fun _ v => .ask_bind (f := id) (fun _ _ h => h.textOf v) fun text =>
      plain_follows _
  | binary type op =>
    simp only [run, Run.lift_bind]
    exact hoperands fun v u => .same_bind (fun _ _ h => h.datumOf type v) fun l =>
      .same_bind (fun _ _ h => h.datumOf type u) fun r =>
        .same_bind (fun _ _ _ => rfl) fun x => plain_follows x
  | unary type op =>
    simp only [run, Run.lift_bind]
    exact hoperand fun v => .same_bind (fun _ _ h => h.datumOf type v) fun l =>
      .same_bind (fun _ _ _ => rfl) fun x => plain_follows x
  | print =>
    simp only [run, Run.lift_bind]
    exact hoperand fun v => .ask_bind (f := id) (fun _ _ h => h.textOf v) fun text =>
      .bind (.update fun _ _ h => h.writeLine text) fun _ => plain_follows .none

/-! ## Values and arguments -/

theorem instantiate_apply (call : Overload → ScopeId → List Value → Run Value) (t : TypeId)
    (n : ScopeId) (w : World) : instantiate call t n w =
      (match w.types.ownMethod? t .defaultConstructor with
        | some o => call o n [w.types.blank t]
        | none => Pure.pure (w.types.blank t) : Run Value) w :=
  rfl

section Calls

variable {call : Overload → ScopeId → List Value → Run Value}
  (hcall : ∀ o n args, o.Own (Stmt.Avoids κ.extra.types) →
    (call o n args).Follows κ κ.value
      (call (κ.overload o) (κ.scope n) (args.map κ.value)))

include hcall

theorem instantiate_follows (t : TypeId) :
    (instantiate call t n).Follows κ κ.value (instantiate call (κ.type t) (κ.scope n)) := by
  intro w w' h
  rw [instantiate_apply, instantiate_apply, h.types.ownMethod?,
    h.types.blank h.settled.parents]
  cases ho : w.types.ownMethod? t .defaultConstructor with
  | some o => exact hcall o n [w.types.blank t] (h.settled.own_ownMethod? ho) w w' h
  | none => exact .ok h

theorem invokeTarget_follows {target : Target} (ht : target.Own (Stmt.Avoids κ.extra.types))
    (args : List Value) :
    (invokeTarget call target n args).Follows κ κ.value
      (invokeTarget call (κ.target target) (κ.scope n) (args.map κ.value)) := by
  cases target with
  | function o => exact hcall o n args ht
  | construct t => exact instantiate_follows hcall t
  | constructWith t o =>
    exact .ask_bind (f := κ.value) (fun _ _ h => h.types.blank h.settled.parents t)
      fun blank => hcall o n (blank :: args) ht

theorem initialValue_follows {eval eval' : Expr → Run Value}
    (heval : ∀ e, (eval e).Follows κ κ.value (eval' e)) (type : String) (init : Option Expr) :
    (initialValue eval call n type init).Follows κ κ.value
      (initialValue eval' call (κ.scope n) type init) := by
  cases init with
  | none => exact .bind (findType_follows type) fun t => instantiate_follows hcall t
  | some e => exact heval e

end Calls

theorem bindAll_follows (bs : List (String × Binding)) :
    (liftM (bindAll n bs) : Run Unit).Follows κ id
      (liftM (bindAll (κ.scope n) (bs.map (Prod.map id κ.binding)))) := by
  induction bs with
  | nil => exact .pure ()
  | cons b rest ih =>
    obtain ⟨x, b⟩ := b
    rw [bindAll, List.map_cons, bindAll, Run.lift_bind, Run.lift_bind]
    exact .bind (.update fun _ _ h => h.declareVariable n x b) fun _ => ih

/-! ## Blocks -/

section Blocks

variable {step : Stmt → ScopeId → Run Flow}
  (hstep : ∀ s n, s.Within (Stmt.Avoids κ.extra.types) →
    (step s n).Follows κ κ.flow (step s (κ.scope n)))

include hstep

theorem runBlock_follows {body : Block} (hbody : blockWithin (Stmt.Avoids κ.extra.types) body) :
    (runBlock (step · n) body).Follows κ κ.flow (runBlock (step · (κ.scope n)) body) := by
  induction body with
  | nil => exact .pure Flow.normal
  | cons s rest ih =>
    obtain ⟨hs, hrest⟩ := blockWithin_cons.1 hbody
    refine .bind (hstep s n hs) fun flow => ?_
    cases flow with
    | normal => exact ih hrest
    | returns v => exact .pure (Flow.returns v)
    | breakLoop => exact .pure Flow.breakLoop
    | continueLoop => exact .pure Flow.continueLoop

theorem innerBlock_follows {body : Block} (hbody : blockWithin (Stmt.Avoids κ.extra.types) body) :
    ((liftM (openChild n) : Run ScopeId) >>= fun inner => runBlock (step · inner) body).Follows κ
      κ.flow
      ((liftM (openChild (κ.scope n)) : Run ScopeId) >>= fun inner =>
        runBlock (step · inner) body) :=
  .openChild_bind fun _ => runBlock_follows hstep hbody

theorem runBranches_follows {eval eval' : Expr → Run Value}
    (heval : ∀ e, (eval e).Follows κ κ.value (eval' e)) {branches : List Branch}
    {default : Option Block}
    (hbranches : ∀ condition body, .mk condition body ∈ branches →
      blockWithin (Stmt.Avoids κ.extra.types) body)
    (hdefault : ∀ body, default = some body → blockWithin (Stmt.Avoids κ.extra.types) body) :
    (runBranches eval step n default branches).Follows κ κ.flow
      (runBranches eval' step (κ.scope n) default branches) := by
  induction branches with
  | nil =>
    cases default with
    | none => exact .pure Flow.normal
    | some body => exact innerBlock_follows hstep (hdefault body rfl)
  | cons b rest ih =>
    obtain ⟨condition, body⟩ := b
    refine .bind (heval condition) fun v => .bind (truth_follows condition v) fun holds => ?_
    cases holds with
    | true => exact innerBlock_follows hstep (hbranches condition body List.mem_cons_self)
    | false => exact ih fun c b hb => hbranches c b (List.mem_cons_of_mem _ hb)

theorem applyClosure_follows {params : List String} {body : Block} {captured : ScopeId}
    (args : List Value) (hbody : blockWithin (Stmt.Avoids κ.extra.types) body) :
    (applyClosure step params body captured args).Follows κ (Option.map κ.value)
      (applyClosure step params body (κ.scope captured) (args.map κ.value)) := by
  unfold applyClosure
  rw [List.length_map]
  split
  · have hbindings : params.zip ((args.map κ.value).map Binding.value) =
        (params.zip (args.map Binding.value)).map (Prod.map id κ.binding) := by
      rw [← List.zip_map_right, List.map_map, List.map_map]
      rfl
    refine .openChild_bind fun inner => .bind (f := id) ?_ fun _ =>
      .bind (runBlock_follows hstep hbody) fun flow => ?_
    · rw [hbindings]
      exact bindAll_follows _
    · cases flow with
      | returns v => exact .pure v
      | normal => exact .pure none
      | breakLoop => exact .pure none
      | continueLoop => exact .pure none
  · exact .fail _

/-- **A call of a callable that is not one of the host.** -/
theorem invokeWith_follows {o : Overload} (ho : o.Own (Stmt.Avoids κ.extra.types))
    (args : List Value) :
    (invokeWith step o n args).Follows κ κ.value
      (invokeWith step (κ.overload o) (κ.scope n) (args.map κ.value)) := by
  obtain ⟨hhost, hwithin⟩ := ho
  obtain ⟨ret, callable⟩ := o
  cases callable with
  | builtin b => exact b.run_follows args
  | host index => exact absurd rfl (hhost index)
  | closure params body captured =>
    refine .bind (applyClosure_follows hstep args (hwithin _ _ _ rfl)) fun result => ?_
    cases result with
    | some v => exact .pure v
    | none =>
      dsimp only [Option.map_none]
      change (if ret = Primitive.none.name then (liftM (plain n .none) : Run Value)
        else liftM (fail (.missingReturn ret) : Effect Value)).Follows κ κ.value
        (if ret = Primitive.none.name then (liftM (plain (κ.scope n) .none) : Run Value)
        else liftM (fail (.missingReturn ret) : Effect Value))
      split
      · exact plain_follows .none
      · exact .fail _

end Blocks

/-! ## Type definitions -/

theorem findTypes_follows (names : List String) :
    (liftM (Effect.each (findType n) names) : Run (List TypeId)).Follows κ (List.map κ.type)
      (liftM (Effect.each (findType (κ.scope n)) names)) := by
  induction names with
  | nil => exact .pure []
  | cons name rest ih =>
    simp only [Effect.each, Run.lift_bind]
    exact .bind (findType_follows name) fun t => .bind ih fun ts => .pure (t :: ts)

theorem findTypes_lt {S : Stmt → Prop} {w w' : World} (h : w.Settled S) {names : List String}
    {ts : List TypeId} (hts : Effect.each (findType n) names w = (.ok ts, w')) :
    ∀ t ∈ ts, t < w'.types.next := by
  have hmoves (name : String) : (findType n name).Moves Eq := .query _
  obtain rfl : w = w' := Effect.Moves.each hmoves names w _ w' hts
  have hall := Effect.Moves.of_each hmoves hts
  clear hts
  induction hall with
  | nil => exact fun _ ht => by cases ht
  | cons ht _ ih =>
    exact List.forall_mem_cons.2 ⟨(h.findType (Effect.query_eq_ok_iff.1 ht).1).1, ih⟩

theorem map_insert_field (attrs : Table String Attribute) (name type : String) (v : Value) :
    Table.insert (attrs.map fun (x, a) => (x, κ.field a)) name ⟨type, some (κ.value v)⟩ =
      (Table.insert attrs name ⟨type, some v⟩).map fun (x, a) => (x, κ.field a) :=
  (Table.map_insert attrs κ.field name ⟨type, some v⟩).symm

theorem defaultAttributes_follows {init init' : AttributeDef → Run Value}
    (hinit : ∀ a, (init a).Follows κ κ.value (init' a)) (attributes : List AttributeDef)
    (attrs : Table String Attribute) :
    (defaultAttributes init attributes attrs).Follows κ
      (List.map fun (x, a) => (x, κ.field a))
      (defaultAttributes init' attributes (attrs.map fun (x, a) => (x, κ.field a))) := by
  induction attributes generalizing attrs with
  | nil => exact .pure attrs
  | cons a rest ih =>
    refine .bind (hinit a) fun v => ?_
    rw [map_insert_field]
    exact ih _

theorem methodTable_scope (methods : List FuncDef) :
    methodTable (κ.scope n) methods =
      (methodTable n methods).map fun (s, o) => (s, κ.overload o) := by
  have hfold (table : Table Signature Overload) :
      methods.foldl (fun table m => Table.insert table m.methodSignature
          (.ofMethod m (κ.scope n) m.returnType)) (table.map fun (s, o) => (s, κ.overload o)) =
        (methods.foldl (fun table m => Table.insert table m.methodSignature
          (.ofMethod m n m.returnType)) table).map fun (s, o) => (s, κ.overload o) := by
    induction methods generalizing table with
    | nil => rfl
    | cons m rest ih =>
      rw [List.foldl_cons, List.foldl_cons, ← ih, Table.map_insert]
      rfl
  exact hfold []

/-- **A type definition does the same in a copy.** -/
theorem defineType_follows {init init' : AttributeDef → Run Value}
    (hinit : ∀ a, (init a).Follows κ κ.value (init' a))
    (hkeeps : ∀ a, (init a).Moves (World.Keeps ∅)) {d : TypeDef}
    (hmethods : ∀ m ∈ d.methods, blockWithin (Stmt.Avoids κ.extra.types) m.body) :
    (defineType init d n).Follows κ id (defineType init' d (κ.scope n)) := by
  intro w w' h
  refine (findTypes_follows d.parents w w' h).bind fun parents v v' hparents hv =>
    (defaultAttributes_follows hinit d.attributes [] v v' hv).bind fun attrs u u' hattrs hu => ?_
  let descriptor : Descriptor := ⟨d.name, false, parents, attrs, methodTable n d.methods⟩
  have hkept := defaultAttributes_moves hkeeps d.attributes [] v _ u hattrs
  have hparents := findTypes_lt h.settled (Run.lift_eq_some_iff.1 hparents)
  have hsettled : descriptor.Settled (Stmt.Avoids κ.extra.types) u :=
    { methods := answers_methodTable hmethods
      parents := fun q hq => lt_of_lt_of_le (hparents q hq) hkept.types_le }
  have hname : (u.addType descriptor).types.name u.types.next = d.name := by
    rw [World.addType, Types.name, Types.get_add, if_pos rfl]
  have hlt : u.types.next < (u.addType descriptor).types.next :=
    (Types.next_add ..).symm ▸ Nat.lt_succ_self _
  have hcopy : κ.descriptor descriptor = ⟨d.name, false, parents.map κ.type,
      attrs.map fun (x, a) => (x, κ.field a), methodTable (κ.scope n) d.methods⟩ := by
    rw [methodTable_scope]
    rfl
  have hu₂ := (hu.addType hsettled).declareType n hlt hname
  rw [hu.type_next, hcopy] at hu₂
  exact .ok hu₂

/-! ## One level of evaluation -/

section Level

variable {eval : Expr → ScopeId → Run Value} {step : Stmt → ScopeId → Run Flow}
  {repeating : Expr → Block → ScopeId → Run Flow}
  {call : Overload → ScopeId → List Value → Run Value}
  (heval : ∀ e n, (eval e n).Follows κ κ.value (eval e (κ.scope n)))
  (hstep : ∀ s n, s.Within (Stmt.Avoids κ.extra.types) →
    (step s n).Follows κ κ.flow (step s (κ.scope n)))
  (hrepeating : ∀ condition body n, blockWithin (Stmt.Avoids κ.extra.types) body →
    (repeating condition body n).Follows κ κ.flow (repeating condition body (κ.scope n)))
  (hcall : ∀ o n args, o.Own (Stmt.Avoids κ.extra.types) →
    (call o n args).Follows κ κ.value (call (κ.overload o) (κ.scope n) (args.map κ.value)))
  (hevalKeeps : ∀ e n, (eval e n).Moves (World.Keeps ∅))
  (hcallKeeps : ∀ o n args, (call o n args).Moves (World.Keeps ∅))

include heval hcall in
/-- **An expression has the same value in a copy.** -/
theorem evaluateWith_follows (e : Expr) :
    (evaluateWith eval call e n).Follows κ κ.value (evaluateWith eval call e (κ.scope n)) := by
  refine .orAt ?_ _
  have hcalled {r : Resolved} (hr : r.overload.Own (Stmt.Avoids κ.extra.types))
      (args : List Value) :
      (call r.overload n (r.arguments args)).Follows κ κ.value
        (call (κ.resolved r).overload (κ.scope n)
          ((κ.resolved r).arguments (args.map κ.value))) := by
    rw [Copying.arguments_resolved]
    exact hcall _ _ _ hr
  cases e with
  | literal _ l => exact plain_follows l
  | var _ name =>
    refine .query fun w w' h => ?_
    obtain heq | ⟨c, hc, hlost⟩ := h.findVariable n name
    · left
      rw [heq]
      rcases w.scopes.findVariable n name with c | _ | v <;> rfl
    · right
      rw [hc]
      exact ⟨c, rfl, hlost⟩
  | binary _ op left right =>
    exact .bind (heval left n) fun v => .bind (heval right n) fun u =>
      .query_bind (fun _ _ h => h.resolveBinary n op v u) (fun _ _ h => h.own_resolveOperator)
        fun r hr => hcalled hr [v, u]
  | unary _ op operand =>
    exact .bind (heval operand n) fun v =>
      .query_bind (fun _ _ h => h.resolveUnary n op v) (fun _ _ h => h.own_resolveOperator)
        fun r hr => hcalled hr [v]
  | call _ callee args =>
    exact .bind (.each (heval · n) args) fun vs =>
      .query_bind (fun _ _ h => h.resolveCall n callee vs) (fun _ _ h => h.own_resolveCall)
        fun target ht => invokeTarget_follows hcall ht vs
  | methodCall _ receiver method args =>
    exact .bind (heval receiver n) fun v => .bind (.each (heval · n) args) fun vs =>
      .query_bind (fun _ _ h => h.resolveMethod v method vs) (fun _ _ h => h.own_resolveMethod)
        fun r hr => hcalled hr (v :: vs)
  | attr _ object name =>
    refine .bind (heval object n) fun v => .query fun w w' h => .inl ?_
    rw [Renaming.attr?_value, h.typeName]
    cases v.attr? name <;> rfl

include heval hstep hrepeating hcall hevalKeeps hcallKeeps in
/-- **A statement does the same in a copy.** -/
theorem executeWith_follows {s : Stmt} (hs : s.Within (Stmt.Avoids κ.extra.types)) :
    (executeWith eval step repeating call s n).Follows κ κ.flow
      (executeWith eval step repeating call s (κ.scope n)) := by
  have hinit := initialValue_follows (n := n) hcall (heval · n)
  refine .orAt ?_ _
  cases s with
  | expr _ e => exact .bind (heval e n) fun _ => .pure Flow.normal
  | declareVar _ name type init =>
    exact .bind (hinit type init) fun v =>
      .bind (.update fun _ _ h => h.declareVariable n name (.value v)) fun _ => .pure Flow.normal
  | defineFunc p d =>
    have ho : (Overload.ofFunction d n d.returnType).Answers (Stmt.Avoids κ.extra.types)
        (.function d.name (d.params.map Param.type)) :=
      .ofFunction rfl (List.length_map _) hs.body_of_defineFunc
    exact .bind (.update fun _ _ h => h.declareFunction n ho (hs.of_defineFunc d rfl)) fun _ =>
      .pure Flow.normal
  | defineType p d =>
    refine .bind (defineType_follows (fun a => hinit a.type a.init) (fun a => ?_) fun m hm =>
      hs.body_of_defineType hm) fun _ => .pure Flow.normal
    exact initialValue_moves hcallKeeps (hevalKeeps · n) n a.type a.init
  | ifElse _ branches default =>
    refine runBranches_follows hstep (heval · n) (fun _ _ hb => hs.branch_of_ifElse hb) ?_
    rintro body rfl
    exact hs.default_of_ifElse
  | whileLoop _ condition body => exact hrepeating condition body n hs.body_of_whileLoop
  | returns _ value =>
    cases value with
    | none => exact .pure (Flow.returns none)
    | some e => exact .bind (heval e n) fun v => .pure (Flow.returns (some v))
  | breakLoop => exact .pure Flow.breakLoop
  | continueLoop => exact .pure Flow.continueLoop

include heval hstep hrepeating in
theorem loopWith_follows (condition : Expr) {body : Block}
    (hbody : blockWithin (Stmt.Avoids κ.extra.types) body) :
    (loopWith eval step repeating condition body n).Follows κ κ.flow
      (loopWith eval step repeating condition body (κ.scope n)) := by
  refine .bind (heval condition n) fun v => .bind (truth_follows condition v) fun holds => ?_
  cases holds with
  | false => exact .pure Flow.normal
  | true =>
    refine .openChild_bind fun inner => .bind (runBlock_follows hstep hbody) fun flow => ?_
    cases flow with
    | returns v => exact .pure (Flow.returns v)
    | breakLoop => exact .pure Flow.normal
    | normal => exact hrepeating condition body n hbody
    | continueLoop => exact hrepeating condition body n hbody

end Level

/-! ## The evaluator -/

/-- The four kinds of runs with one bound do the same in a copy. -/
structure RunsFollow (κ : Copying) (fuel : Nat) : Prop where
  evaluate : ∀ e n, (evaluate fuel e n).Follows κ κ.value (evaluate fuel e (κ.scope n))
  execute : ∀ s n, s.Within (Stmt.Avoids κ.extra.types) →
    (execute fuel s n).Follows κ κ.flow (execute fuel s (κ.scope n))
  loop : ∀ condition body n, blockWithin (Stmt.Avoids κ.extra.types) body →
    (loop fuel condition body n).Follows κ κ.flow (loop fuel condition body (κ.scope n))
  invoke : ∀ o n args, o.Own (Stmt.Avoids κ.extra.types) →
    (invoke fuel o n args).Follows κ κ.value
      (invoke fuel (κ.overload o) (κ.scope n) (args.map κ.value))

/-- **Every run of the evaluator does the same in a copy.** -/
theorem runsFollow (κ : Copying) : ∀ fuel, RunsFollow κ fuel
  | 0 => ⟨fun _ _ => .exhausted, fun _ _ _ => .exhausted, fun _ _ _ _ => .exhausted,
      fun _ _ _ _ => .exhausted⟩
  | fuel + 1 =>
    have ih := runsFollow κ fuel
    ⟨fun e _ => evaluateWith_follows ih.evaluate ih.invoke e,
      fun _ _ hs => executeWith_follows ih.evaluate ih.execute ih.loop ih.invoke
        (evaluate_keeps fuel) (invoke_keeps fuel) hs,
      fun condition _ _ hbody =>
        loopWith_follows ih.evaluate ih.execute ih.loop condition hbody,
      fun _ _ args ho => invokeWith_follows ih.execute ho args⟩

end Nominal
