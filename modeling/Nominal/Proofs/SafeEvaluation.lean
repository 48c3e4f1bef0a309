import Nominal.Proofs.SafeRuns

/-!
# The evaluator in worlds in order

Every run of the evaluator is safe, by induction on its bound. A call needs a callable that fits its
arguments, a statement that all statements inside it have the property of the world.

* **`Builtin.run_safe`**: an operation of the prelude that fits its arguments.
* **`evaluateWith_safe`**, **`executeWith_safe`**, `loopWith_safe`, **`invokeWith_safe`**: one level
  of evaluation.
* **`runsSafe`**: the evaluator with any bound.
-/

namespace Nominal

open Effect (ask query update fail findType plain openChild bindAll)
open Run (Safe)

variable {S : Stmt → Prop} {strict : Prop} {w : World} {n : ScopeId}

/-! ## Operations of the prelude -/

theorem plain_safe (h : w.Orderly S strict) (l : Literal) :
    (liftM (plain n l) : Run Value).Safe S strict w fun w' v => v.InShape strict w'.types := by
  rw [plain, Run.lift_bind]
  refine .query_bind h (.findType _) fun t ht => .pure h ?_
  obtain ⟨hlt, hname⟩ := h.findType ht
  exact ⟨.plain hlt, fun _ => .plain hname⟩

theorem truth_safe (h : w.Orderly S strict) (condition : Expr) (v : Value) :
    (liftM (truth condition v) : Run Bool).Safe S strict w fun _ _ => True := by
  have hcause (type : String) : (Cause.conditionNotBool type).Tame strict :=
    .of_category (by simp [Cause.category])
  unfold truth
  split
  · exact .pure h trivial
  · intro r w' hr
    cases Run.lift_eq_some_iff.1 hr
    exact ⟨h, .refl w, hcause _⟩

/-- The payload of an argument is that of the operation, or the failure is tame. -/
theorem tamely_datumOf {p : Primitive} {v : Value} (hv : strict → w.Native p v) :
    Tamely strict (w.datumOf p v) := by
  intro c hc
  refine ⟨?_, fun hstrict => ?_⟩
  · rintro a b rfl
    unfold World.datumOf at hc
    split at hc <;> cases hc
  · obtain ⟨l, hl, -⟩ := (hv hstrict).datumOf_eq
    rw [hl] at hc
    cases hc

theorem primitive_of_datumOf {p : Primitive} {v : Value} {l : Literal}
    (hl : w.datumOf p v = .ok l) : l.primitive = p := by
  unfold World.datumOf Value.datum? at hl
  cases v with
  | object => cases hl
  | plain t m =>
    dsimp only at hl
    split_ifs at hl with hm
    · cases hl
      exact hm

/-- **An operation of the prelude that fits its arguments is safe.** -/
theorem Builtin.run_safe (h : w.Orderly S strict) {b : Builtin} {args : List Value}
    (harity : b.HasArity args.length) (haccepts : strict → ∃ p, b.Accepts w args p) :
    (liftM (b.run n args) : Run Value).Safe S strict w fun w' v => v.InShape strict w'.types := by
  cases b with
  | fresh value => exact plain_safe h value
  | convert source target =>
    obtain ⟨u, v, rfl⟩ := List.length_eq_two.1 harity
    have hv : strict → source ∈ target.sources ∧ w.Native source v := fun hstrict => by
      obtain ⟨_, ⟨⟩⟩ := haccepts hstrict
      exact ⟨‹_›, ‹_›⟩
    rw [run, Run.lift_bind]
    refine .answer_bind (a := (u, v)) rfl ?_
    rw [Run.lift_bind]
    refine .query_bind h (tamely_datumOf fun hs => (hv hs).2) fun l hl => ?_
    rw [Run.lift_bind]
    refine .query_bind h (Literal.tamely_convert fun hs => ?_) fun r _ => plain_safe h r
    exact primitive_of_datumOf hl ▸ (hv hs).1
  | render =>
    obtain ⟨u, v, rfl⟩ := List.length_eq_two.1 harity
    rw [run, Run.lift_bind]
    refine .answer_bind (a := (u, v)) rfl ?_
    rw [Run.lift_bind]
    exact .ask_bind (plain_safe h _)
  | binary type op =>
    obtain ⟨u, v, rfl⟩ := List.length_eq_two.1 harity
    have huv : strict → w.Native type u ∧ w.Native type v := fun hstrict => by
      obtain ⟨_, ⟨⟩⟩ := haccepts hstrict
      exact ⟨‹_›, ‹_›⟩
    rw [run, Run.lift_bind]
    refine .answer_bind (a := (u, v)) rfl ?_
    rw [Run.lift_bind]
    refine .query_bind h (tamely_datumOf fun hs => (huv hs).1) fun l _ => ?_
    rw [Run.lift_bind]
    refine .query_bind h (tamely_datumOf fun hs => (huv hs).2) fun r _ => ?_
    rw [Run.lift_bind]
    exact .query_bind h (Literal.tamely_binary op l r) fun x _ => plain_safe h x
  | unary type op =>
    obtain ⟨v, rfl⟩ := List.length_eq_one_iff.1 harity
    have hv : strict → w.Native type v := fun hstrict => by
      obtain ⟨_, ⟨⟩⟩ := haccepts hstrict
      assumption
    rw [run, Run.lift_bind]
    refine .answer_bind (a := v) rfl ?_
    rw [Run.lift_bind]
    refine .query_bind h (tamely_datumOf hv) fun l _ => ?_
    rw [Run.lift_bind]
    exact .query_bind h (Literal.tamely_unary op l) fun x _ => plain_safe h x
  | print =>
    obtain ⟨v, rfl⟩ := List.length_eq_one_iff.1 harity
    rw [run, Run.lift_bind]
    refine .answer_bind (a := v) rfl ?_
    rw [Run.lift_bind]
    refine .ask_bind ?_
    rw [Run.lift_bind]
    have hw : (w.writeLine (w.textOf v)).Orderly S strict := h.of_eq rfl rfl
    exact .update_bind (.of_eq rfl rfl) (plain_safe hw .none)

/-! ## Values and arguments -/

section Calls

variable {call : Overload → ScopeId → List Value → Run Value}
  (hcall : ∀ o n args {w}, w.Orderly S strict → o.Fits S strict w args →
    (call o n args).Safe S strict w fun w' v => v.InShape strict w'.types)

include hcall

theorem instantiate_safe (h : w.Orderly S strict) {t : TypeId} (ht : t < w.types.next) :
    (instantiate call t n).Safe S strict w fun w' v => v.InShape strict w'.types := by
  refine .ask_bind (.ask_bind ?_)
  cases ho : w.types.ownMethod? t .defaultConstructor with
  | none => exact .pure h (h.blank_of_none ht ho)
  | some o => exact hcall _ _ _ h (h.fits_defaultConstructor ht ho)

theorem initialValue_safe (h : w.Orderly S strict) (hn : n < w.scopes.next)
    {eval : Expr → Run Value}
    (heval : ∀ e {w}, w.Orderly S strict → n < w.scopes.next →
      (eval e).Safe S strict w fun w' v => v.InShape strict w'.types) (type : String)
    (init : Option Expr) :
    (initialValue eval call n type init).Safe S strict w
      fun w' v => v.InShape strict w'.types := by
  cases init with
  | none =>
    exact .query_bind h (.findType type) fun t ht => instantiate_safe hcall h (h.findType ht).1
  | some e => exact heval e h hn

end Calls

theorem evaluateArgs_safe (h : w.Orderly S strict) (hn : n < w.scopes.next)
    {eval : Expr → Run Value}
    (heval : ∀ e {w}, w.Orderly S strict → n < w.scopes.next →
      (eval e).Safe S strict w fun w' v => v.InShape strict w'.types) (es : List Expr) :
    (Run.each eval es).Safe S strict w fun w' vs => ∀ v ∈ vs, v.InShape strict w'.types := by
  induction es generalizing w with
  | nil => exact .pure h fun v hv => by cases hv
  | cons e es ih =>
    refine .bind (heval e h hn) fun v w₁ h₁ hg hv =>
      .bind (ih h₁ (hg.scope_lt hn)) fun vs w₂ h₂ hg hvs => .pure h₂ ?_
    exact List.forall_mem_cons.2 ⟨hg.inShape hv, hvs⟩

theorem bindAll_safe (h : w.Orderly S strict) {bs : List (String × Binding)}
    (hbs : ∀ b ∈ bs, ∀ v, b.2 = .value v → v.InShape strict w.types) :
    (liftM (bindAll n bs) : Run Unit).Safe S strict w fun _ _ => True := by
  induction bs generalizing w with
  | nil => exact .pure h trivial
  | cons b rest ih =>
    obtain ⟨x, b⟩ := b
    obtain ⟨hb, hrest⟩ := List.forall_mem_cons.1 hbs
    rw [bindAll, Run.lift_bind]
    exact .update_bind (.of_eq (Scopes.next_modify ..) rfl)
      (ih (h.declareVariable n x hb) hrest)

/-! ## Blocks -/

section Blocks

variable {step : Stmt → ScopeId → Run Flow}
  (hstep : ∀ s n {w}, w.Orderly S strict → n < w.scopes.next → s.Within S →
    (step s n).Safe S strict w fun w' flow => flow.InShape strict w'.types)

include hstep

theorem runBlock_safe (h : w.Orderly S strict) (hn : n < w.scopes.next) {body : Block}
    (hbody : blockWithin S body) :
    (runBlock (step · n) body).Safe S strict w fun w' flow => flow.InShape strict w'.types := by
  induction body generalizing w with
  | nil => exact .pure h fun _ => nofun
  | cons s rest ih =>
    obtain ⟨hs, hrest⟩ := blockWithin_cons.1 hbody
    refine .bind (hstep s n h hn hs) fun flow w₁ h₁ hg hflow => ?_
    cases flow with
    | normal => exact ih h₁ (hg.scope_lt hn) hrest
    | returns | breakLoop | continueLoop => exact .pure h₁ hflow

theorem innerBlock_safe (h : w.Orderly S strict) (hn : n < w.scopes.next) {body : Block}
    (hbody : blockWithin S body) :
    ((liftM (openChild n) : Run ScopeId) >>= fun inner => runBlock (step · inner) body).Safe S
      strict w fun w' flow => flow.InShape strict w'.types :=
  .openChild_bind h hn fun _ _ h₁ hinner _ => runBlock_safe hstep h₁ hinner hbody

theorem runBranches_safe (h : w.Orderly S strict) (hn : n < w.scopes.next)
    {eval : Expr → Run Value}
    (heval : ∀ e {w}, w.Orderly S strict → n < w.scopes.next →
      (eval e).Safe S strict w fun w' v => v.InShape strict w'.types)
    {branches : List Branch} {default : Option Block}
    (hbranches : ∀ condition body, .mk condition body ∈ branches → blockWithin S body)
    (hdefault : ∀ body, default = some body → blockWithin S body) :
    (runBranches eval step n default branches).Safe S strict w
      fun w' flow => flow.InShape strict w'.types := by
  induction branches generalizing w with
  | nil =>
    cases default with
    | none => exact .pure h fun _ => nofun
    | some body => exact innerBlock_safe hstep h hn (hdefault body rfl)
  | cons b rest ih =>
    obtain ⟨condition, body⟩ := b
    refine .bind (heval condition h hn) fun v w₁ h₁ hg _ =>
      .bind (truth_safe h₁ condition v) fun holds w₂ h₂ hg' _ => ?_
    have hn := (hg.trans hg').scope_lt hn
    cases holds with
    | true => exact innerBlock_safe hstep h₂ hn (hbranches condition body List.mem_cons_self)
    | false => exact ih h₂ hn fun c b hb => hbranches c b (List.mem_cons_of_mem _ hb)

theorem applyClosure_safe (h : w.Orderly S strict) {params : List String} {body : Block}
    {captured : ScopeId} {args : List Value} (hcaptured : captured < w.scopes.next)
    (hlength : args.length = params.length) (hargs : ∀ v ∈ args, v.InShape strict w.types)
    (hbody : blockWithin S body) :
    (applyClosure step params body captured args).Safe S strict w
      fun w' result => ∀ v, result = some v → v.InShape strict w'.types := by
  rw [applyClosure, if_pos hlength]
  refine .openChild_bind h hcaptured fun inner w₁ h₁ hinner hg => ?_
  have hbindings : ∀ b ∈ params.zip (args.map Binding.value), ∀ v, b.2 = .value v →
      v.InShape strict w₁.types := by
    rintro ⟨x, b⟩ hb v rfl
    obtain ⟨v', hv', heq⟩ := List.mem_map.1 (List.of_mem_zip hb).2
    cases heq
    exact hg.inShape (hargs v hv')
  refine .bind (bindAll_safe h₁ hbindings) fun _ w₂ h₂ hg' _ =>
    .bind (runBlock_safe hstep h₂ (hg'.scope_lt hinner) hbody) fun flow w₃ h₃ _ hflow => ?_
  cases flow with
  | returns value => exact .pure h₃ fun v hv => hflow v (hv ▸ rfl)
  | normal | breakLoop | continueLoop => exact .pure h₃ fun _ => nofun

/-- **A call of a callable that fits its arguments.** -/
theorem invokeWith_safe (h : w.Orderly S strict) {o : Overload} {args : List Value}
    (ho : o.Fits S strict w args) :
    (invokeWith step o n args).Safe S strict w fun w' v => v.InShape strict w'.types := by
  obtain ⟨harity, hwithin, hcaptures, hbelow, hshaped⟩ := ho
  unfold invokeWith
  unfold Overload.HasArity at harity
  cases hcallable : o.callable with
  | builtin b =>
    rw [hcallable] at harity hshaped
    exact Builtin.run_safe h harity hshaped
  | host i =>
    rw [hcallable] at harity
    exact harity.elim
  | closure params body captured =>
    rw [hcallable] at harity hshaped
    have hargs : ∀ v ∈ args, v.InShape strict w.types := fun v hv =>
      ⟨hbelow v hv, fun hstrict => hshaped hstrict v hv⟩
    refine .bind (applyClosure_safe hstep h (hcaptures _ _ _ hcallable) harity hargs
      (hwithin _ _ _ hcallable)) fun result w₁ h₁ _ hresult => ?_
    cases result with
    | some v => exact .pure h₁ (hresult v rfl)
    | none =>
      dsimp only
      split
      · exact plain_safe h₁ .none
      · exact .fail h₁ (Cause.IsFailure.tame (Cause.isFailure_missingReturn o.ret))

end Blocks

/-! ## Type definitions -/

/-- A type definition has nothing to do with the builtin types. -/
structure TypeDef.AvoidsBuiltins (d : TypeDef) : Prop where
  name : ¬IsBuiltinName d.name
  parents : ∀ name ∈ d.parents, ¬IsBuiltinName name

/-- Type definitions with the property `S` have nothing to do with the builtin types, if that is
asked for. -/
def SparesBuiltins (S : Stmt → Prop) (strict : Prop) : Prop :=
  strict → ∀ p d, S (.defineType p d) → d.AvoidsBuiltins

theorem findTypes_safe (h : w.Orderly S strict) (names : List String) :
    (liftM (Effect.each (findType n) names) : Run (List TypeId)).Safe S strict w fun _ ts =>
      ∀ t ∈ ts, t < w.types.next ∧ w.types.name t ∈ names := by
  induction names with
  | nil => exact .pure h fun t ht => by cases ht
  | cons name rest ih =>
    rw [Effect.each, Run.lift_bind]
    refine .query_bind h (.findType name) fun t ht => ?_
    rw [Run.lift_bind]
    refine .bind ih fun ts w₁ h₁ _ hts => .pure h₁ ?_
    obtain ⟨hlt, hname⟩ := h.findType ht
    refine List.forall_mem_cons.2 ⟨⟨hlt, hname ▸ List.mem_cons_self⟩, fun t' ht' => ?_⟩
    exact ⟨(hts t' ht').1, List.mem_cons_of_mem _ (hts t' ht').2⟩

theorem defaultAttributes_safe (h : w.Orderly S strict) (hn : n < w.scopes.next)
    {init : AttributeDef → Run Value}
    (hinit : ∀ a {w}, w.Orderly S strict → n < w.scopes.next →
      (init a).Safe S strict w fun w' v => v.InShape strict w'.types)
    (attributes : List AttributeDef) {attrs : Table String Attribute}
    (hattrs : ∀ e ∈ attrs, ∀ v, e.2.default = some v → v.InShape strict w.types) :
    (defaultAttributes init attributes attrs).Safe S strict w fun w' attrs =>
      ∀ e ∈ attrs, ∀ v, e.2.default = some v → v.InShape strict w'.types := by
  induction attributes generalizing w attrs with
  | nil => exact .pure h hattrs
  | cons a rest ih =>
    refine .bind (hinit a h hn) fun v w₁ h₁ hg hv => ih h₁ (hg.scope_lt hn) fun e he u hu => ?_
    obtain rfl | he := Table.mem_insert he
    · cases hu
      exact hv
    · exact hg.inShape (hattrs e he u hu)

/-- **A type definition** that leaves the builtin types alone adds a type in order. -/
theorem defineType_safe (h : w.Orderly S strict) (hn : n < w.scopes.next)
    {init : AttributeDef → Run Value}
    (hinit : ∀ a {w}, w.Orderly S strict → n < w.scopes.next →
      (init a).Safe S strict w fun w' v => v.InShape strict w'.types) {d : TypeDef}
    (hd : strict → d.AvoidsBuiltins) (hmethods : ∀ m ∈ d.methods, blockWithin S m.body) :
    (defineType init d n).Safe S strict w fun _ _ => True := by
  refine .bind (findTypes_safe h d.parents) fun parents w₁ h₁ hg hparents =>
    .bind (defaultAttributes_safe h₁ (hg.scope_lt hn) hinit d.attributes fun e he => by cases he)
      fun attrs w₂ h₂ hg' hattrs => .ask_bind ?_
  have hg := hg.trans hg'
  have hclosure : ∀ e ∈ methodTable n d.methods, ∃ m ret, e.2 = .ofMethod m n ret :=
    exists_of_mem_methodTable
  have hd' : Descriptor.Orderly S strict w₂
      ⟨d.name, false, parents, attrs, methodTable n d.methods⟩ :=
    { methods := answers_methodTable hmethods
      parents := fun q hq => lt_of_lt_of_le (hparents q hq).1 hg.types_le
      methodScopes := fun e he => by
        obtain ⟨m, ret, heq⟩ := hclosure e he
        exact heq ▸ Overload.capturesBelow_ofMethod (hg.scope_lt hn)
      defaults := hattrs
      shaped := fun hs =>
        { name := (hd hs).name
          parents := fun q hq hb => (hd hs).parents _ (hparents q hq).2
            ((hg.builtins hs).isBuiltinName_iff q |>.1 hb)
          methods := fun e he b hb => by
            obtain ⟨m, ret, heq⟩ := hclosure e he
            rw [heq] at hb
            cases hb } }
  have h₃ := h₂.addType hd'
  have hg₃ : w₂.Enriches strict
      (w₂.addType ⟨d.name, false, parents, attrs, methodTable n d.methods⟩) :=
    ⟨le_refl _, (Types.next_add w₂.types _).symm ▸ Nat.le_succ _, fun hs => .add _ (hd hs).name⟩
  refine .update_bind hg₃ ?_
  intro r w' hr
  cases Run.lift_eq_some_iff.1 hr
  refine ⟨h₃.declareType n ?_ ?_, .of_eq (Scopes.next_modify ..) rfl, trivial⟩
  · exact (Types.next_add ..).symm ▸ Nat.lt_succ_self _
  · rw [World.addType, Types.name, Types.get_add, if_pos rfl]

/-! ## One level of evaluation -/

section Level

variable {eval : Expr → ScopeId → Run Value} {step : Stmt → ScopeId → Run Flow}
  {repeating : Expr → Block → ScopeId → Run Flow}
  {call : Overload → ScopeId → List Value → Run Value}
  (hS : SparesBuiltins S strict)
  (heval : ∀ e n {w}, w.Orderly S strict → n < w.scopes.next →
    (eval e n).Safe S strict w fun w' v => v.InShape strict w'.types)
  (hstep : ∀ s n {w}, w.Orderly S strict → n < w.scopes.next → s.Within S →
    (step s n).Safe S strict w fun w' flow => flow.InShape strict w'.types)
  (hrepeating : ∀ condition body n {w}, w.Orderly S strict → n < w.scopes.next →
    blockWithin S body →
    (repeating condition body n).Safe S strict w fun w' flow => flow.InShape strict w'.types)
  (hcall : ∀ o n args {w}, w.Orderly S strict → o.Fits S strict w args →
    (call o n args).Safe S strict w fun w' v => v.InShape strict w'.types)

include heval hcall in
/-- **The value of an expression is in shape.** -/
theorem evaluateWith_safe (h : w.Orderly S strict) (hn : n < w.scopes.next) (e : Expr) :
    (evaluateWith eval call e n).Safe S strict w fun w' v => v.InShape strict w'.types := by
  refine .orAt ?_ _
  cases e with
  | literal _ l => exact plain_safe h l
  | var _ name =>
    refine .query h ?_ fun v hv => ?_
    · split
      · exact .ok _
      · exact .error ⟨fun _ _ => nofun, fun _ _ _ => nofun⟩
      · next c hc => exact .error (Tamely.findVariable name c hc)
    · split at hv
      · next v' hv' =>
        cases hv
        exact h.findVariable hv'
      · cases hv
      · cases hv
  | binary _ op left right =>
    refine .bind (heval left n h hn) fun v w₁ h₁ hg hv =>
      .bind (heval right n h₁ (hg.scope_lt hn)) fun u w₂ h₂ hg hu => ?_
    exact .query_bind h₂ (.resolveOperator _ _ _) fun r hr =>
      hcall _ _ _ h₂ (h₂.fits_resolveBinary hr (hg.inShape hv) hu)
  | unary _ op operand =>
    refine .bind (heval operand n h hn) fun v w₁ h₁ _ hv => ?_
    exact .query_bind h₁ (.resolveOperator _ _ _) fun r hr =>
      hcall _ _ _ h₁ (h₁.fits_resolveUnary hr hv)
  | call _ callee args =>
    refine .bind (evaluateArgs_safe h hn (heval · n) args) fun vs w₁ h₁ _ hvs =>
      .query_bind h₁ (.resolveCall _ _) fun target ht => ?_
    have hfits := h₁.fits_resolveCall ht hvs
    cases target with
    | function o => exact hcall _ _ _ h₁ hfits
    | construct t => exact instantiate_safe hcall h₁ hfits
    | constructWith t o => exact .ask_bind (hcall _ _ _ h₁ hfits)
  | methodCall _ receiver method args =>
    refine .bind (heval receiver n h hn) fun v w₁ h₁ hg hv =>
      .bind (evaluateArgs_safe h₁ (hg.scope_lt hn) (heval · n) args) fun vs w₂ h₂ hg hvs => ?_
    exact .query_bind h₂ (.resolveMethod _ _ _) fun r hr =>
      hcall _ _ _ h₂ (h₂.fits_resolveMethod hr (hg.inShape hv) hvs)
  | attr _ object name =>
    refine .bind (heval object n h hn) fun v w₁ h₁ _ hv => .query h₁ ?_ fun a ha => ?_
    · split
      · exact .ok _
      · exact .error (.of_category (by simp [Cause.category]))
    · split at ha
      · next a' ha' =>
        cases ha
        exact hv.attr ha'
      · cases ha

include hS heval hstep hrepeating hcall in
/-- **A statement leaves the world in order.** -/
theorem executeWith_safe (h : w.Orderly S strict) (hn : n < w.scopes.next) {s : Stmt}
    (hs : s.Within S) :
    (executeWith eval step repeating call s n).Safe S strict w
      fun w' flow => flow.InShape strict w'.types := by
  refine .orAt ?_ _
  cases s with
  | expr _ e => exact .bind (heval e n h hn) fun _ w₁ h₁ _ _ => .pure h₁ fun _ => nofun
  | declareVar _ name type init =>
    refine .bind (initialValue_safe hcall h hn (heval · n) type init) fun v w₁ h₁ _ hv => ?_
    refine .update_bind (.of_eq (Scopes.next_modify ..) rfl) (.pure ?_ fun _ => nofun)
    exact h₁.declareVariable n name fun u hu => by
      cases hu
      exact hv
  | defineFunc p d =>
    refine .update_bind (.of_eq (Scopes.next_modify ..) rfl) (.pure ?_ fun _ => nofun)
    exact h.declareFunction n (.ofFunction rfl (List.length_map _) hs.body_of_defineFunc)
      (Overload.capturesBelow_ofFunction hn) fun _ => nofun
  | defineType p d =>
    have hinit (a : AttributeDef) {w : World} (hw : w.Orderly S strict) (hn : n < w.scopes.next) :
        (initialValue (eval · n) call n a.type a.init).Safe S strict w
          fun w' v => v.InShape strict w'.types :=
      initialValue_safe hcall hw hn (heval · n) a.type a.init
    refine .bind (defineType_safe h hn hinit (fun hstrict => hS hstrict p d hs.of_defineType) ?_)
      fun _ w₁ h₁ _ _ => .pure h₁ fun _ => nofun
    exact fun m hm => hs.body_of_defineType hm
  | ifElse _ branches default =>
    refine runBranches_safe hstep h hn (heval · n) (fun _ _ hb => hs.branch_of_ifElse hb) ?_
    rintro body rfl
    exact hs.default_of_ifElse
  | whileLoop _ condition body => exact hrepeating condition body n h hn hs.body_of_whileLoop
  | returns _ value =>
    cases value with
    | none => exact .pure h fun _ => nofun
    | some e =>
      refine .bind (heval e n h hn) fun v w₁ h₁ _ hv => .pure h₁ fun u hu => ?_
      cases hu
      exact hv
  | breakLoop | continueLoop => exact .pure h fun _ => nofun

include heval hstep hrepeating in
theorem loopWith_safe (h : w.Orderly S strict) (hn : n < w.scopes.next) (condition : Expr)
    {body : Block} (hbody : blockWithin S body) :
    (loopWith eval step repeating condition body n).Safe S strict w
      fun w' flow => flow.InShape strict w'.types := by
  refine .bind (heval condition n h hn) fun v w₁ h₁ hg _ =>
    .bind (truth_safe h₁ condition v) fun holds w₂ h₂ hg' _ => ?_
  have hn := (hg.trans hg').scope_lt hn
  cases holds with
  | false => exact .pure h₂ fun _ => nofun
  | true =>
    refine .openChild_bind h₂ hn fun inner w₃ h₃ hinner hg =>
      .bind (runBlock_safe hstep h₃ hinner hbody) fun flow w₄ h₄ hg' hflow => ?_
    cases flow with
    | returns => exact .pure h₄ hflow
    | breakLoop => exact .pure h₄ fun _ => nofun
    | normal | continueLoop =>
      exact hrepeating condition body n h₄ ((hg.trans hg').scope_lt hn) hbody

end Level

/-! ## The evaluator -/

/-- The four kinds of runs with one bound are safe. -/
structure RunsSafe (S : Stmt → Prop) (strict : Prop) (fuel : Nat) : Prop where
  evaluate : ∀ e n {w}, w.Orderly S strict → n < w.scopes.next →
    (evaluate fuel e n).Safe S strict w fun w' v => v.InShape strict w'.types
  execute : ∀ s n {w}, w.Orderly S strict → n < w.scopes.next → s.Within S →
    (execute fuel s n).Safe S strict w fun w' flow => flow.InShape strict w'.types
  loop : ∀ condition body n {w}, w.Orderly S strict → n < w.scopes.next → blockWithin S body →
    (loop fuel condition body n).Safe S strict w fun w' flow => flow.InShape strict w'.types
  invoke : ∀ o n args {w}, w.Orderly S strict → o.Fits S strict w args →
    (invoke fuel o n args).Safe S strict w fun w' v => v.InShape strict w'.types

/-- **Every run of the evaluator is safe.** -/
theorem runsSafe (hS : SparesBuiltins S strict) :
    ∀ fuel, RunsSafe S strict fuel
  | 0 =>
    ⟨fun _ _ _ _ _ => .exhausted, fun _ _ _ _ _ _ => .exhausted, fun _ _ _ _ _ _ _ => .exhausted,
      fun _ _ _ _ _ _ => .exhausted⟩
  | fuel + 1 =>
    have ih := runsSafe hS fuel
    ⟨fun e _ _ h hn => evaluateWith_safe ih.evaluate ih.invoke h hn e,
      fun _ _ _ h hn hs => executeWith_safe hS ih.evaluate ih.execute ih.loop ih.invoke h hn hs,
      fun condition _ _ _ h hn hbody =>
        loopWith_safe ih.evaluate ih.execute ih.loop h hn condition hbody,
      fun _ _ _ _ h ho => invokeWith_safe ih.execute h ho⟩

end Nominal
