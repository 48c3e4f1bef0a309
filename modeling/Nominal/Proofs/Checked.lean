import Mathlib.Data.List.Forall2
import Nominal.Proofs.CheckFrame
import Nominal.Proofs.Conformity

/-!
# What the check has found out

A program that passes the check is typed by name, in the context of the scope that it is checked in.

* `World.context`: what is visible from a scope during a check.
* `Expr.check_hasType`: the type that the check gives to an expression.
* **`checkBlock_typed`**: a block that passes the check is typed.
-/

namespace Nominal

open World (Keeps)
open Effect (query ask update findType)

/-! ## Worlds during a check -/

/-- The type of a variable that only has a static type. -/
def Binding.staticType? : Binding → Option String
  | .static type => some type
  | .value _ => none

/-- What is visible from a scope during a check. -/
def World.context (w : World) (n : ScopeId) : Context where
  vars x := (w.scopes.lookupVariable n x).bind Binding.staticType?
  types name := (w.scopes.lookupType n name).isSome
  functions s := (w.scopes.lookupFunction n s).isSome

/-- A world during a check: all variables have static types only. -/
structure World.Checking (G : Glossary) (w : World) : Prop extends w.Fits G where
  static : ∀ m x b, (w.scopes.get m).vars.find? x = some b → ∃ type, b = .static type

namespace World

variable {G : Glossary} {w w' : World} {n : ScopeId}

/-! ### Contexts after each step -/

theorem context_keeps (h : w.scopes.Nested) (hn : n < w.scopes.next) (hk : w.Keeps ∅ w') :
    w'.context n = w.context n := by
  ext x
  · exact iff_of_eq (congrArg (fun b => Option.bind b Binding.staticType? = some _)
      (hk.lookup_eq Scope.vars h hn x))
  · exact iff_of_eq (congrArg (fun t => Option.isSome t = true) (hk.lookup_eq Scope.types h hn x))
  · exact iff_of_eq (congrArg (fun o => Option.isSome o = true)
      (hk.lookup_eq Scope.functions h hn x))

theorem context_openChild (h : w.scopes.Nested) (hn : n < w.scopes.next) :
    (w.openChild n).context w.scopes.next = w.context n := by
  unfold context
  simp only [openChild, Scopes.lookupVariable_child h hn, Scopes.lookupType_child h hn,
    Scopes.lookupFunction_child h hn]

theorem context_declareVariable (h : w.scopes.Nested) (hn : n < w.scopes.next)
    (name type : String) :
    (w.declareVariable n name (.static type)).context n = (w.context n).declare name type := by
  have hvars (x : String) : ((w.declareVariable n name (.static type)).context n).vars x =
      ((w.context n).declare name type).vars x := by
    simp only [context, declareVariable, Scopes.lookupVariable_declareVariable h hn,
      Context.declare, Vars.declare]
    split <;> rfl
  ext x
  · rw [hvars]
  · simp only [context, declareVariable, Scopes.lookupType_declareVariable, Context.declare]
  · simp only [context, declareVariable, Scopes.lookupFunction_declareVariable, Context.declare]

theorem context_declareFunction (h : w.scopes.Nested) (hn : n < w.scopes.next) (s : Signature)
    (o : Overload) :
    (w.declareFunction n s o).context n = (w.context n).addFunction s := by
  ext x
  · simp only [context, declareFunction, Scopes.lookupVariable_declareFunction,
      Context.addFunction]
  · simp only [context, declareFunction, Scopes.lookupType_declareFunction, Context.addFunction]
  · simp only [context, declareFunction, Scopes.lookupFunction_declareFunction h hn,
      Context.addFunction]
    by_cases hx : s = x
    · simp [hx]
    · simp [hx, Ne.symm hx]

theorem context_declareType (h : w.scopes.Nested) (hn : n < w.scopes.next) (name : String)
    (t : TypeId) : (w.declareType n name t).context n = (w.context n).addType name := by
  ext x
  · simp only [context, declareType, Scopes.lookupVariable_declareType, Context.addType]
  · simp only [context, declareType, Scopes.lookupType_declareType h hn, Context.addType]
    by_cases hx : name = x
    · simp [hx]
    · simp [hx, Ne.symm hx]
  · simp only [context, declareType, Scopes.lookupFunction_declareType, Context.addType]

/-! ### Steps that keep a check going -/

namespace Checking

theorem openChild (h : w.Checking G) (hn : n < w.scopes.next) : (w.openChild n).Checking G where
  toFits := h.toFits.openChild hn
  static m x b hb := by
    rw [World.openChild, Scopes.child, Scopes.get_openScope] at hb
    split at hb
    · cases hb
    · exact h.static m x b hb

theorem declareVariable (h : w.Checking G) (name type : String) :
    (w.declareVariable n name (.static type)).Checking G where
  toFits := h.toFits.declareVariable name _
  static m x b hb := by
    rw [World.declareVariable, Scopes.declareVariable, Scopes.get_modify] at hb
    split at hb
    · rw [Table.find?_insert] at hb
      split at hb
      · cases hb
        exact ⟨type, rfl⟩
      · exact h.static m x b hb
    · exact h.static m x b hb

theorem declareFunction (h : w.Checking G) {s : Signature} {o : Overload}
    (hs : G.functions s = some o.ret) : (w.declareFunction n s o).Checking G where
  toFits := h.toFits.declareFunction hs
  static m x b hb := by
    rw [World.declareFunction, Scopes.declareFunction, Scopes.get_modify] at hb
    split at hb <;> exact h.static m x b hb

theorem declareType (h : w.Checking G) {t : TypeId} {name : String} (ht : t < w.types.next)
    (hname : w.types.name t = name) (hbuiltin : ¬IsBuiltinName name) :
    (w.declareType n name t).Checking G where
  toFits := h.toFits.declareType ht hname hbuiltin
  static m x b hb := by
    rw [World.declareType, Scopes.declareType, Scopes.get_modify] at hb
    split at hb <;> exact h.static m x b hb

theorem addType (h : w.Checking G) {d : Descriptor}
    (hd : G.types d.name = some (w.types.interface d))
    (hparents : ∀ p ∈ d.parents, p < w.types.next) (hname : ¬IsBuiltinName d.name) :
    (w.addType d).Checking G where
  toFits := h.toFits.addType hd hparents hname
  static := h.static

theorem bindAll (h : w.Checking G) (hn : n < w.scopes.next) (bindings : List (String × String)) :
    ∃ w', Effect.bindAll n (bindings.map fun (x, type) => (x, .static type)) w = (.ok (), w') ∧
      w'.Checking G ∧ w'.scopes.next = w.scopes.next ∧
      w'.context n = (w.context n).bind bindings := by
  induction bindings generalizing w with
  | nil => exact ⟨w, rfl, h, rfl, rfl⟩
  | cons b rest ih =>
    obtain ⟨x, type⟩ := b
    have hnext : (w.declareVariable n x (.static type)).scopes.next = w.scopes.next :=
      Scopes.next_modify ..
    obtain ⟨w', hw', hc, hnext', hcontext⟩ := ih (h.declareVariable x type) (hnext ▸ hn)
    refine ⟨w', hw', hc, hnext'.trans hnext, ?_⟩
    rw [hcontext, context_declareVariable h.nested hn]
    rfl

end Checking

end World

/-! ## Resolution -/

namespace World.Fits

variable {G : Glossary} {w w' : World} {n : ScopeId} (h : w.Fits G)

include h

/-- The visible type of a name has that name. -/
theorem of_findType {name : String} {t : TypeId} (ht : w.scopes.findType n name = .ok t) :
    t < w.types.next ∧ w.types.name t = name ∧ (w.context n).types name := by
  have hlookup := Scopes.findType_eq_ok_iff.1 ht
  obtain ⟨hlt, hname⟩ := h.of_lookupType hlookup
  exact ⟨hlt, hname, Option.isSome_of_eq_some hlookup⟩

theorem of_resolveName {name type : String} (ht : w.resolveName n name = .ok type) :
    type = name ∧ (w.context n).types name := by
  unfold World.resolveName Scopes.findType at ht
  split at ht
  · next t hu =>
    cases ht
    exact ⟨(h.of_lookupType hu).2, Option.isSome_of_eq_some hu⟩
  · cases ht

theorem of_findFunction {s : Signature} {o : Overload}
    (ho : w.scopes.findFunction n s = .ok o) :
    (w.context n).functions s ∧ G.functions s = some o.ret := by
  unfold Scopes.findFunction at ho
  split at ho
  · next o' ho' =>
    cases ho
    exact ⟨Option.isSome_of_eq_some ho', h.of_lookupFunction ho'⟩
  · cases ho

theorem of_resolveOperator {t : TypeId} (ht : t < w.types.next) {method function : Signature}
    {r : Resolved} (hr : w.resolveOperator n t method function = .ok r) :
    (w.context n).Operator G (w.types.name t) method function r.overload.ret := by
  have hfinds := h.conform.finds ht method
  unfold World.resolveOperator at hr
  cases hm : w.types.findMethod t method with
  | error c =>
    rw [hm] at hr
    cases hr
  | ok found =>
    rw [hm] at hr hfinds
    cases found with
    | some m =>
      cases hr
      exact .inl hfinds
    | none =>
      right
      cases ho : w.scopes.findFunction n function with
      | error c =>
        rw [ho] at hr
        cases hr
      | ok o =>
        rw [ho] at hr
        cases hr
        obtain ⟨hvisible, hret⟩ := h.of_findFunction ho
        exact ⟨hfinds, hvisible, hret⟩

theorem of_resolveMethod {t : TypeId} (ht : t < w.types.next) {method : String}
    {args : List String} {r : Resolved} (hr : w.resolveMethod t method args = .ok r) :
    G.Finds (w.types.name t) (.method method args) (.ok (some r.overload.ret)) := by
  have hfinds := h.conform.finds ht (.method method args)
  unfold World.resolveMethod at hr
  dsimp only at hr
  cases hm : w.types.findMethod t (.method method args) with
  | error c =>
    rw [hm] at hr
    cases hr
  | ok found =>
    rw [hm] at hr hfinds
    cases found with
    | some m =>
      cases hr
      exact hfinds
    | none => cases hr

theorem of_resolveCall (hG : G.Proper) (hn : n < w.scopes.next) {callee : String}
    {args : List String} {target : Target} (hr : w.resolveCall n callee args = .ok target) :
    (w.context n).Call G callee args (w.returnType target) := by
  unfold World.resolveCall at hr
  cases ht : w.scopes.lookupType n callee with
  | some t =>
    rw [ht] at hr
    obtain ⟨hlt, hname⟩ := h.of_lookupType ht
    have hvisible : (w.context n).types callee := Option.isSome_of_eq_some ht
    cases args with
    | nil =>
      cases hr
      exact .inl ⟨hvisible, rfl, hname⟩
    | cons a args =>
      simp only [List.isEmpty_cons, Bool.false_eq_true, if_false] at hr
      split at hr
      · next o ho =>
        cases hr
        refine .inr (.inl ⟨hvisible, List.cons_ne_nil a args, ?_⟩)
        rw [← hname, h.conform.ownMethod?_eq hlt, ho]
        rfl
      · cases hr
  | none =>
    rw [ht] at hr
    cases ho : w.scopes.findFunction n (.function callee args) with
    | error c =>
      rw [ho] at hr
      cases hr
    | ok o =>
      rw [ho] at hr
      cases hr
      obtain ⟨hvisible, hret⟩ := h.of_findFunction ho
      refine .inr (.inr ⟨hG.apart _ _ hret ?_, hvisible, hret⟩)
      -- the builtin types are visible
      rintro ⟨p, hp⟩
      obtain ⟨t, ht', -⟩ := h.builtins n hn p
      obtain rfl : callee = p.name := hp
      rw [ht] at ht'
      cases ht'

end World.Fits

/-! ## Expressions -/

section Expressions

variable {G : Glossary} {w : World} {n : ScopeId}

mutual

/-- An expression that passes the check has the type that the check gives. -/
theorem Expr.check_hasType (hG : G.Proper) (hw : w.Checking G) (hn : n < w.scopes.next) (e : Expr)
    {w' : World} {type : String} (h : e.check n w = (.ok type, w')) :
    e.HasType G (w.context n) type := by
  unfold Expr.check at h
  unfold Expr.HasType
  cases e with
  | literal p l =>
    obtain ⟨hl, -⟩ := Effect.query_eq_ok_iff.1 (Effect.orAt_eq_ok_iff.1 h)
    exact (hw.of_resolveName hl).1
  | var p name =>
    obtain ⟨b, hb, ha⟩ := Effect.query_bind_eq_ok_iff.1 (Effect.orAt_eq_ok_iff.1 h)
    obtain ⟨ha, -⟩ := Effect.ask_eq_ok_iff.1 ha
    unfold Scopes.findVariable at hb
    cases hlookup : w.scopes.lookupVariable n name with
    | none =>
      rw [hlookup] at hb
      cases hb
    | some b' =>
      rw [hlookup] at hb
      cases hb
      obtain ⟨m, -, hm⟩ := Scopes.exists_of_lookup hlookup
      obtain ⟨T, rfl⟩ := hw.static m name b hm
      show (w.scopes.lookupVariable n name).bind Binding.staticType? = _
      rw [hlookup]
      exact congrArg some ha
  | binary p op left right =>
    obtain ⟨L, hL, h₁⟩ := (left.check_moves n).bind_eq_ok_iff.1 (Effect.orAt_eq_ok_iff.1 h)
    obtain ⟨t, ht, h₂⟩ := Effect.query_bind_eq_ok_iff.1 h₁
    obtain ⟨R, hR, h₃⟩ := (right.check_moves n).bind_eq_ok_iff.1 h₂
    obtain ⟨r, hr, h₄⟩ := Effect.query_bind_eq_ok_iff.1 h₃
    obtain ⟨rfl, -⟩ := Effect.pure_eq_ok_iff.1 h₄
    obtain ⟨hlt, rfl, -⟩ := hw.of_findType ht
    exact ⟨_, R, left.check_hasType hG hw hn hL, right.check_hasType hG hw hn hR,
      hw.of_resolveOperator hlt hr⟩
  | unary p op operand =>
    obtain ⟨L, hL, h₁⟩ := (operand.check_moves n).bind_eq_ok_iff.1 (Effect.orAt_eq_ok_iff.1 h)
    obtain ⟨t, ht, h₂⟩ := Effect.query_bind_eq_ok_iff.1 h₁
    obtain ⟨r, hr, h₃⟩ := Effect.query_bind_eq_ok_iff.1 h₂
    obtain ⟨rfl, -⟩ := Effect.pure_eq_ok_iff.1 h₃
    obtain ⟨hlt, rfl, -⟩ := hw.of_findType ht
    exact ⟨_, operand.check_hasType hG hw hn hL, hw.of_resolveOperator hlt hr⟩
  | call p callee args =>
    obtain ⟨Ts, hTs, h₁⟩ := (checkArgs_moves args n).bind_eq_ok_iff.1 (Effect.orAt_eq_ok_iff.1 h)
    obtain ⟨target, hr, h₂⟩ := Effect.query_bind_eq_ok_iff.1 h₁
    obtain ⟨rfl, -⟩ := Effect.ask_eq_ok_iff.1 h₂
    exact ⟨Ts, checkArgs_haveTypes hG hw hn args hTs, hw.of_resolveCall hG hn hr⟩
  | methodCall p receiver method args =>
    obtain ⟨R, hR, h₁⟩ := (receiver.check_moves n).bind_eq_ok_iff.1 (Effect.orAt_eq_ok_iff.1 h)
    obtain ⟨t, ht, h₂⟩ := Effect.query_bind_eq_ok_iff.1 h₁
    obtain ⟨Ts, hTs, h₃⟩ := (checkArgs_moves args n).bind_eq_ok_iff.1 h₂
    obtain ⟨r, hr, h₄⟩ := Effect.query_bind_eq_ok_iff.1 h₃
    obtain ⟨rfl, -⟩ := Effect.pure_eq_ok_iff.1 h₄
    obtain ⟨hlt, rfl, -⟩ := hw.of_findType ht
    exact ⟨_, Ts, receiver.check_hasType hG hw hn hR, checkArgs_haveTypes hG hw hn args hTs,
      hw.of_resolveMethod hlt hr⟩
  | attr p object name =>
    obtain ⟨T, hT, h₁⟩ := (object.check_moves n).bind_eq_ok_iff.1 (Effect.orAt_eq_ok_iff.1 h)
    obtain ⟨t, ht, h₂⟩ := Effect.query_bind_eq_ok_iff.1 h₁
    obtain ⟨ha, -⟩ := Effect.query_eq_ok_iff.1 h₂
    obtain ⟨hlt, rfl, -⟩ := hw.of_findType ht
    cases hattr : w.types.attrType? t name with
    | none =>
      rw [hattr] at ha
      cases ha
    | some type' =>
      rw [hattr] at ha
      cases ha
      exact ⟨_, object.check_hasType hG hw hn hT, hw.conform.hasAttr hlt hattr⟩

theorem checkArgs_haveTypes (hG : G.Proper) (hw : w.Checking G) (hn : n < w.scopes.next)
    (es : List Expr) {w' : World} {types : List String}
    (h : checkArgs es n w = (.ok types, w')) : argsHaveTypes G (w.context n) es types := by
  unfold checkArgs at h
  unfold argsHaveTypes
  cases es with
  | nil =>
    obtain ⟨rfl, -⟩ := Effect.pure_eq_ok_iff.1 h
    rfl
  | cons e es =>
    obtain ⟨T, hT, h₁⟩ := (e.check_moves n).bind_eq_ok_iff.1 h
    obtain ⟨Ts, hTs, h₂⟩ := (checkArgs_moves es n).bind_eq_ok_iff.1 h₁
    obtain ⟨rfl, -⟩ := Effect.pure_eq_ok_iff.1 h₂
    exact ⟨T, Ts, rfl, e.check_hasType hG hw hn hT, checkArgs_haveTypes hG hw hn es hTs⟩

end

end Expressions

/-! ## Definitions -/

section Definitions

variable {G : Glossary} {w w' : World} {n : ScopeId}

/-- The header that a definition writes. -/
def FuncDef.header (d : FuncDef) : Header := ⟨d.params.map Param.type, d.returnType⟩

theorem paramBindings_header (d : FuncDef) :
    paramBindings d d.header = d.bindings.map fun (x, type) => (x, .static type) := by
  unfold paramBindings FuncDef.header FuncDef.bindings
  rw [List.map_map, List.map_map, List.zip_map']
  rfl

/-- Types are visible under their own names. -/
def World.NamesTypes (w : World) : Prop :=
  ∀ n name t, w.scopes.findType n name = .ok t → w.types.name t = name

theorem World.Fits.namesTypes (h : w.Fits G) : w.NamesTypes :=
  fun _ _ _ ht => (h.of_findType ht).2.1

/-- Types are visible from one scope under their own names. -/
def World.NamesTypesFrom (w : World) (n : ScopeId) : Prop :=
  ∀ name t, w.scopes.findType n name = .ok t → w.types.name t = name

theorem World.NamesTypesFrom.of_resolveName (h : w.NamesTypesFrom n) {name type : String}
    (ht : w.resolveName n name = .ok type) : type = name := by
  unfold World.resolveName at ht
  cases hfind : w.scopes.findType n name with
  | error c => rw [hfind] at ht; cases ht
  | ok t =>
    rw [hfind] at ht
    cases ht
    exact h name t hfind

theorem World.NamesTypesFrom.of_typeNamed (h : w.NamesTypesFrom n) {defining : Option String}
    {name type : String} (ht : w.typeNamed n defining name = .ok type) : type = name := by
  unfold World.typeNamed at ht
  split at ht
  · cases ht
    rfl
  · exact h.of_resolveName ht

/-- The check reads headers as they are written. -/
theorem checkHeader_eq (h : w.NamesTypesFrom n) {d : FuncDef} {defining : Option String}
    {header : Header} (hd : checkHeader d n defining w = (.ok header, w')) : header = d.header := by
  obtain ⟨params, hparams, h₁⟩ :=
    (Effect.Moves.each (fun _ => .query _) _).bind_eq_ok_iff.1 hd
  have hps : params = d.params.map Param.type := by
    have hall := Effect.Moves.of_each (fun _ => .query _) hparams
    clear h₁ hparams hd
    generalize d.params = ps at hall ⊢
    induction hall with
    | nil => rfl
    | cons hb _ ih =>
      rw [List.map_cons, ih, h.of_typeNamed (Effect.query_eq_ok_iff.1 hb).1]
  obtain ⟨pos, name, ps, ret, body⟩ := d
  cases ret with
  | none =>
    obtain ⟨ret, w₁, hret, h₂⟩ := Effect.bind_eq_ok_iff.1 h₁
    obtain ⟨rfl, -⟩ := Effect.pure_eq_ok_iff.1 hret
    obtain ⟨rfl, -⟩ := Effect.pure_eq_ok_iff.1 h₂
    rw [hps]
    rfl
  | some name' =>
    obtain ⟨ret, hret, h₂⟩ := Effect.query_bind_eq_ok_iff.1 h₁
    obtain ⟨rfl, -⟩ := Effect.pure_eq_ok_iff.1 h₂
    rw [hps, h.of_typeNamed hret]
    rfl

theorem checkParents_found {d : TypeDef} {parents : List TypeId}
    (hd : checkParents d n w = (.ok parents, w')) :
    List.Forall₂ (fun name p => w.scopes.findType n name = .ok p ∧
      (w.types.get p).primitive = false) d.parents parents := by
  refine (Effect.Moves.of_each (fun _ => .bind (.query _) fun _ => .query _) hd).imp
    fun name p hp => ?_
  obtain ⟨t, ht, h₁⟩ := Effect.query_bind_eq_ok_iff.1 hp
  obtain ⟨h₂, -⟩ := Effect.query_eq_ok_iff.1 h₁
  split at h₂
  · cases h₂
  · next hprimitive =>
    cases h₂
    exact ⟨ht, Bool.eq_false_of_not_eq_true hprimitive⟩

/-- Parents are visible under the names of the text and not builtin. -/
theorem checkParents_ok (h : w.Fits G) {d : TypeDef} {parents : List TypeId}
    (hd : checkParents d n w = (.ok parents, w')) :
    parents.map w.types.name = d.parents ∧ (∀ p ∈ parents, p < w.types.next) ∧
      ∀ name ∈ d.parents, (w.context n).types name ∧ ¬IsBuiltinName name := by
  have hall := checkParents_found hd
  clear hd
  generalize d.parents = names at hall ⊢
  induction hall with
  | nil => exact ⟨rfl, by simp, by simp⟩
  | @cons name p names parents hp _ ih =>
    obtain ⟨ht, hprimitive⟩ := hp
    obtain ⟨hlt, hname, hvisible⟩ := h.of_findType ht
    have hbuiltin : ¬IsBuiltinName name := by
      rintro ⟨q, hq⟩
      rw [h.conform.builtin p q (hname.trans hq)] at hprimitive
      cases hprimitive
    obtain ⟨hnames, hlts, hvisibles⟩ := ih
    refine ⟨?_, List.forall_mem_cons.2 ⟨hlt, hlts⟩,
      List.forall_mem_cons.2 ⟨⟨hvisible, hbuiltin⟩, hvisibles⟩⟩
    rw [List.map_cons, hname, hnames]

theorem checkInit_typed (hG : G.Proper) (hw : w.Checking G) (hn : n < w.scopes.next)
    {name type : String} {init : Option Expr} (h : checkInit name type init n w = (.ok (), w')) :
    InitTyped G (w.context n) type init := by
  rintro e rfl
  obtain ⟨found, hfound, h₁⟩ := (e.check_moves n).bind_eq_ok_iff.1 h
  split at h₁
  · next heq => exact heq ▸ e.check_hasType hG hw hn hfound
  · rw [Effect.orAt_eq_ok_iff] at h₁
    exact absurd h₁ Effect.fail_ne_ok

theorem checkCondition_typed (hG : G.Proper) (hw : w.Checking G) (hn : n < w.scopes.next)
    {e : Expr} (h : checkCondition e n w = (.ok (), w')) :
    e.HasType G (w.context n) Primitive.bool.name := by
  obtain ⟨found, hfound, h₁⟩ := (e.check_moves n).bind_eq_ok_iff.1 h
  split at h₁
  · next heq => exact heq ▸ e.check_hasType hG hw hn hfound
  · rw [Effect.orAt_eq_ok_iff] at h₁
    exact absurd h₁ Effect.fail_ne_ok

/-- The check reads the types of attributes as they are written. -/
theorem checkAttributes_types (h : w.NamesTypesFrom n) {attributes : List AttributeDef}
    {attrs attrs' : Table String Attribute}
    (hattrs : checkAttributes n attributes attrs w = (.ok attrs', w')) :
    attrs'.map (fun (x, a) => (x, a.type)) =
      attributeTypes attributes (attrs.map fun (x, a) => (x, a.type)) := by
  induction attributes generalizing attrs with
  | nil =>
    obtain ⟨rfl, -⟩ := Effect.pure_eq_ok_iff.1 hattrs
    rfl
  | cons a rest ih =>
    obtain ⟨type, htype, h₁⟩ := Effect.query_bind_eq_ok_iff.1 hattrs
    obtain rfl := h.of_resolveName htype
    obtain ⟨_, -, h₂⟩ := (checkInit_moves _ _ _ _).bind_eq_ok_iff.1 h₁
    rw [ih h₂, Table.map_insert]
    rfl

theorem checkAttributes_ok (hG : G.Proper) (hw : w.Checking G) (hn : n < w.scopes.next)
    {attributes : List AttributeDef} {attrs attrs' : Table String Attribute}
    (h : checkAttributes n attributes attrs w = (.ok attrs', w')) :
    attrs'.map (fun (x, a) => (x, a.type)) =
        attributeTypes attributes (attrs.map fun (x, a) => (x, a.type)) ∧
      ∀ a ∈ attributes, (w.context n).types a.type ∧ InitTyped G (w.context n) a.type a.init := by
  refine ⟨checkAttributes_types (hw.namesTypes n) h, ?_⟩
  induction attributes generalizing attrs with
  | nil => exact fun _ ha => by cases ha
  | cons a rest ih =>
    obtain ⟨type, htype, h₁⟩ := Effect.query_bind_eq_ok_iff.1 h
    obtain ⟨rfl, hvisible⟩ := hw.of_resolveName htype
    obtain ⟨_, hinit, h₂⟩ := (checkInit_moves _ _ _ _).bind_eq_ok_iff.1 h₁
    exact List.forall_mem_cons.2 ⟨⟨hvisible, checkInit_typed hG hw hn hinit⟩, ih h₂⟩

theorem checkMethods_ok (hw : w.NamesTypesFrom n) {type : String} {methods : List FuncDef}
    {table table' : Table Signature Overload} {headers : List Header}
    (h : checkMethods type n methods table w = (.ok (table', headers), w')) :
    table'.map (fun (s, o) => (s, o.ret)) =
        methodReturns methods (table.map fun (s, o) => (s, o.ret)) ∧
      headers = methods.map FuncDef.header ∧
      ∀ m ∈ methods, m.name = constructorName → m.returnType = type := by
  induction methods generalizing table headers w' with
  | nil =>
    obtain ⟨heq, -⟩ := Effect.pure_eq_ok_iff.1 h
    cases heq
    exact ⟨rfl, rfl, fun _ hm => by cases hm⟩
  | cons m rest ih =>
    obtain ⟨header, hheader, h₁⟩ := (checkHeader_moves m n _).bind_eq_ok_iff.1 h
    obtain rfl := checkHeader_eq hw hheader
    obtain ⟨_, hconstructor, h₂⟩ := (checkConstructor_moves _ _ _).bind_eq_ok_iff.1 h₁
    obtain ⟨⟨table₁, hs⟩, hrest, h₃⟩ := (checkMethods_moves _ _ _ _).bind_eq_ok_iff.1 h₂
    obtain ⟨heq, -⟩ := Effect.pure_eq_ok_iff.1 h₃
    cases heq
    obtain ⟨htable, rfl, hall⟩ := ih hrest
    refine ⟨?_, rfl, List.forall_mem_cons.2 ⟨fun hname => ?_, hall⟩⟩
    · rw [htable, Table.map_insert]
      rfl
    · unfold checkConstructor at hconstructor
      split at hconstructor
      · rw [Effect.orAt_eq_ok_iff] at hconstructor
        exact absurd hconstructor Effect.fail_ne_ok
      · next hnot => exact not_not.1 fun hne => hnot ⟨hname, hne⟩

end Definitions

/-! ## Statements -/

section Statements

variable {G : Glossary} {w w' : World} {n : ScopeId}

/-- A return type that has been found is the expected one. -/
def Returns (found ret : Option String) : Prop := ∀ type, found = some type → ret = some type

theorem mergeReturn_ok {first second found : Option String}
    (h : mergeReturn first second = .ok found) : Returns first found ∧ Returns second found := by
  cases second with
  | none =>
    obtain rfl : first = found := by cases first <;> cases h <;> rfl
    exact ⟨fun _ h => h, fun _ h => by cases h⟩
  | some b =>
    cases first with
    | none =>
      cases h
      exact ⟨fun _ h => (by cases h), fun _ h => h⟩
    | some a =>
      rw [mergeReturn] at h
      split at h
      · next heq =>
        cases h
        exact ⟨fun _ h => h, fun _ h => heq ▸ h⟩
      · cases h

theorem Returns.trans {first second third : Option String} (h : Returns first second)
    (h' : Returns second third) : Returns first third := fun type ht => h' type (h type ht)

theorem matchReturn_ok {d : FuncDef} {declared : String} {inferred : Option String}
    (h : matchReturn d declared inferred w = (.ok (), w')) : Returns inferred (some declared) := by
  unfold matchReturn at h
  split at h
  · next heq =>
    rintro type rfl
    exact congrArg some heq.symm
  · rw [Effect.orAt_eq_ok_iff] at h
    exact absurd h Effect.fail_ne_ok

/-- The part of a check that happens in a scope of its own does not change what is visible. -/
theorem World.Checking.context_inner (hw : w.Checking G) (hn : n < w.scopes.next)
    {D : Set ScopeId} (hD : D ⊆ {w.scopes.next}) (hk : (w.openChild n).Keeps D w') :
    w'.context n = w.context n :=
  World.context_keeps hw.nested hn (.of_fresh (hk.mono hD))

mutual

theorem Stmt.check_typed (hG : G.Proper) (s : Stmt) (hs : ∀ s' ∈ s.parts, s'.DefinedIn G)
    {w w' : World} {n : ScopeId} {r : Option String} (hw : w.Checking G)
    (hn : n < w.scopes.next) (h : s.check n w = (.ok r, w')) :
    w'.Checking G ∧ w'.context n = (w.context n).after s ∧
      ∀ ret, Returns r ret → s.Typed G ret (w.context n) := by
  unfold Stmt.check at h
  unfold Stmt.Typed
  cases s with
  | expr p e =>
    obtain ⟨type, htype, h₁⟩ := (e.check_moves n).bind_eq_ok_iff.1 (Effect.orAt_eq_ok_iff.1 h)
    obtain ⟨-, rfl⟩ := Effect.pure_eq_ok_iff.1 h₁
    exact ⟨hw, rfl, fun _ _ => ⟨type, e.check_hasType hG hw hn htype⟩⟩
  | declareVar p name type init =>
    obtain ⟨declared, hdeclared, h₁⟩ :=
      Effect.query_bind_eq_ok_iff.1 (Effect.orAt_eq_ok_iff.1 h)
    obtain ⟨rfl, hvisible⟩ := hw.of_resolveName hdeclared
    obtain ⟨_, hinit, h₂⟩ := (checkInit_moves _ _ _ _).bind_eq_ok_iff.1 h₁
    obtain ⟨_, w₁, hw₁, h₃⟩ := Effect.bind_eq_ok_iff.1 h₂
    obtain ⟨-, rfl⟩ := Effect.update_eq_iff.1 hw₁
    obtain ⟨-, rfl⟩ := Effect.pure_eq_ok_iff.1 h₃
    exact ⟨hw.declareVariable name declared,
      World.context_declareVariable hw.nested hn name declared,
      fun _ _ => ⟨hvisible, checkInit_typed hG hw hn hinit⟩⟩
  | defineFunc p d =>
    obtain ⟨header, hheader, h₁⟩ :=
      (checkHeader_moves d n none).bind_eq_ok_iff.1 (Effect.orAt_eq_ok_iff.1 h)
    obtain rfl := checkHeader_eq (hw.namesTypes n) hheader
    obtain ⟨_, w₁, hw₁, h₂⟩ := Effect.bind_eq_ok_iff.1 h₁
    obtain ⟨-, rfl⟩ := Effect.update_eq_iff.1 hw₁
    obtain ⟨_, w₂, hbody, h₃⟩ := Effect.bind_eq_ok_iff.1 h₂
    obtain ⟨-, rfl⟩ := Effect.pure_eq_ok_iff.1 h₃
    have hd : G.functions d.signature = some d.returnType :=
      hs (.defineFunc p d) (by unfold Stmt.parts; exact List.mem_cons_self)
    have hnext : (w.declareFunction n d.signature (.ofFunction d n d.returnType)).scopes.next =
        w.scopes.next := Scopes.next_modify ..
    have hchecking := hw.declareFunction (n := n) (o := .ofFunction d n d.returnType) hd
    have hcontext := World.context_declareFunction hw.nested hn d.signature
      (.ofFunction d n d.returnType)
    have hparts : ∀ s' ∈ d.parts, s'.DefinedIn G :=
      fun s' hs' => hs s' (by unfold Stmt.parts; exact List.mem_cons_of_mem _ hs')
    rw [paramBindings_header] at hbody
    obtain ⟨hw₂, htyped⟩ := d.checkBody_typed hG hparts [] hchecking (hnext ▸ hn) hbody
    have hkeeps := (d.checkBody_quiet n _ _ _ _ _ hbody).toKeeps
    refine ⟨hw₂, ?_, fun _ _ => ?_⟩
    · exact (World.context_keeps hchecking.nested (hnext ▸ hn) hkeeps).trans hcontext
    · rw [hcontext] at htyped
      exact ⟨hd, htyped⟩
  | defineType p d =>
    obtain ⟨_, w₁, hd, h₁⟩ := Effect.bind_eq_ok_iff.1 (Effect.orAt_eq_ok_iff.1 h)
    obtain ⟨-, rfl⟩ := Effect.pure_eq_ok_iff.1 h₁
    have hdefined : G.types d.name = some d.interface ∧ ¬IsBuiltinName d.name :=
      hs (.defineType p d) (by unfold Stmt.parts; exact List.mem_cons_self)
    have hparts : ∀ s' ∈ d.parts, s'.DefinedIn G :=
      fun s' hs' => hs s' (by unfold Stmt.parts; exact List.mem_cons_of_mem _ hs')
    obtain ⟨hw₁, hcontext, htyped⟩ := d.check_typed hG hdefined hparts hw hn hd
    exact ⟨hw₁, hcontext, fun _ _ => ⟨hdefined, htyped⟩⟩
  | ifElse p branches default =>
    obtain ⟨found, w₁, hbranches, h₁⟩ := Effect.bind_eq_ok_iff.1 (Effect.orAt_eq_ok_iff.1 h)
    have hparts : ∀ s' ∈ branchParts branches, s'.DefinedIn G := fun s' hs' =>
      hs s' (by unfold Stmt.parts; exact List.mem_cons_of_mem _ (List.mem_append_left _ hs'))
    obtain ⟨hw₁, -, htyped⟩ := checkBranches_typed hG branches hparts hw hn hbranches
    have hkeeps := (checkBranches_quiet _ _ _ _ _ _ hbranches).toKeeps
    have hcontext := World.context_keeps hw.nested hn hkeeps
    cases default with
    | none =>
      obtain ⟨rfl, rfl⟩ := Effect.pure_eq_ok_iff.1 h₁
      exact ⟨hw₁, hcontext, fun ret hret => ⟨htyped ret hret, trivial⟩⟩
    | some body =>
      have hn₁ : n < w₁.scopes.next := lt_of_lt_of_le hn hkeeps.scopes_le
      obtain ⟨type, w₂, hbody, h₂⟩ :=
        Effect.bind_eq_ok_iff.1 (Effect.openChild_bind_eq_iff.1 h₁)
      obtain ⟨hmerge, rfl⟩ := Effect.query_eq_ok_iff.1 h₂
      obtain ⟨hfound, htype⟩ := mergeReturn_ok hmerge
      have hparts' : ∀ s' ∈ blockParts body, s'.DefinedIn G := fun s' hs' =>
        hs s' (by unfold Stmt.parts; exact List.mem_cons_of_mem _ (List.mem_append_right _ hs'))
      obtain ⟨hw₂, -, htyped'⟩ := checkBlock_typed hG body hparts' (hw₁.openChild hn₁)
        (World.next_lt_openChild w₁ n) hbody
      rw [World.context_openChild hw₁.nested hn₁, hcontext] at htyped'
      refine ⟨hw₂, ?_, fun ret hret =>
        ⟨htyped ret (hfound.trans hret), htyped' ret (htype.trans hret)⟩⟩
      rw [hw₁.context_inner hn₁ (Set.Subset.refl _) (checkBlock_quiet _ _ _ _ _ _ hbody).toKeeps]
      exact hcontext
  | whileLoop p condition body =>
    obtain ⟨_, hcondition, h₁⟩ :=
      (checkCondition_moves condition n).bind_eq_ok_iff.1 (Effect.orAt_eq_ok_iff.1 h)
    have hbody : checkBlock body w.scopes.next none (w.openChild n) = (.ok r, w') := h₁
    have hparts : ∀ s' ∈ blockParts body, s'.DefinedIn G :=
      fun s' hs' => hs s' (by unfold Stmt.parts; exact List.mem_cons_of_mem _ hs')
    obtain ⟨hw', -, htyped⟩ := checkBlock_typed hG body hparts (hw.openChild hn)
      (World.next_lt_openChild w n) hbody
    rw [World.context_openChild hw.nested hn] at htyped
    have hkeeps := (checkBlock_quiet _ _ _ _ _ _ hbody).toKeeps
    exact ⟨hw', hw.context_inner hn (Set.Subset.refl _) hkeeps,
      fun ret hret => ⟨checkCondition_typed hG hw hn hcondition, htyped ret hret⟩⟩
  | returns p value =>
    cases value with
    | none =>
      obtain ⟨rfl, rfl⟩ := Effect.pure_eq_ok_iff.1 h
      exact ⟨hw, rfl, fun ret hret => hret _ rfl⟩
    | some e =>
      obtain ⟨type, htype, h₁⟩ := (e.check_moves n).bind_eq_ok_iff.1 (Effect.orAt_eq_ok_iff.1 h)
      obtain ⟨rfl, rfl⟩ := Effect.pure_eq_ok_iff.1 h₁
      exact ⟨hw, rfl, fun ret hret => ⟨type, e.check_hasType hG hw hn htype, hret type rfl⟩⟩
  | breakLoop p | continueLoop p =>
    obtain ⟨rfl, rfl⟩ := Effect.pure_eq_ok_iff.1 h
    exact ⟨hw, rfl, fun _ _ => trivial⟩

theorem checkBlock_typed (hG : G.Proper) (body : List Stmt)
    (hs : ∀ s' ∈ blockParts body, s'.DefinedIn G) {w w' : World} {n : ScopeId}
    {found r : Option String} (hw : w.Checking G) (hn : n < w.scopes.next)
    (h : checkBlock body n found w = (.ok r, w')) :
    w'.Checking G ∧ Returns found r ∧
      ∀ ret, Returns r ret → blockTyped G ret (w.context n) body := by
  unfold checkBlock at h
  unfold blockTyped
  cases body with
  | nil =>
    obtain ⟨rfl, rfl⟩ := Effect.pure_eq_ok_iff.1 h
    exact ⟨hw, fun _ h => h, fun _ _ => trivial⟩
  | cons s rest =>
    have hparts : ∀ s' ∈ s.parts, s'.DefinedIn G := fun s' hs' =>
      hs s' (by unfold blockParts; exact List.mem_append_left _ hs')
    have hrest : ∀ s' ∈ blockParts rest, s'.DefinedIn G := fun s' hs' =>
      hs s' (by unfold blockParts; exact List.mem_append_right _ hs')
    obtain ⟨type, w₁, hstmt, h₁⟩ := Effect.bind_eq_ok_iff.1 h
    obtain ⟨hw₁, hcontext, htyped⟩ := s.check_typed hG hparts hw hn hstmt
    obtain ⟨found₁, w₂, hmerge, h₂⟩ := Effect.bind_eq_ok_iff.1 h₁
    obtain ⟨hmerged, rfl⟩ := Effect.query_eq_ok_iff.1 (Effect.orAt_eq_ok_iff.1 hmerge)
    obtain ⟨hfound, htype⟩ := mergeReturn_ok hmerged
    have hn₁ := lt_of_lt_of_le hn (s.check_quiet n _ _ _ hstmt).scopes_le
    obtain ⟨hw', hfound₁, htyped'⟩ := checkBlock_typed hG rest hrest hw₁ hn₁ h₂
    rw [hcontext] at htyped'
    exact ⟨hw', hfound.trans hfound₁, fun ret hret =>
      ⟨htyped ret (htype.trans (hfound₁.trans hret)), htyped' ret hret⟩⟩

theorem checkBranches_typed (hG : G.Proper) (branches : List Branch)
    (hs : ∀ s' ∈ branchParts branches, s'.DefinedIn G) {w w' : World} {n : ScopeId}
    {found r : Option String} (hw : w.Checking G) (hn : n < w.scopes.next)
    (h : checkBranches branches n found w = (.ok r, w')) :
    w'.Checking G ∧ Returns found r ∧
      ∀ ret, Returns r ret → branchesTyped G ret (w.context n) branches := by
  unfold checkBranches at h
  unfold branchesTyped
  match branches with
  | [] =>
    obtain ⟨rfl, rfl⟩ := Effect.pure_eq_ok_iff.1 h
    exact ⟨hw, fun _ h => h, fun _ _ => trivial⟩
  | .mk condition body :: rest =>
    have hparts : ∀ s' ∈ blockParts body, s'.DefinedIn G := fun s' hs' =>
      hs s' (by unfold branchParts; exact List.mem_append_left _ hs')
    have hrest : ∀ s' ∈ branchParts rest, s'.DefinedIn G := fun s' hs' =>
      hs s' (by unfold branchParts; exact List.mem_append_right _ hs')
    obtain ⟨_, hcondition, h₁⟩ := (checkCondition_moves condition n).bind_eq_ok_iff.1 h
    obtain ⟨type, w₁, hbody, h₂⟩ :=
      Effect.bind_eq_ok_iff.1 (Effect.openChild_bind_eq_iff.1 h₁)
    obtain ⟨found₁, hmerge, h₃⟩ := Effect.query_bind_eq_ok_iff.1 h₂
    obtain ⟨hfound, htype⟩ := mergeReturn_ok hmerge
    obtain ⟨hw₁, -, htyped⟩ := checkBlock_typed hG body hparts (hw.openChild hn)
      (World.next_lt_openChild w n) hbody
    rw [World.context_openChild hw.nested hn] at htyped
    have hkeeps := (checkBlock_quiet _ _ _ _ _ _ hbody).toKeeps
    have hcontext := hw.context_inner hn (Set.Subset.refl _) hkeeps
    have hn₁ : n < w₁.scopes.next :=
      lt_of_lt_of_le (lt_trans hn (World.next_lt_openChild w n)) hkeeps.scopes_le
    obtain ⟨hw', hfound₁, htyped'⟩ := checkBranches_typed hG rest hrest hw₁ hn₁ h₃
    rw [hcontext] at htyped'
    exact ⟨hw', hfound.trans hfound₁, fun ret hret =>
      ⟨checkCondition_typed hG hw hn hcondition, htyped ret (htype.trans (hfound₁.trans hret)),
        htyped' ret hret⟩⟩

theorem FuncDef.checkBody_typed (hG : G.Proper) (d : FuncDef)
    (hs : ∀ s' ∈ d.parts, s'.DefinedIn G) (before : List (String × String)) {w w' : World}
    {n : ScopeId} (hw : w.Checking G) (hn : n < w.scopes.next)
    (h : d.checkBody n ((before ++ d.bindings).map fun (x, type) => (x, .static type)) d.returnType
      w = (.ok (), w')) : w'.Checking G ∧ d.Typed G (w.context n) before := by
  unfold FuncDef.checkBody at h
  unfold FuncDef.Typed
  match d with
  | .mk p name params ret body =>
    have hinner := World.next_lt_openChild w n
    obtain ⟨w₁, hbind, hw₁, hnext, hcontext⟩ := (hw.openChild hn).bindAll hinner
      (before ++ (FuncDef.mk p name params ret body).bindings)
    obtain ⟨_, w₂, hw₂, h₁⟩ := Effect.bind_eq_ok_iff.1 (Effect.openChild_bind_eq_iff.1 h)
    obtain ⟨-, rfl⟩ := Prod.mk.inj (hw₂.symm.trans hbind)
    obtain ⟨inferred, w₃, hbody, h₂⟩ := Effect.bind_eq_ok_iff.1 h₁
    obtain rfl := matchReturn_moves _ _ _ _ _ _ h₂
    have hparts : ∀ s' ∈ blockParts body, s'.DefinedIn G := fun s' hs' =>
      hs s' (by unfold FuncDef.parts; exact hs')
    obtain ⟨hw', -, htyped⟩ := checkBlock_typed hG body hparts hw₁ (hnext ▸ hinner) hbody
    rw [hcontext, World.context_openChild hw.nested hn] at htyped
    exact ⟨hw', htyped _ (matchReturn_ok h₂)⟩

theorem TypeDef.check_typed (hG : G.Proper) (d : TypeDef)
    (hd : G.types d.name = some d.interface ∧ ¬IsBuiltinName d.name)
    (hs : ∀ s' ∈ d.parts, s'.DefinedIn G) {w w' : World} {n : ScopeId} (hw : w.Checking G)
    (hn : n < w.scopes.next) (h : d.check n w = (.ok (), w')) :
    w'.Checking G ∧ w'.context n = (w.context n).addType d.name ∧
      d.Typed G (w.context n) := by
  unfold TypeDef.check at h
  unfold TypeDef.Typed
  match d with
  | .mk name parents attributes methods =>
    obtain ⟨parentTypes, hparents, h₁⟩ := (checkParents_moves _ n).bind_eq_ok_iff.1 h
    obtain ⟨hnames, hlts, hvisible⟩ := checkParents_ok hw.toFits hparents
    obtain ⟨attrs, hattrs, h₂⟩ := (checkAttributes_moves _ _ _).bind_eq_ok_iff.1 h₁
    obtain ⟨hattributes, hinits⟩ := checkAttributes_ok hG hw hn hattrs
    obtain ⟨⟨table, headers⟩, hmethods, h₃⟩ := (checkMethods_moves _ _ _ _).bind_eq_ok_iff.1 h₂
    obtain ⟨htable, rfl, hconstructors⟩ := checkMethods_ok (hw.namesTypes n) hmethods
    obtain ⟨t, w₁, ht, h₄⟩ := Effect.bind_eq_ok_iff.1 h₃
    obtain ⟨rfl, rfl⟩ := Effect.ask_eq_ok_iff.1 ht
    obtain ⟨_, w₁, hadd, h₅⟩ := Effect.bind_eq_ok_iff.1 h₄
    obtain ⟨-, rfl⟩ := Effect.update_eq_iff.1 hadd
    obtain ⟨_, w₂, hdeclare, h₆⟩ := Effect.bind_eq_ok_iff.1 h₅
    obtain ⟨-, rfl⟩ := Effect.update_eq_iff.1 hdeclare
    let descriptor : Descriptor := ⟨name, false, parentTypes, attrs, table⟩
    -- the descriptor is as the text says
    have hinterface : G.types name = some (w.types.interface descriptor) := by
      refine hd.1.trans (congrArg some ?_)
      rw [Types.interface, hnames, hattributes, htable]
      rfl
    have hw₁ : (w.addType descriptor).Checking G := hw.addType hinterface hlts hd.2
    have hnew : (w.addType descriptor).types.name w.types.next = name := by
      rw [Types.name, World.addType, Types.get_add, if_pos rfl]
    have hlt : w.types.next < (w.addType descriptor).types.next := by
      rw [World.addType, Types.next_add]
      exact Nat.lt_succ_self _
    have hw₂ := hw₁.declareType (n := n) hlt hnew hd.2
    have hn₂ : n < ((w.addType descriptor).declareType n name w.types.next).scopes.next := by
      rw [World.declareType, Scopes.declareType, Scopes.next_modify]
      exact hn
    have hcontext := World.context_declareType hw₁.nested hn name w.types.next
    have hparts : ∀ s' ∈ methodParts methods, s'.DefinedIn G := fun s' hs' =>
      hs s' (by unfold TypeDef.parts; exact hs')
    obtain ⟨hw', htyped⟩ := checkBodies_typed hG name methods hparts hconstructors hw₂ hn₂ h₆
    rw [hcontext] at htyped
    have hkeeps := (checkBodies_quiet _ _ _ _ _ _ _ h₆).toKeeps
    have hcontext' := (World.context_keeps hw₂.nested hn₂ hkeeps).trans hcontext
    exact ⟨hw', hcontext', hvisible, hinits, htyped⟩

theorem checkBodies_typed (hG : G.Proper) (type : String) (methods : List FuncDef)
    (hs : ∀ s' ∈ methodParts methods, s'.DefinedIn G)
    (hconstructors : ∀ m ∈ methods, m.name = constructorName → m.returnType = type)
    {w w' : World} {n : ScopeId} (hw : w.Checking G) (hn : n < w.scopes.next)
    (h : checkBodies type methods (methods.map FuncDef.header) n w = (.ok (), w')) :
    w'.Checking G ∧ methodsTyped G (w.context n) type methods := by
  unfold checkBodies at h
  unfold methodsTyped
  match methods with
  | [] =>
    obtain ⟨-, rfl⟩ := Effect.pure_eq_ok_iff.1 h
    exact ⟨hw, trivial⟩
  | m :: rest =>
    have hparts : ∀ s' ∈ m.parts, s'.DefinedIn G := fun s' hs' =>
      hs s' (by unfold methodParts; exact List.mem_append_left _ hs')
    have hrest : ∀ s' ∈ methodParts rest, s'.DefinedIn G := fun s' hs' =>
      hs s' (by unfold methodParts; exact List.mem_append_right _ hs')
    obtain ⟨hm, hms⟩ := List.forall_mem_cons.1 hconstructors
    obtain ⟨_, w₁, hbody, h₁⟩ := Effect.bind_eq_ok_iff.1 h
    rw [paramBindings_header] at hbody
    obtain ⟨hw₁, htyped⟩ := m.checkBody_typed hG hparts [(receiverName, type)] hw hn hbody
    have hkeeps := (m.checkBody_quiet n _ _ _ _ _ hbody).toKeeps
    obtain ⟨hw', htyped'⟩ := checkBodies_typed hG type rest hrest hms hw₁
      (lt_of_lt_of_le hn hkeeps.scopes_le) h₁
    rw [World.context_keeps hw.nested hn hkeeps] at htyped'
    exact ⟨hw', htyped, hm, htyped'⟩

end

end Statements

end Nominal
