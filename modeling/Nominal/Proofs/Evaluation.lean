import Nominal.Proofs.Delivery

/-!
# Expressions run as they are typed

The rules for one level of an evaluation, in which operands are evaluated and callables are invoked
by runs that are known to give what the types say.

* `instantiate_gives`, `initialValue_gives`: objects and the values that declarations start with.
* **`evaluateWith_gives`**: a typed expression gives a value of its type.
-/

namespace Nominal

open World (Keeps)
open Effect (ask query update fail findType plain openChild bindAll)

variable {G : Glossary} {M M' : Promise} {w w' : World} {n : ScopeId} {V : Context}

/-! ## Constants and conditions -/

theorem plain_gives {D : Set ScopeId} (h : w.Honours G M) (hn : n < w.scopes.next) (l : Literal) :
    (liftM (plain n l) : Run Value).Gives G D M w fun M' _ v =>
      v.HasType G M' l.primitive.name := by
  obtain ⟨v, hv, hnative⟩ := (h.builtins n hn).plain_apply l
  exact .of_effect hv (.refl M w) h (h.hasType_of_native hnative)

theorem truth_eq_pure (h : w.Honours G M) (condition : Expr) {v : Value}
    (hv : v.HasType G M Primitive.bool.name) : ∃ b, truth condition v = pure b := by
  obtain ⟨t, l, rfl, -, hl⟩ := h.native hv
  cases l with
  | bool b => exact ⟨b, rfl⟩
  | none | int | float | string => cases hl

/-! ## Calls -/

section Calls

variable {call : Overload → ScopeId → List Value → Run Value}
  (hcall : ∀ {o n args M w}, w.Honours G M → n < w.scopes.next → o.Takes G M w args →
    (call o n args).Gives G ∅ M w fun M' _ v => v.HasType G M' o.ret)

include hcall

theorem instantiate_gives (hG : G.Proper) (h : w.Honours G M) (hn : n < w.scopes.next) {t : TypeId}
    {T : String} (ht : M.types t = some T) :
    (instantiate call t n).Gives G ∅ M w fun M' _ v => v.HasType G M' T := by
  refine .ask_bind (.ask_bind ?_)
  cases ho : w.types.ownMethod? t .defaultConstructor with
  | some o =>
    have htakes := h.takes_ownMethod hG ht ho (v := w.types.blank t) (.inr ⟨rfl, rfl⟩) .nil
    have hret := h.ret_of_constructor ht ho rfl
    exact hret ▸ hcall h hn htakes
  | none =>
    have hT : ¬IsBuiltinName T := by
      rintro ⟨p, rfl⟩
      rw [Types.ownMethod?_descriptor (h.descriptor_of_use ht), p.find?_defaultConstructor] at ho
      cases ho
    exact .pure h (h.hasType_blank hG ht hT)

theorem invokeTarget_gives (hG : G.Proper) (h : w.Honours G M) (hn : n < w.scopes.next)
    {target : Target} {args : List Value} {type : String} (ht : target.Takes G M w args type) :
    (invokeTarget call target n args).Gives G ∅ M w fun M' _ v => v.HasType G M' type := by
  cases ht with
  | function hret ho => exact hret ▸ hcall h hn ho
  | construct ht => exact instantiate_gives hcall hG h hn ht
  | constructWith hret ho => exact .ask_bind (hret ▸ hcall h hn ho)

theorem initialValue_gives {eval : Expr → Run Value} (hG : G.Proper) (h : w.Honours G M)
    (hn : n < w.scopes.next) (hV : w.Shows G M n V)
    (heval : ∀ {e type}, e.HasType G V type →
      (eval e).Gives G ∅ M w fun M' _ v => v.HasType G M' type)
    {type : String} (htype : V.types type) {init : Option Expr} (hinit : InitTyped G V type init) :
    (initialValue eval call n type init).Gives G ∅ M w fun M' _ v => v.HasType G M' type := by
  cases init with
  | some e => exact heval (hinit e rfl)
  | none =>
    obtain ⟨t, ht, hT⟩ := hV.types type htype
    refine .query_bind (a := t) ?_ (instantiate_gives hcall hG h hn hT)
    rw [Scopes.findType, ht]

end Calls

/-! ## Expressions -/

section Expressions

variable {eval : Expr → ScopeId → Run Value} {call : Overload → ScopeId → List Value → Run Value}
  (heval : ∀ {e n type M w V}, w.Honours G M → n < w.scopes.next → w.Shows G M n V →
    e.HasType G V type → (eval e n).Gives G ∅ M w fun M' _ v => v.HasType G M' type)
  (hcall : ∀ {o n args M w}, w.Honours G M → n < w.scopes.next → o.Takes G M w args →
    (call o n args).Gives G ∅ M w fun M' _ v => v.HasType G M' o.ret)

include heval

theorem evaluateArgs_gives (h : w.Honours G M) (hn : n < w.scopes.next) (hV : w.Shows G M n V)
    {es : List Expr} {types : List String} (hes : argsHaveTypes G V es types) :
    (Run.each (eval · n) es).Gives G ∅ M w fun M' _ vs =>
      List.Forall₂ (Value.HasType G M') vs types := by
  induction es generalizing M w types with
  | nil =>
    unfold argsHaveTypes at hes
    subst hes
    exact .pure h .nil
  | cons e es ih =>
    unfold argsHaveTypes at hes
    obtain ⟨T, Ts, rfl, he, hes⟩ := hes
    refine .bind (heval h hn hV he) fun v M₁ w₁ hg₁ h₁ hv => ?_
    have hn₁ := lt_of_lt_of_le hn hg₁.scopes_le
    have hV₁ := hV.grows h.nested hn hg₁
    refine .bind (ih h₁ hn₁ hV₁ hes) fun vs M₂ w₂ hg₂ h₂ hvs => ?_
    exact .pure h₂ (.cons (hv.mono hg₂.toLater) hvs)

include hcall

/-- **The value of a typed expression has its type.** -/
theorem evaluateWith_gives (hG : G.Proper) (h : w.Honours G M) (hn : n < w.scopes.next)
    (hV : w.Shows G M n V) {e : Expr} {type : String} (he : e.HasType G V type) :
    (evaluateWith eval call e n).Gives G ∅ M w fun M' _ v => v.HasType G M' type := by
  refine .orAt ?_ e.position
  unfold Expr.HasType at he
  cases e with
  | literal p l =>
    subst he
    exact plain_gives h hn l
  | var p name =>
    obtain ⟨b, hb, v, rfl, hv⟩ := hV.vars name type he
    refine .of_effect (Effect.query_eq_ok_iff.2 ⟨?_, rfl⟩) (.refl M w) h hv
    rw [Scopes.findVariable, hb]
  | binary p op left right =>
    obtain ⟨L, R, hleft, hright, hop⟩ := he
    refine .bind (heval h hn hV hleft) fun l M₁ w₁ hg₁ h₁ hl => ?_
    have hn₁ := lt_of_lt_of_le hn hg₁.scopes_le
    have hV₁ := hV.grows h.nested hn hg₁
    refine .bind (heval h₁ hn₁ hV₁ hright) fun r M₂ w₂ hg₂ h₂ hr => ?_
    have hn₂ := lt_of_lt_of_le hn₁ hg₂.scopes_le
    have hV₂ := hV₁.grows h₁.nested hn₁ hg₂
    have hl₂ := hl.mono hg₂.toLater
    obtain ⟨resolved, hresolved, hret, htakes⟩ :=
      h₂.exists_resolveOperator hG hV₂ hl₂ hop (.cons hr .nil) rfl
    refine .query_bind (a := resolved) ?_ (hret ▸ hcall h₂ hn₂ htakes)
    rw [World.resolveBinary, h₂.typeName_eq hr, h₂.name_of_use hl₂.use]
    exact hresolved
  | unary p op operand =>
    obtain ⟨L, hoperand, hop⟩ := he
    refine .bind (heval h hn hV hoperand) fun l M₁ w₁ hg₁ h₁ hl => ?_
    have hn₁ := lt_of_lt_of_le hn hg₁.scopes_le
    have hV₁ := hV.grows h.nested hn hg₁
    obtain ⟨resolved, hresolved, hret, htakes⟩ :=
      h₁.exists_resolveOperator hG hV₁ hl hop .nil rfl
    refine .query_bind (a := resolved) ?_ (hret ▸ hcall h₁ hn₁ htakes)
    rw [World.resolveUnary, h₁.name_of_use hl.use]
    exact hresolved
  | call p callee args =>
    obtain ⟨Ts, hargs, hcall'⟩ := he
    refine .bind (evaluateArgs_gives heval h hn hV hargs) fun vs M₁ w₁ hg₁ h₁ hvs => ?_
    have hn₁ := lt_of_lt_of_le hn hg₁.scopes_le
    have hV₁ := hV.grows h.nested hn hg₁
    obtain ⟨target, htarget, htakes⟩ := h₁.exists_resolveCall hG hV₁ hcall' hvs
    refine .query_bind (a := target) ?_ (invokeTarget_gives hcall hG h₁ hn₁ htakes)
    rw [h₁.map_typeName_eq hvs]
    exact htarget
  | methodCall p receiver method args =>
    obtain ⟨R, Ts, hreceiver, hargs, hfinds⟩ := he
    refine .bind (heval h hn hV hreceiver) fun v M₁ w₁ hg₁ h₁ hv => ?_
    have hn₁ := lt_of_lt_of_le hn hg₁.scopes_le
    have hV₁ := hV.grows h.nested hn hg₁
    refine .bind (evaluateArgs_gives heval h₁ hn₁ hV₁ hargs) fun vs M₂ w₂ hg₂ h₂ hvs => ?_
    have hn₂ := lt_of_lt_of_le hn₁ hg₂.scopes_le
    obtain ⟨resolved, hresolved, hret, htakes⟩ :=
      h₂.exists_resolveMethod hG (hv.mono hg₂.toLater) hfinds hvs
    refine .query_bind (a := resolved) ?_ (hret ▸ hcall h₂ hn₂ htakes)
    rw [h₂.map_typeName_eq hvs]
    exact hresolved
  | attr p object name =>
    obtain ⟨T, hobject, hattr⟩ := he
    refine .bind (heval h hn hV hobject) fun v M₁ w₁ hg₁ h₁ hv => ?_
    obtain ⟨u, hu, htype⟩ := hv.attr hG hattr
    refine .of_effect (Effect.query_eq_ok_iff.2 ⟨?_, rfl⟩) (.refl M₁ w₁) h₁ htype
    rw [hu]

end Expressions

end Nominal
