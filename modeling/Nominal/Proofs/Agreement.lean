import Nominal.Execution.Bound
import Nominal.Proofs.CheckFrame
import Nominal.Proofs.Native

/-!
# The check and the execution of expressions over the prelude

Where only the prelude's types and functions are visible and all variables are of builtin types, the
two passes resolve every operator, call and method in the same way. An expression then ends as the
check has said, but for the five failures of arithmetic.

* `World.PreludeOnly`: a scope that sees the prelude and variables of builtin types.
* `Ends`: what a run ends with when its bound is large enough.
* `Agree`: an outcome of the execution is what an outcome of the check promises.
* `Agrees`: a step of the check and a run agree wherever the scopes and types are the same.
* **`check_evaluate_agree`**: the check and the execution of an expression agree.
-/

namespace Nominal

open Effect (ask query findType plain)

variable {α β γ δ : Type}

/-! ## The prelude and variables of builtin types -/

/-- What is visible from a scope are the types of the prelude, its functions, and variables that
hold values of its types. -/
structure World.PreludeOnly (w : World) (n : ScopeId) : Prop where
  types : ∀ name t, w.scopes.lookupType n name = some t →
    ∃ p : Primitive, name = p.name ∧ w.types.get t = p.descriptor
  builtins : w.SeesBuiltins n
  functions : ∀ s o, w.scopes.lookupFunction n s = some o →
    ∃ p : Primitive, s = .function "print" [p.name] ∧ o = ⟨Primitive.none.name, .builtin .print⟩
  vars : ∀ name b, w.scopes.lookupVariable n name = some b →
    ∃ (p : Primitive) (v : Value), b = .value v ∧ w.Native p v

/-- Worlds that differ in their output or host functions only. -/
def World.SameGraph (w w' : World) : Prop := w'.scopes = w.scopes ∧ w'.types = w.types

namespace World

variable {w w₁ w' : World} {n : ScopeId}

theorem SameGraph.refl (w : World) : w.SameGraph w := ⟨rfl, rfl⟩

theorem SameGraph.trans (h : w.SameGraph w₁) (h' : w₁.SameGraph w') : w.SameGraph w' :=
  ⟨h'.1.trans h.1, h'.2.trans h.2⟩

theorem SameGraph.native (h : w.SameGraph w') {p : Primitive} {v : Value} (hv : w.Native p v) :
    w'.Native p v :=
  hv.of_types_eq h.2

theorem SameGraph.of_native (h : w.SameGraph w') {p : Primitive} {v : Value}
    (hv : w'.Native p v) : w.Native p v :=
  hv.of_types_eq h.2.symm

namespace PreludeOnly

theorem start (out : Output) : (Interpreter.start true out).PreludeOnly Interpreter.root where
  types name t h := by
    rw [Interpreter.start_eq] at h ⊢
    exact Interpreter.startRoot_types ((Scopes.lookup_outermost Scope.types rfl name).symm.trans h)
  builtins := Interpreter.seesBuiltins_start out
  functions s o h := by
    rw [Interpreter.start_eq] at h
    exact Interpreter.startRoot_functions
      ((Scopes.lookup_outermost Scope.functions rfl s).symm.trans h)
  vars name b h := by
    rw [Interpreter.start_eq] at h
    cases h

/-- A new scope sees no more than the one around it. -/
theorem openChild (h : w.PreludeOnly n) (hs : w.scopes.Nested) (hn : n < w.scopes.next) :
    (w.openChild n).PreludeOnly w.scopes.next where
  types name t ht := h.types name t ((Scopes.lookupType_child hs hn name).symm.trans ht)
  builtins p := by
    obtain ⟨t, ht, hd⟩ := h.builtins p
    exact ⟨t, (Scopes.lookupType_child hs hn p.name).trans ht, hd⟩
  functions s o ho := h.functions s o ((Scopes.lookupFunction_child hs hn s).symm.trans ho)
  vars name b hb :=
    h.vars name b ((Scopes.lookupVariable_child hs hn name).symm.trans hb)

/-- One more variable of a builtin type changes nothing. -/
theorem declareVariable (h : w.PreludeOnly n) (hs : w.scopes.Nested) (hn : n < w.scopes.next)
    {p : Primitive} {v : Value} (hv : w.Native p v) (name : String) :
    (w.declareVariable n name (.value v)).PreludeOnly n where
  types x t ht := h.types x t ((Scopes.lookupType_declareVariable x).symm.trans ht)
  builtins q := by
    obtain ⟨t, ht, hd⟩ := h.builtins q
    exact ⟨t, (Scopes.lookupType_declareVariable q.name).trans ht, hd⟩
  functions s o ho := h.functions s o ((Scopes.lookupFunction_declareVariable s).symm.trans ho)
  vars x b hb := by
    have hx := (Scopes.lookupVariable_declareVariable hs hn x).symm.trans hb
    split at hx
    · cases hx
      exact ⟨p, v, rfl, hv⟩
    · exact h.vars x b hx

theorem of_sameGraph (h : w.PreludeOnly n) (hw : w.SameGraph w') : w'.PreludeOnly n where
  types name t ht := by
    rw [hw.1] at ht
    rw [hw.2]
    exact h.types name t ht
  builtins := h.builtins.of_eq hw.1 hw.2
  functions s o ho := by
    rw [hw.1] at ho
    exact h.functions s o ho
  vars name b hb := by
    rw [hw.1] at hb
    obtain ⟨p, v, hv, hp⟩ := h.vars name b hb
    exact ⟨p, v, hv, hw.native hp⟩

end PreludeOnly

end World

/-! ## What runs end with -/

/-- The run ends, and it ends in this way within every bound that is large enough. -/
def Ends (m : Nat → Run α) (w : World) (r : Except EvalError α) (w' : World) : Prop :=
  ∃ bound, ∀ fuel ≥ bound, m fuel w = some (r, w')

namespace Ends

variable {m : Nat → Run α} {f : Nat → α → Run β} {w w₁ w' : World}

theorem of_effect {m : Effect α} {r : Except EvalError α} (h : m w = (r, w')) :
    Ends (fun _ => liftM m) w r w' :=
  ⟨0, fun _ _ => Run.lift_eq_some_iff.2 h⟩

theorem bind {a : α} {r : Except EvalError β} (h : Ends m w (.ok a) w₁)
    (hf : Ends (fun fuel => f fuel a) w₁ r w') : Ends (fun fuel => m fuel >>= f fuel) w r w' := by
  obtain ⟨k, hk⟩ := h
  obtain ⟨l, hl⟩ := hf
  refine ⟨max k l, fun fuel hfuel => Run.bind_eq_some_iff.2 (.inr ⟨a, w₁, ?_, ?_⟩)⟩
  · exact hk fuel (le_trans (le_max_left k l) hfuel)
  · exact hl fuel (le_trans (le_max_right k l) hfuel)

theorem bind_error {e : EvalError} (h : Ends m w (.error e) w') :
    Ends (fun fuel => m fuel >>= f fuel) w (.error e) w' := by
  obtain ⟨k, hk⟩ := h
  exact ⟨k, fun fuel hfuel => Run.bind_eq_some_iff.2 (.inl ⟨e, hk fuel hfuel, rfl⟩)⟩

theorem orAt {r : Except EvalError α} (h : Ends m w r w') (p : Option Position) :
    Ends (fun fuel => (m fuel).orAt p) w (r.mapError (·.orAt p)) w' := by
  obtain ⟨k, hk⟩ := h
  exact ⟨k, fun fuel hfuel => Run.orAt_eq_some_iff.2 ⟨r, hk fuel hfuel, rfl⟩⟩

/-- A run that is one level deeper ends with a bound that is larger by one. -/
theorem succ {m' : Nat → Run α} {r : Except EvalError α} (h : Ends m w r w')
    (hm : ∀ fuel, m' (fuel + 1) = m fuel) : Ends m' w r w' := by
  obtain ⟨k, hk⟩ := h
  refine ⟨k + 1, fun fuel hfuel => ?_⟩
  obtain ⟨j, rfl⟩ := Nat.exists_eq_add_of_le' (le_trans (Nat.le_add_left 1 k) hfuel)
  rw [hm]
  exact hk j (Nat.le_of_succ_le_succ hfuel)

end Ends

/-! ## Agreement -/

/-- What the check says and what the execution does: a result as promised, the promised error, or a
failure of arithmetic. -/
def Agree (R : α → β → Prop) : Except EvalError α → Except EvalError β → Prop
  | .ok a, .ok b => R a b
  | .error _, .ok _ => False
  | .ok _, .error e => e.cause.IsArithmetic
  | .error c, .error e => e = c ∨ e.cause.IsArithmetic

namespace Agree

variable {R : α → β → Prop} {r : Except EvalError α} {r' : Except EvalError β}

theorem of_arithmetic {e : EvalError} (h : e.cause.IsArithmetic) : Agree R r (.error e) := by
  cases r with
  | ok a => exact h
  | error c => exact .inr h

theorem orAt (h : Agree R r r') (p : Option Position) :
    Agree R (r.mapError (·.orAt p)) (r'.mapError (·.orAt p)) := by
  cases r' with
  | ok b => cases r <;> exact h
  | error e =>
    cases r with
    | ok a => exact h
    | error c =>
      obtain h | h := h
      · exact .inl (congrArg (EvalError.orAt · p) h)
      · exact .inr h

end Agree

/-- A step of the check in the world `w₀` and a run in any world with the same scopes and types
agree, and the run changes neither scopes nor types. -/
def Agrees (w₀ : World) (R : α → β → Prop) (m : Effect α) (m' : Nat → Run β) : Prop :=
  ∀ w, w₀.SameGraph w →
    ∃ r w', Ends m' w r w' ∧ w₀.SameGraph w' ∧ Agree R (m w₀).1 r

namespace Agrees

variable {w₀ : World} {R : α → β → Prop} {S : γ → δ → Prop} {m : Effect α} {k : Nat → Run β}
  {f : α → Effect γ} {f' : Nat → β → Run δ}

theorem bind (hm : m.Moves Eq) (h : Agrees w₀ R m k)
    (hf : ∀ a b, R a b → Agrees w₀ S (f a) (fun fuel => f' fuel b)) :
    Agrees w₀ S (m >>= f) (fun fuel => k fuel >>= f' fuel) := by
  intro w hw
  obtain ⟨r, w₁, hends, hw₁, hagree⟩ := h w hw
  rw [Effect.bind_apply]
  obtain ⟨c, w₂, hc⟩ : ∃ c w₂, m w₀ = (c, w₂) := ⟨_, _, rfl⟩
  obtain rfl := hm w₀ c w₂ hc
  rw [hc] at hagree ⊢
  cases r with
  | error e =>
    refine ⟨.error e, w₁, hends.bind_error, hw₁, ?_⟩
    cases c with
    | ok a => exact .of_arithmetic hagree
    | error c => exact hagree
  | ok b =>
    cases c with
    | error c => exact hagree.elim
    | ok a =>
      obtain ⟨r, w', hends', hw', hagree'⟩ := hf a b hagree w₁ hw₁
      exact ⟨r, w', hends.bind hends', hw', hagree'⟩

theorem bind_left {a : α} {k : Nat → Run δ} (hm : m w₀ = (.ok a, w₀))
    (hf : Agrees w₀ S (f a) k) : Agrees w₀ S (m >>= f) k := by
  intro w hw
  obtain ⟨r, w', h⟩ := hf w hw
  refine ⟨r, w', ?_⟩
  rw [Effect.bind_apply, hm]
  exact h

theorem orAt (h : Agrees w₀ R m k) (p : Option Position) :
    Agrees w₀ R (m.orAt p) (fun fuel => (k fuel).orAt p) := by
  intro w hw
  obtain ⟨r, w', hends, hw', hagree⟩ := h w hw
  refine ⟨_, w', hends.orAt p, hw', ?_⟩
  have hc : ((m.orAt p) w₀).1 = (m w₀).1.mapError (·.orAt p) := by
    unfold Effect.orAt
    rcases m w₀ with ⟨_ | _, _⟩ <;> rfl
  rw [hc]
  exact hagree.orAt p

theorem query {q q' : World → Except Cause α} (h : ∀ w, w₀.SameGraph w → q' w = q w₀) :
    Agrees w₀ (fun a b => q w₀ = .ok a ∧ b = a) (Effect.query q)
      (fun _ => liftM (Effect.query q')) := by
  intro w hw
  have hq := h w hw
  cases hw₀ : q w₀ with
  | ok a =>
    refine ⟨.ok a, w, .of_effect (Effect.query_eq_ok_iff.2 ⟨hq.trans hw₀, rfl⟩), hw, ?_⟩
    rw [Effect.query, hw₀]
    exact ⟨rfl, rfl⟩
  | error c =>
    refine ⟨.error (.ofCause c), w, .of_effect ?_, hw, ?_⟩
    · exact Effect.query_eq_error_iff.2 ⟨c, hq.trans hw₀, rfl, rfl⟩
    · rw [Effect.query, hw₀]
      exact .inl rfl

theorem succ {l : Nat → Run β} (h : Agrees w₀ R m l) (hm : ∀ fuel, k (fuel + 1) = l fuel) :
    Agrees w₀ R m k := by
  intro w hw
  obtain ⟨r, w', hends, hw', hagree⟩ := h w hw
  exact ⟨r, w', hends.succ hm, hw', hagree⟩

theorem pure {a : α} (h : ∀ w, w₀.SameGraph w →
    ∃ r w', Ends k w r w' ∧ w₀.SameGraph w' ∧ Agree R (.ok a) r) : Agrees w₀ R (Pure.pure a) k :=
  h

theorem ask {g : World → α} {a : α} (hg : g w₀ = a) (h : Agrees w₀ R (Pure.pure a) k) :
    Agrees w₀ R (Effect.ask g) k := by
  subst hg
  exact h

end Agrees

/-! ## Expressions -/

/-- A value of the builtin type with a given name. -/
def World.HasBuiltinType (w : World) (type : String) (v : Value) : Prop :=
  ∃ p : Primitive, type = p.name ∧ w.Native p v

theorem Builtin.Accepts.of_types_eq {w w' : World} {b : Builtin} {args : List Value}
    {p : Primitive} (h : b.Accepts w args p) (ht : w'.types = w.types) : b.Accepts w' args p := by
  cases h with
  | fresh l => exact .fresh l args
  | convert hsource hv => exact .convert hsource (hv.of_types_eq ht)
  | render blank v => exact .render blank v
  | binary hop hu hv => exact .binary hop (hu.of_types_eq ht) (hv.of_types_eq ht)
  | unary hop hv => exact .unary hop (hv.of_types_eq ht)
  | print v => exact .print v

/-- Methods of builtin values are those of their types. -/
theorem World.resolveMethod_descriptor {w₀ : World} {t : TypeId} {p : Primitive}
    (ht : w₀.types.get t = p.descriptor) (method : String) (args : List String) :
    w₀.resolveMethod t method args =
      match p.methods.find? (.method method args) with
      | some o => .ok ⟨o, none⟩
      | none => .error (.undefinedMethod p.name (.method method args)) := by
  unfold World.resolveMethod
  dsimp only
  rw [Types.findMethod_descriptor ht, Types.name, ht]
  cases p.methods.find? (.method method args) <;> rfl

namespace World.PreludeOnly

variable {w₀ : World} {n : ScopeId} (hw₀ : w₀.PreludeOnly n)

include hw₀

/-! ### What is resolved -/

theorem findType_name (p : Primitive) :
    ∃ t, findType n p.name w₀ = (.ok t, w₀) ∧ w₀.types.get t = p.descriptor := by
  obtain ⟨t, ht, hd⟩ := hw₀.builtins p
  refine ⟨t, Effect.query_eq_ok_iff.2 ⟨?_, rfl⟩, hd⟩
  rw [Scopes.findType, ht]

theorem findFunction_eq {f : Signature} (hf : f.name ≠ "print") :
    w₀.scopes.findFunction n f = .error (.undefinedFunction f) := by
  unfold Scopes.findFunction
  cases h : w₀.scopes.lookupFunction n f with
  | none => rfl
  | some o =>
    obtain ⟨p, rfl, -⟩ := hw₀.functions f o h
    exact absurd rfl hf

/-- Operators on builtin values are methods. -/
theorem resolveOperator_eq {t : TypeId} {p : Primitive} (ht : w₀.types.get t = p.descriptor)
    (method : Signature) {function : Signature} (hf : function.name ≠ "print") :
    w₀.resolveOperator n t method function =
      match p.methods.find? method with
      | some o => .ok ⟨o, none⟩
      | none => .error (.undefinedFunction function) := by
  unfold World.resolveOperator
  rw [Types.findMethod_descriptor ht, hw₀.findFunction_eq hf]
  cases p.methods.find? method <;> rfl

theorem resolveBinary_eq {t : TypeId} {p : Primitive} (ht : w₀.types.get t = p.descriptor)
    (op : BinaryOp) (right : String) :
    w₀.resolveBinary n op t right =
      match p.methods.find? (.binaryMethod op right) with
      | some o => .ok ⟨o, none⟩
      | none => .error (.undefinedFunction (.binaryFunction op p.name right)) := by
  have hop : op.callableName ≠ "print" := by cases op <;> decide
  rw [World.resolveBinary, hw₀.resolveOperator_eq ht _ hop, Types.name, ht]
  rfl

theorem resolveUnary_eq {t : TypeId} {p : Primitive} (ht : w₀.types.get t = p.descriptor)
    (op : UnaryOp) :
    w₀.resolveUnary n op t =
      match p.methods.find? (.unaryMethod op) with
      | some o => .ok ⟨o, none⟩
      | none => .error (.undefinedFunction (.unaryFunction op p.name)) := by
  have hop : op.callableName ≠ "print" := by cases op <;> decide
  rw [World.resolveUnary, hw₀.resolveOperator_eq ht _ hop, Types.name, ht]
  rfl

/-! ### Calls of what was found -/

theorem agrees_invoke {b : Builtin} {args : List Value} {p : Primitive}
    (h : b.Accepts w₀ args p) :
    Agrees w₀ w₀.HasBuiltinType (pure p.name)
      (fun fuel => invoke fuel ⟨p.name, .builtin b⟩ n args) := by
  refine .succ (l := fun _ => liftM (b.run n args)) ?_ fun _ => rfl
  intro w hw
  obtain ⟨r, w', hrun, hscopes, htypes, hr⟩ :=
    Builtin.run_of_accepts (h.of_types_eq hw.2) (hw₀.builtins.of_eq hw.1 hw.2)
  have hw' : w₀.SameGraph w' := hw.trans ⟨hscopes, htypes⟩
  refine ⟨r, w', .of_effect hrun, hw', ?_⟩
  cases r with
  | ok v => exact ⟨p, rfl, hw.of_native hr⟩
  | error e => exact hr.1

theorem agrees_method {p : Primitive} {s : Signature} {o : Overload}
    (ho : p.methods.find? s = some o) {v : Value} (hv : s.name ≠ constructorName → w₀.Native p v)
    {args : List Value} (hs : s.params = args.map w₀.typeName)
    (hargs : ∀ a ∈ args, ∃ q, w₀.Native q a) :
    Agrees w₀ w₀.HasBuiltinType (pure o.ret) (fun fuel => invoke fuel o n (v :: args)) := by
  obtain ⟨b, q, rfl, hb⟩ := Primitive.accepts_of_method (Primitive.isMethod_of_find? ho) hv hs <| by
    intro a ha q hq
    obtain ⟨q', hq'⟩ := hargs a ha
    obtain rfl := Primitive.name_injective (hq'.typeName_eq.symm.trans hq)
    exact hq'
  exact hw₀.agrees_invoke hb

/-! ### One level of expressions -/

theorem agrees_literal (p : Option Position) (l : Literal) :
    Agrees w₀ w₀.HasBuiltinType ((Expr.literal p l).check n) (evaluate · (.literal p l) n) := by
  unfold Expr.check
  refine .succ (.orAt (k := fun _ => liftM (plain n l)) ?_ p) fun _ => rfl
  intro w hw
  obtain ⟨v, hv, hl⟩ := (hw₀.builtins.of_eq hw.1 hw.2).plain_apply l
  refine ⟨.ok v, w, .of_effect hv, hw, ?_⟩
  obtain ⟨t, ht, hd⟩ := hw₀.builtins l.primitive
  have hname : w₀.resolveName n l.primitive.name = .ok l.primitive.name := by
    rw [World.resolveName, Scopes.findType, ht]
    exact congrArg (fun d => Except.ok (Descriptor.name d)) hd
  rw [query, hname]
  exact ⟨l.primitive, rfl, hw.of_native hl⟩

theorem agrees_var (p : Option Position) (name : String) :
    Agrees w₀ w₀.HasBuiltinType ((Expr.var p name).check n) (evaluate · (.var p name) n) := by
  unfold Expr.check
  refine .succ (.orAt (k := fun _ => liftM (variableValue n name)) ?_ p) fun _ => rfl
  intro w hw
  have hlookup : w.scopes.findVariable n name = w₀.scopes.findVariable n name := by rw [hw.1]
  unfold Scopes.findVariable at hlookup
  cases hb : w₀.scopes.lookupVariable n name with
  | none =>
    refine ⟨.error (.ofCause (.undefinedVariable name)), w, .of_effect ?_, hw, ?_⟩
    · rw [variableValue, query, Scopes.findVariable, hlookup, hb]
    · rw [Effect.bind_apply, query, Scopes.findVariable, hb]
      exact .inl rfl
  | some b =>
    obtain ⟨q, v, rfl, hv⟩ := hw₀.vars name b hb
    refine ⟨.ok v, w, .of_effect ?_, hw, ?_⟩
    · rw [variableValue, query, Scopes.findVariable, hlookup, hb]
    · rw [Effect.bind_apply, query, Scopes.findVariable, hb]
      exact ⟨q, hv.typeName_eq, hv⟩

theorem agrees_binary (p : Option Position) (op : BinaryOp) {left right : Expr}
    (hleft : Agrees w₀ w₀.HasBuiltinType (left.check n) (evaluate · left n))
    (hright : Agrees w₀ w₀.HasBuiltinType (right.check n) (evaluate · right n)) :
    Agrees w₀ w₀.HasBuiltinType ((Expr.binary p op left right).check n)
      (evaluate · (.binary p op left right) n) := by
  unfold Expr.check
  refine .succ (.orAt (.bind (left.check_moves n) hleft ?_) p) fun _ => rfl
  rintro _ v ⟨q, rfl, hv⟩
  obtain ⟨t, ht, hd⟩ := hw₀.findType_name q
  refine .bind_left ht (.bind (right.check_moves n) hright ?_)
  rintro _ u ⟨q', rfl, hu⟩
  refine .bind (.query _) (.query fun w hw => ?_) ?_
  · have hv' := hw.native hv
    rw [(hw₀.of_sameGraph hw).resolveBinary_eq hv'.get_type, hw₀.resolveBinary_eq hd,
      (hw.native hu).typeName_eq]
  · rintro _ r ⟨hr, rfl⟩
    rw [hw₀.resolveBinary_eq hd] at hr
    split at hr
    · next o ho =>
      cases hr
      refine hw₀.agrees_method ho (fun _ => hv) ?_ ?_
      · rw [List.map_singleton, hu.typeName_eq]
        rfl
      · simp only [List.forall_mem_singleton]
        exact ⟨q', hu⟩
    · cases hr

theorem agrees_unary (p : Option Position) (op : UnaryOp) {operand : Expr}
    (hoperand : Agrees w₀ w₀.HasBuiltinType (operand.check n) (evaluate · operand n)) :
    Agrees w₀ w₀.HasBuiltinType ((Expr.unary p op operand).check n)
      (evaluate · (.unary p op operand) n) := by
  unfold Expr.check
  refine .succ (.orAt (.bind (operand.check_moves n) hoperand ?_) p) fun _ => rfl
  rintro _ v ⟨q, rfl, hv⟩
  obtain ⟨t, ht, hd⟩ := hw₀.findType_name q
  refine .bind_left ht (.bind (.query _) (.query fun w hw => ?_) ?_)
  · rw [(hw₀.of_sameGraph hw).resolveUnary_eq (hw.native hv).get_type, hw₀.resolveUnary_eq hd]
  · rintro _ r ⟨hr, rfl⟩
    rw [hw₀.resolveUnary_eq hd] at hr
    split at hr
    · next o ho =>
      cases hr
      exact hw₀.agrees_method ho (fun _ => hv) rfl fun a ha => by cases ha
    · cases hr

theorem agrees_attr (p : Option Position) (name : String) {object : Expr}
    (hobject : Agrees w₀ w₀.HasBuiltinType (object.check n) (evaluate · object n)) :
    Agrees w₀ w₀.HasBuiltinType ((Expr.attr p object name).check n)
      (evaluate · (.attr p object name) n) := by
  unfold Expr.check
  refine .succ (.orAt (.bind (object.check_moves n) hobject ?_) p) fun _ => rfl
  rintro _ v ⟨q, rfl, hv⟩
  obtain ⟨t, ht, hd⟩ := hw₀.findType_name q
  refine .bind_left ht ?_
  -- neither the type nor the value has attributes
  intro w hw
  refine ⟨.error (.ofCause (.undefinedAttribute q.name name)), w, .of_effect ?_, hw, ?_⟩
  · have hnone : v.attr? name = none := by
      obtain ⟨_, _, rfl, -⟩ := hv
      rfl
    refine Effect.query_eq_error_iff.2 ⟨_, ?_, rfl, rfl⟩
    rw [hnone, (hw.native hv).typeName_eq]
  · rw [query, Types.attrType?_descriptor hd, Types.name, hd]
    exact .inl rfl

omit hw₀ in
theorem agrees_args {args : List Expr}
    (hargs : ∀ e ∈ args, Agrees w₀ w₀.HasBuiltinType (e.check n) (evaluate · e n)) :
    Agrees w₀ (fun types vs => types = vs.map w₀.typeName ∧ ∀ v ∈ vs, ∃ q, w₀.Native q v)
      (checkArgs args n) (fun fuel => Run.each (evaluate fuel · n) args) := by
  induction args with
  | nil =>
    unfold checkArgs
    exact .pure fun w hw => ⟨.ok [], w, ⟨0, fun _ _ => rfl⟩, hw, rfl, fun v hv => by cases hv⟩
  | cons e args ih =>
    unfold checkArgs
    refine .bind (e.check_moves n) (hargs e List.mem_cons_self) ?_
    rintro _ v ⟨q, rfl, hv⟩
    refine .bind (checkArgs_moves args n) (ih fun a ha => hargs a (List.mem_cons_of_mem e ha)) ?_
    rintro types vs ⟨rfl, hvs⟩
    refine .pure fun w hw => ⟨.ok (v :: vs), w, ⟨0, fun _ _ => rfl⟩, hw, ?_, ?_⟩
    · rw [List.map_cons, hv.typeName_eq]
    · exact List.forall_mem_cons.2 ⟨⟨q, hv⟩, hvs⟩

theorem agrees_methodCall (p : Option Position) (method : String) {receiver : Expr}
    {args : List Expr}
    (hreceiver : Agrees w₀ w₀.HasBuiltinType (receiver.check n) (evaluate · receiver n))
    (hargs : ∀ e ∈ args, Agrees w₀ w₀.HasBuiltinType (e.check n) (evaluate · e n)) :
    Agrees w₀ w₀.HasBuiltinType ((Expr.methodCall p receiver method args).check n)
      (evaluate · (.methodCall p receiver method args) n) := by
  unfold Expr.check
  refine .succ (.orAt (.bind (receiver.check_moves n) hreceiver ?_) p) fun _ => rfl
  rintro _ v ⟨q, rfl, hv⟩
  obtain ⟨t, ht, hd⟩ := hw₀.findType_name q
  refine .bind_left ht (.bind (checkArgs_moves args n) (agrees_args hargs) ?_)
  rintro _ vs ⟨rfl, hvs⟩
  refine .bind (.query _) (.query fun w hw => ?_) ?_
  · rw [World.resolveMethod_descriptor (hw.native hv).get_type, World.resolveMethod_descriptor hd]
    have hnames : vs.map w.typeName = vs.map w₀.typeName := by
      unfold World.typeName
      rw [hw.2]
    rw [hnames]
  · rintro _ r ⟨hr, rfl⟩
    rw [World.resolveMethod_descriptor hd] at hr
    split at hr
    · next o ho =>
      cases hr
      exact hw₀.agrees_method ho (fun _ => hv) rfl hvs
    · cases hr

theorem agrees_instantiate {t : TypeId} {p : Primitive} (ht : w₀.types.get t = p.descriptor) :
    Agrees w₀ w₀.HasBuiltinType (pure p.name) (fun fuel => instantiate (invoke fuel) t n) := by
  intro w hw
  have hfresh := Builtin.Accepts.fresh (w := w₀) p.zero [w.types.blank t]
  rw [Primitive.primitive_zero] at hfresh
  obtain ⟨r, w', hends, h⟩ := hw₀.agrees_invoke hfresh w hw
  have hown : w.types.ownMethod? t .defaultConstructor =
      some ⟨p.name, .builtin (.fresh p.zero)⟩ := by
    rw [hw.2, Types.ownMethod?_descriptor ht, Primitive.find?_defaultConstructor]
  refine ⟨r, w', ?_, h⟩
  have hasked := Ends.of_effect (congrArg (fun o => (Except.ok o, w)) hown)
  exact .bind (.of_effect rfl) (.bind hasked hends)

theorem agrees_call (p : Option Position) (callee : String) {args : List Expr}
    (hargs : ∀ e ∈ args, Agrees w₀ w₀.HasBuiltinType (e.check n) (evaluate · e n)) :
    Agrees w₀ w₀.HasBuiltinType ((Expr.call p callee args).check n)
      (evaluate · (.call p callee args) n) := by
  unfold Expr.check
  refine .succ (.orAt (.bind (checkArgs_moves args n) (agrees_args hargs) ?_) p) fun _ => rfl
  rintro _ vs ⟨rfl, hvs⟩
  refine .bind (.query _) (.query fun w hw => ?_) ?_
  · unfold World.resolveCall World.typeName
    rw [hw.1, hw.2]
  · rintro target _ ⟨htarget, rfl⟩
    unfold World.resolveCall at htarget
    split at htarget
    · next t ht =>
      obtain ⟨q, rfl, hd⟩ := hw₀.types callee t ht
      split at htarget
      · cases htarget
        exact .ask (congrArg Descriptor.name hd) (hw₀.agrees_instantiate hd)
      · dsimp only at htarget
        rw [Types.ownMethod?_descriptor hd] at htarget
        split at htarget
        · next o ho =>
          cases htarget
          -- a constructor gets a blank instance in front of the arguments
          refine .ask rfl fun w hw => ?_
          obtain ⟨r, w', hends, h⟩ := hw₀.agrees_method ho (v := w.types.blank t)
            (fun hname => absurd rfl hname) rfl hvs w hw
          exact ⟨r, w', .bind (.of_effect rfl) hends, h⟩
        · cases htarget
    · unfold Scopes.findFunction at htarget
      split at htarget
      · next o ho =>
        cases htarget
        obtain ⟨q, hs, rfl⟩ := hw₀.functions _ o ho
        have hprint : vs.map w₀.typeName = [q.name] := congrArg Signature.params hs
        obtain ⟨v, l, rfl, -, hl⟩ := List.map_eq_cons_iff.1 hprint
        rw [List.map_eq_nil_iff.1 hl]
        exact .ask rfl (hw₀.agrees_invoke (.print v))
      · cases htarget

/-! ### All expressions -/

theorem agrees (e : Expr) : Agrees w₀ w₀.HasBuiltinType (e.check n) (evaluate · e n) := by
  cases e with
  | literal p l => exact hw₀.agrees_literal p l
  | var p name => exact hw₀.agrees_var p name
  | binary p op left right => exact hw₀.agrees_binary p op (agrees left) (agrees right)
  | unary p op operand => exact hw₀.agrees_unary p op (agrees operand)
  | call p callee args => exact hw₀.agrees_call p callee fun e _ => agrees e
  | methodCall p receiver method args =>
    exact hw₀.agrees_methodCall p method (agrees receiver) fun e _ => agrees e
  | attr p object name => exact hw₀.agrees_attr p name (agrees object)

end World.PreludeOnly

/-- **The check and the execution of an expression agree.** From a scope that sees only the prelude
and variables of builtin types every expression ends. When the check gives a type, the value is of
that type and has its constant, or one of the five failures of arithmetic happens. When the check
fails, the execution fails in the same way and at the same position, or by one of these five. -/
theorem check_evaluate_agree {w : World} {n : ScopeId} (hw : w.PreludeOnly n) (e : Expr) :
    ∃ c r w', e.check n w = (c, w) ∧
      (∃ bound, ∀ fuel ≥ bound, evaluate fuel e n w = some (r, w')) ∧
      match c, r with
      | .ok type, .ok v => w'.typeName v = type ∧ ∃ p : Primitive, type = p.name ∧ w'.Native p v
      | .ok _, .error failure => failure.cause.IsArithmetic
      | .error _, .ok _ => False
      | .error found, .error failure => failure = found ∨ failure.cause.IsArithmetic := by
  obtain ⟨c, w₁, hc⟩ : ∃ c w₁, e.check n w = (c, w₁) := ⟨_, _, rfl⟩
  obtain rfl := e.check_moves n w c w₁ hc
  obtain ⟨r, w', hends, hw', hagree⟩ := hw.agrees e w (.refl w)
  refine ⟨c, r, w', hc, hends, ?_⟩
  rw [hc] at hagree
  cases c with
  | error found => cases r <;> exact hagree
  | ok type =>
    cases r with
    | error failure => exact hagree
    | ok v =>
      obtain ⟨p, rfl, hv⟩ := hagree
      have hv' := hw'.native hv
      exact ⟨hv'.typeName_eq, p, rfl, hv'⟩

/-- The agreement for `x / y` in a scope inside the root, with `x` there and `y` in the root. -/
theorem check_evaluate_agree_division :
    ∃ w : World, w.PreludeOnly 1 ∧ ∃ c r w',
      (Expr.binary none .div (.var none "x") (.var none "y")).check 1 w = (c, w) ∧
      (∃ bound, ∀ fuel ≥ bound,
        evaluate fuel (.binary none .div (.var none "x") (.var none "y")) 1 w = some (r, w')) ∧
      match c, r with
      | .ok type, .ok v => w'.typeName v = type ∧ ∃ p : Primitive, type = p.name ∧ w'.Native p v
      | .ok _, .error failure => failure.cause.IsArithmetic
      | .error _, .ok _ => False
      | .error found, .error failure => failure = found ∨ failure.cause.IsArithmetic := by
  let w₀ := Interpreter.start true (.captured "")
  let w₁ := w₀.declareVariable 0 "y" (.value (.plain (2 : Nat) (.int 0)))
  let w := (w₁.openChild 0).declareVariable 1 "x" (.value (.plain (2 : Nat) (.int 7)))
  have hint (m : Int64) : w₀.Native .int (.plain (2 : Nat) (.int m)) := by
    refine ⟨(2 : Nat), .int m, rfl, ?_, rfl⟩
    show (Interpreter.start true (.captured "")).types.get (2 : Nat) = _
    rw [Interpreter.start_eq]
    rfl
  have hnext : 0 < w₀.scopes.next := by rw [Interpreter.next_start]; exact Nat.one_pos
  have hnested : w₀.scopes.Nested := Interpreter.nested_start _
  have hw₁ : w₁.PreludeOnly 0 :=
    (World.PreludeOnly.start _).declareVariable hnested hnext (hint 0) "y"
  have hnested₁ : w₁.scopes.Nested := Scopes.nested_modify hnested fun _ => rfl
  have hnext₁ : w₁.scopes.next = 1 := by
    rw [← Interpreter.next_start (.captured "")]
    exact Scopes.next_modify ..
  have hchild : (w₁.openChild 0).PreludeOnly 1 := by
    have := hw₁.openChild hnested₁ (hnext₁ ▸ Nat.one_pos)
    rwa [hnext₁] at this
  have hw : w.PreludeOnly 1 := by
    refine hchild.declareVariable (Scopes.nested_child hnested₁ (hnext₁ ▸ Nat.one_pos)) ?_
      ((hint 7).of_types_eq rfl) "x"
    show 1 < (w₁.scopes.child 0).next
    rw [Scopes.child, Scopes.next_openScope, hnext₁]
    exact Nat.one_lt_two
  exact ⟨w, hw, check_evaluate_agree hw _⟩

end Nominal
