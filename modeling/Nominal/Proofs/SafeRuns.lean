import Nominal.Execution
import Nominal.Proofs.Dispatched

/-!
# Runs in worlds in order

A run that starts in a world in order ends in one. It does not fail for a wrong number of arguments
and, if the builtin types are left alone, not for a wrong payload, and then its values have the
shapes of their types.

* `Cause.Tame`, `Tamely`: the failures that are left.
* `Run.Safe`: every outcome of a run is a result of a certain kind or such a failure.
* **`Run.Safe.bind`**, `Run.Safe.query_bind`, `Run.Safe.openChild_bind`: one step after another.
* `Tamely.resolveOperator` and its like: look-ups fail tamely.
-/

namespace Nominal

open Effect (ask query update fail findType plain openChild bindAll)

variable {α β : Type} {S : Stmt → Prop} {strict : Prop}

/-! ## Failures -/

/-- A failure other than a wrong number of arguments and, if the builtin types are left alone, other
than a wrong payload. -/
structure Cause.Tame (strict : Prop) (c : Cause) : Prop where
  arity : ∀ expected got, c ≠ .arityMismatch expected got
  payload : strict → ∀ expected found, c ≠ .payloadMismatch expected found

namespace Cause

variable {c : Cause}

theorem Tame.of_category (h : c.category ≠ .runtime) : c.Tame strict :=
  ⟨fun _ _ hc => h (hc ▸ rfl), fun _ _ _ hc => h (hc ▸ rfl)⟩

theorem IsFailure.tame (h : c.IsFailure) : c.Tame strict := ⟨h.2.2, fun _ => h.2.1⟩

end Cause

/-- A computation only fails tamely. -/
def Tamely (strict : Prop) (x : Except Cause α) : Prop := ∀ c, x = .error c → c.Tame strict

namespace Tamely

theorem ok (a : α) : Tamely strict (.ok a) := fun _ h => by cases h

theorem error {c : Cause} (h : c.Tame strict) : Tamely strict (.error c : Except Cause α) := by
  rintro _ ⟨⟩
  exact h

theorem of_arithmetical {x : Except Cause α} (h : Arithmetical x) : Tamely strict x :=
  fun c hc => (h c hc).isFailure.tame

theorem map {x : Except Cause α} (h : Tamely strict x) (f : α → β) : Tamely strict (x.map f) := by
  cases x with
  | ok a => exact ok _
  | error c => exact error (h c rfl)

end Tamely

namespace Literal

theorem tamely_binary (op : BinaryOp) (l r : Literal) : Tamely strict (l.binary op r) := by
  have hundefined (op : BinaryOp) (a b : String) : Tamely strict
      (.error (.undefinedFunction (.binaryFunction op a b)) : Except Cause Literal) :=
    .error (.of_category (by simp [Cause.category]))
  have hexact (s : String) (n : Int) : Tamely strict ((Word.exact s n).map Literal.int) :=
    .map (.of_arithmetical (Word.arithmetical_exact s n)) _
  cases l <;> cases r <;> try exact hundefined _ _ _
  case bool.bool a b => cases op <;> first | exact .ok _ | exact hundefined _ _ _
  case string.string a b => cases op <;> first | exact .ok _ | exact hundefined _ _ _
  case int.int a b =>
    have hdiv : Tamely strict ((Word.floorDiv a b).map Literal.int) :=
      .map (.of_arithmetical (Word.arithmetical_floorDiv a b)) _
    have hmod : Tamely strict ((Word.floorMod a b).map Literal.int) :=
      .map (.of_arithmetical (Word.arithmetical_floorMod a b)) _
    have hshl : Tamely strict ((Word.shiftLeft a b).map Literal.int) :=
      .map (.of_arithmetical (Word.arithmetical_shiftLeft a b)) _
    have hshr : Tamely strict ((Word.shiftRight a b).map Literal.int) :=
      .map (.of_arithmetical (Word.arithmetical_shiftRight a b)) _
    cases op <;>
      first | exact hexact _ _ | exact hdiv | exact hmod | exact hshl | exact hshr | exact .ok _ |
        exact hundefined _ _ _
  case float.float a b =>
    have hdiv : Tamely strict ((Floating.div a b).map Literal.float) :=
      .map (.of_arithmetical (Floating.arithmetical_div a b)) _
    have hmod : Tamely strict ((Floating.floorMod a b).map Literal.float) :=
      .map (.of_arithmetical (Floating.arithmetical_floorMod a b)) _
    cases op <;> first | exact hdiv | exact hmod | exact .ok _ | exact hundefined _ _ _

theorem tamely_unary (op : UnaryOp) (l : Literal) : Tamely strict (l.unary op) := by
  have hundefined (op : UnaryOp) (a : String) : Tamely strict
      (.error (.undefinedFunction (.unaryFunction op a)) : Except Cause Literal) :=
    .error (.of_category (by simp [Cause.category]))
  cases l with
  | none | string => exact hundefined _ _
  | bool a => cases op <;> first | exact .ok _ | exact hundefined _ _
  | float a => cases op <;> first | exact .ok _ | exact hundefined _ _
  | int a =>
    have hneg : Tamely strict ((Word.neg a).map Literal.int) :=
      .map (.of_arithmetical (Word.arithmetical_exact _ _)) _
    cases op <;> first | exact hneg | exact .ok _ | exact hundefined _ _

/-- Constants of any type are converted or refused for their payload. -/
theorem tamely_convert_of_any (target : Primitive) (l : Literal) :
    Tamely False (l.convert target) := by
  have hmismatch (a b : String) :
      Tamely False (.error (.payloadMismatch a b) : Except Cause Literal) :=
    .error ⟨fun _ _ => nofun, False.elim⟩
  have htruncate (x : Float) : Tamely False ((Conversion.truncate x).map Literal.int) :=
    .map (.of_arithmetical (Conversion.arithmetical_truncate x)) _
  have hparseInt (s : String) : Tamely False ((Conversion.parseInt s).map Literal.int) :=
    .map (.of_arithmetical (Conversion.arithmetical_parseInt s)) _
  have hparseFloat (s : String) : Tamely False ((Conversion.parseFloat s).map Literal.float) :=
    .map (.of_arithmetical (Conversion.arithmetical_parseFloat s)) _
  cases target <;> cases l <;>
    first | exact htruncate _ | exact hparseInt _ | exact hparseFloat _ | exact .ok _ |
      exact hmismatch _ _

theorem tamely_convert {target : Primitive} {l : Literal}
    (h : strict → l.primitive ∈ target.sources) : Tamely strict (l.convert target) := by
  intro c hc
  refine ⟨(tamely_convert_of_any target l c hc).arity, fun hstrict => ?_⟩
  have hyields := yields_convert (h hstrict)
  rw [hc] at hyields
  exact hyields.isFailure.2.1

end Literal

/-! ## Safe runs -/

/-- A statement only returns values in shape. -/
def Flow.InShape (strict : Prop) (ts : Types) (flow : Flow) : Prop :=
  ∀ v, flow = .returns (some v) → v.InShape strict ts

/-- There are at least as many scopes and types, and the same types have builtin names. -/
structure World.Enriches (strict : Prop) (w w' : World) : Prop where
  scopes_le : w.scopes.next ≤ w'.scopes.next
  types_le : w.types.next ≤ w'.types.next
  builtins : strict → w.types.SameBuiltins w'.types

namespace World.Enriches

variable {w w₁ w' : World}

theorem refl (w : World) : w.Enriches strict w := ⟨le_refl _, le_refl _, fun _ => .refl _⟩

theorem trans (h : w.Enriches strict w₁) (h' : w₁.Enriches strict w') : w.Enriches strict w' :=
  ⟨le_trans h.scopes_le h'.scopes_le, le_trans h.types_le h'.types_le,
    fun hs => (h.builtins hs).trans (h'.builtins hs)⟩

theorem of_eq (hscopes : w'.scopes.next = w.scopes.next) (htypes : w'.types = w.types) :
    w.Enriches strict w' :=
  ⟨le_of_eq hscopes.symm, by rw [htypes], fun _ => htypes.symm ▸ .refl _⟩

theorem scope_lt (h : w.Enriches strict w') {n : ScopeId} (hn : n < w.scopes.next) :
    n < w'.scopes.next :=
  lt_of_lt_of_le hn h.scopes_le

theorem inShape (h : w.Enriches strict w') {v : Value} (hv : v.InShape strict w.types) :
    v.InShape strict w'.types :=
  hv.mono h.types_le h.builtins

end World.Enriches

namespace Run

/-- Every outcome of the run in `w` is in a world in order, and the result is as `Q` says or a tame
failure. -/
def Safe (S : Stmt → Prop) (strict : Prop) (w : World) (Q : World → α → Prop) (m : Run α) : Prop :=
  ∀ r w', m w = some (r, w') → w'.Orderly S strict ∧ w.Enriches strict w' ∧
    match r with
    | .ok a => Q w' a
    | .error e => e.cause.Tame strict

namespace Safe

variable {w w₁ : World} {n : ScopeId} {Q : World → α → Prop} {R : World → β → Prop}

theorem exhausted : (Run.exhausted : Run α).Safe S strict w Q := fun _ _ h => by cases h

theorem pure {a : α} (h : w.Orderly S strict) (ha : Q w a) :
    (Pure.pure a : Run α).Safe S strict w Q := by
  intro r w' hr
  obtain ⟨rfl, rfl⟩ := pure_eq_some_iff.1 hr
  exact ⟨h, .refl w', ha⟩

theorem fail {c : Cause} (h : w.Orderly S strict) (hc : c.Tame strict) :
    (liftM (Effect.fail c : Effect α) : Run α).Safe S strict w Q := by
  intro r w' hr
  obtain ⟨rfl, rfl⟩ := Prod.mk.inj (lift_eq_some_iff.1 hr)
  exact ⟨h, .refl w, hc⟩

theorem orAt {m : Run α} (hm : m.Safe S strict w Q) (p : Option Position) :
    (m.orAt p).Safe S strict w Q := by
  intro r w' h
  obtain ⟨r₀, h₀, rfl⟩ := orAt_eq_some_iff.1 h
  obtain ⟨hw', hg, hr⟩ := hm r₀ w' h₀
  refine ⟨hw', hg, ?_⟩
  cases r₀ with
  | ok a => exact hr
  | error e => exact hr

/-- **One step after another.** -/
theorem bind {m : Run α} {f : α → Run β} (hm : m.Safe S strict w Q)
    (hf : ∀ a w₁, w₁.Orderly S strict → w.Enriches strict w₁ → Q w₁ a →
      (f a).Safe S strict w₁ R) : (m >>= f).Safe S strict w R := by
  intro r w' h
  obtain ⟨e, h₁, rfl⟩ | ⟨a, w₁, h₁, h₂⟩ := bind_eq_some_iff.1 h
  · exact hm _ w' h₁
  · obtain ⟨hw₁, hg, ha⟩ := hm _ w₁ h₁
    obtain ⟨hw', hg', hr⟩ := hf a w₁ hw₁ hg ha r w' h₂
    exact ⟨hw', hg.trans hg', hr⟩

theorem update_bind {c : World → World} {f : Unit → Run β} (hg : w.Enriches strict (c w))
    (hf : (f ()).Safe S strict (c w) R) :
    ((liftM (Effect.update c) : Run Unit) >>= f).Safe S strict w R := by
  intro r w' h
  obtain ⟨hw', hg', hr⟩ := hf r w' h
  exact ⟨hw', hg.trans hg', hr⟩

theorem ask_bind {q : World → α} {f : α → Run β} (hf : (f (q w)).Safe S strict w R) :
    ((liftM (Effect.ask q) : Run α) >>= f).Safe S strict w R := hf

theorem query {q : World → Except Cause α} (h : w.Orderly S strict) (hq : Tamely strict (q w))
    (ha : ∀ a, q w = .ok a → Q w a) :
    (liftM (Effect.query q) : Run α).Safe S strict w Q := by
  intro r w' hr
  have hr := lift_eq_some_iff.1 hr
  cases r with
  | ok a =>
    obtain ⟨hqa, rfl⟩ := Effect.query_eq_ok_iff.1 hr
    exact ⟨h, .refl w, ha a hqa⟩
  | error e =>
    obtain ⟨c, hc, rfl, rfl⟩ := Effect.query_eq_error_iff.1 hr
    exact ⟨h, .refl w, hq c hc⟩

theorem query_bind {q : World → Except Cause α} {f : α → Run β} (h : w.Orderly S strict)
    (hq : Tamely strict (q w)) (hf : ∀ a, q w = .ok a → (f a).Safe S strict w R) :
    ((liftM (Effect.query q) : Run α) >>= f).Safe S strict w R := by
  intro r w' hr
  obtain ⟨e, h₁, rfl⟩ | ⟨a, w₁, h₁, h₂⟩ := bind_eq_some_iff.1 hr
  · exact query (Q := fun _ _ => True) h hq (fun _ _ => trivial) _ w' h₁
  · obtain ⟨hqa, rfl⟩ := Effect.query_eq_ok_iff.1 (lift_eq_some_iff.1 h₁)
    exact hf a hqa r w' h₂

theorem answer_bind {q : World → Except Cause α} {f : α → Run β} {a : α} (hq : q w = .ok a)
    (hf : (f a).Safe S strict w R) :
    ((liftM (Effect.query q) : Run α) >>= f).Safe S strict w R := by
  intro r w' hr
  obtain ⟨e, h₁, -⟩ | ⟨b, w₁, h₁, h₂⟩ := bind_eq_some_iff.1 hr
  · obtain ⟨c, hc, -⟩ := Effect.query_eq_error_iff.1 (lift_eq_some_iff.1 h₁)
    rw [hq] at hc
    cases hc
  · obtain ⟨hqb, rfl⟩ := Effect.query_eq_ok_iff.1 (lift_eq_some_iff.1 h₁)
    obtain rfl := Except.ok.inj (hq.symm.trans hqb)
    exact hf r w' h₂

theorem openChild_bind {f : ScopeId → Run β} (h : w.Orderly S strict) (hn : n < w.scopes.next)
    (hf : ∀ inner w₁, w₁.Orderly S strict → inner < w₁.scopes.next → w.Enriches strict w₁ →
      (f inner).Safe S strict w₁ R) :
    ((liftM (Effect.openChild n) : Run ScopeId) >>= f).Safe S strict w R := by
  have hnext : w.scopes.next < (w.openChild n).scopes.next := by
    rw [World.openChild, Scopes.child, Scopes.next_openScope]
    exact Nat.lt_succ_self _
  have hg : w.Enriches strict (w.openChild n) := ⟨le_of_lt hnext, le_refl _, fun _ => .refl _⟩
  intro r w' hr
  obtain ⟨hw', hg', hr⟩ := hf _ _ (h.openChild hn) hnext hg r w' hr
  exact ⟨hw', hg.trans hg', hr⟩

end Safe

end Run

/-! ## Look-ups -/

namespace World.Orderly

variable {w : World} {n : ScopeId}

theorem findVariable (h : w.Orderly S strict) {name : String} {v : Value}
    (hv : w.scopes.findVariable n name = .ok (.value v)) : v.InShape strict w.types := by
  unfold Scopes.findVariable at hv
  split at hv
  · next b hb =>
    cases hv
    obtain ⟨m, -, hfind⟩ := Scopes.exists_of_lookup hb
    exact h.vars m _ (Table.mem_of_find? hfind) v rfl
  · cases hv

end World.Orderly

namespace Tamely

variable {w : World} {n : ScopeId}

theorem findType (name : String) : Tamely strict (w.scopes.findType n name) := by
  unfold Scopes.findType
  split
  · exact ok _
  · exact error (.of_category (by simp [Cause.category]))

theorem findVariable (name : String) : Tamely strict (w.scopes.findVariable n name) := by
  unfold Scopes.findVariable
  split
  · exact ok _
  · exact error (.of_category (by simp [Cause.category]))

theorem findFunction (s : Signature) : Tamely strict (w.scopes.findFunction n s) := by
  unfold Scopes.findFunction
  split
  · exact ok _
  · exact error (.of_category (by simp [Cause.category]))

theorem bind {x : Except Cause α} {f : α → Except Cause β} (hx : Tamely strict x)
    (hf : ∀ a, Tamely strict (f a)) : Tamely strict (x >>= f) := by
  cases x with
  | ok a => exact hf a
  | error c => exact error (hx c rfl)

theorem foldlM {σ : Type} {f : σ → α → Except Cause σ} (hf : ∀ b a, Tamely strict (f b a))
    (l : List α) (b : σ) : Tamely strict (l.foldlM f b) := by
  induction l generalizing b with
  | nil => exact ok b
  | cons a l ih =>
    rw [List.foldlM_cons]
    exact bind (hf b a) ih

theorem join (t : TypeId) (s : Signature) (found hit : Option (TypeId × Overload)) :
    Tamely strict (w.types.join t s found hit) := by
  unfold Types.join
  split
  · exact ok _
  · exact ok _
  · split
    · exact ok _
    · exact error (.of_category (by simp [Cause.category]))

theorem inheritedWithin (s : Signature) (depth : Nat) (t : TypeId) (visited : List String) :
    Tamely strict (w.types.inheritedWithin s depth t visited) := by
  induction depth generalizing t visited with
  | zero => exact ok _
  | succ depth ih =>
    rw [Types.inheritedWithin]
    refine foldlM (fun state parent => ?_) _ _
    obtain ⟨found, visited⟩ := state
    dsimp only
    split
    · exact ok _
    · split
      · exact bind (ok _) fun r => bind (join t s found r.1) fun _ => ok _
      · exact bind (ih _ _) fun r => bind (join t s found r.1) fun _ => ok _

theorem findMethod (t : TypeId) (s : Signature) : Tamely strict (w.types.findMethod t s) := by
  unfold Types.findMethod
  split
  · exact ok _
  · exact map (inheritedWithin s _ t _) _

theorem resolveOperator (t : TypeId) (method function : Signature) :
    Tamely strict (w.resolveOperator n t method function) := by
  unfold World.resolveOperator
  split
  · next c hc => exact error (findMethod t method c hc)
  · exact ok _
  · exact map (findFunction function) _

theorem resolveMethod (t : TypeId) (method : String) (args : List String) :
    Tamely strict (w.resolveMethod t method args) := by
  unfold World.resolveMethod
  dsimp only
  split
  · next c hc => exact error (findMethod t _ c hc)
  · exact ok _
  · exact error (.of_category (by simp [Cause.category]))

theorem resolveCall (callee : String) (args : List String) :
    Tamely strict (w.resolveCall n callee args) := by
  unfold World.resolveCall
  split
  · split
    · exact ok _
    · dsimp only
      split
      · exact ok _
      · exact error (.of_category (by simp [Cause.category]))
  · exact map (findFunction _) _

end Tamely

end Nominal
