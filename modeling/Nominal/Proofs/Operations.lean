import Nominal.Proofs.Agreement

/-!
# Operations in expressions

Where the builtin types are visible under their names, the operators and constructors of the prelude
stand for operations on constants. An expression that applies one of them to other expressions gives
what the operation gives for the constants that these give.

* `World.Carries`: a value of a builtin type and its constant.
* `Computes`, `World.Gives`: what a run or an expression ends with, if that is a constant or an
  error and nothing changes.
* `Primitive.find?_binaryMethod`, `Primitive.find?_constructor`: the entries of the method tables.
* **`World.SeesBuiltins.gives_binary`**: the operators.
* **`World.SeesBuiltins.gives_construct`**: the constructors.
-/

namespace Nominal

open Effect (query plain)

/-! ## Entries of the method tables -/

namespace Primitive

variable {p q target source : Primitive} {op : BinaryOp}

theorem find?_binaryMethod (hop : (op, q) ∈ p.binaryOps) :
    p.methods.find? (.binaryMethod op p.name) = some ⟨q.name, .builtin (.binary p op)⟩ := by
  cases p <;> cases op <;> simp [binaryOps] at hop <;> subst hop <;> rfl

theorem find?_constructor (hsource : source ∈ target.sources) :
    target.methods.find? (.constructor [source.name]) =
      some ⟨target.name, .builtin (target.conversion source)⟩ := by
  cases target <;> cases source <;> simp [sources] at hsource <;> rfl

end Primitive

/-! ## What is computed -/

/-- The value carries the constant and is of its builtin type. -/
def World.Carries (w : World) (v : Value) (l : Literal) : Prop :=
  ∃ t, v = .plain t l ∧ w.types.get t = l.primitive.descriptor

/-- The run ends with the constant as a value or with the error, and it changes nothing. -/
def Computes (m : Nat → Run Value) (w : World) : Except EvalError Literal → Prop
  | .ok l => ∃ v, Ends m w (.ok v) w ∧ w.Carries v l
  | .error failure => Ends m w (.error failure) w

/-- The expression gives the constant or the error, and it changes nothing. -/
def World.Gives (w : World) (n : ScopeId) (e : Expr) (r : Except EvalError Literal) : Prop :=
  Computes (evaluate · e n) w r

variable {w : World} {n : ScopeId} {v u : Value} {l r : Literal} {m : Nat → Run Value}

namespace World.Carries

theorem datumOf_eq (h : w.Carries v l) : w.datumOf l.primitive v = .ok l := by
  obtain ⟨t, rfl, -⟩ := h
  rw [World.datumOf, Value.datum?, if_pos rfl]

theorem textOf_eq (h : w.Carries v l) : w.textOf v = l.text := by
  obtain ⟨t, rfl, -⟩ := h
  rfl

theorem get_type (h : w.Carries v l) : w.types.get v.type = l.primitive.descriptor := by
  obtain ⟨t, rfl, ht⟩ := h
  exact ht

theorem typeName_eq (h : w.Carries v l) : w.typeName v = l.primitive.name :=
  congrArg Descriptor.name h.get_type

end World.Carries

namespace Computes

theorem orAt {x : Except Cause Literal} (h : Computes m w (x.mapError .ofCause))
    (p : Option Position) :
    Computes (fun fuel => (m fuel).orAt p) w (x.mapError (EvalError.mk · p)) := by
  cases x with
  | ok l =>
    obtain ⟨v, hends, hv⟩ := h
    exact ⟨v, hends.orAt p, hv⟩
  | error c => exact Ends.orAt h p

theorem bind {α : Type} {m' : Nat → Run α} {f : Nat → α → Run Value} {a : α}
    {x : Except EvalError Literal} (h : Ends m' w (.ok a) w)
    (hf : Computes (fun fuel => f fuel a) w x) :
    Computes (fun fuel => m' fuel >>= f fuel) w x := by
  cases x with
  | ok l =>
    obtain ⟨u, hends, hu⟩ := hf
    exact ⟨u, h.bind hends, hu⟩
  | error failure => exact Ends.bind h hf

theorem succ {m' : Nat → Run Value} {x : Except EvalError Literal} (h : Computes m w x)
    (hm : ∀ fuel, m' (fuel + 1) = m fuel) : Computes m' w x := by
  cases x with
  | ok l =>
    obtain ⟨v, hends, hv⟩ := h
    exact ⟨v, hends.succ hm, hv⟩
  | error failure => exact Ends.succ h hm

end Computes

/-! ## Operations on constants -/

theorem Literal.convert_string (l : Literal) : l.convert .string = .ok (.string l.text) := by
  cases l <;> rfl

namespace World.SeesBuiltins

variable (hw : w.SeesBuiltins n)

include hw

theorem computes_builtin {b : Builtin} {args : List Value} {x : Except Cause Literal}
    (hrun : b.run n args w = (do let l ← query fun _ => x; plain n l) w) (ret : String) :
    Computes (invoke · ⟨ret, .builtin b⟩ n args) w (x.mapError .ofCause) := by
  have hinvoke {y : Except EvalError Value} (hy : b.run n args w = (y, w)) :
      Ends (invoke · ⟨ret, .builtin b⟩ n args) w y w :=
    (Ends.of_effect hy).succ fun _ => rfl
  cases x with
  | ok l =>
    obtain ⟨t, hplain, ht⟩ := hw.plain_eq l
    exact ⟨.plain t l, hinvoke (hrun.trans hplain), t, rfl, ht⟩
  | error c => exact hinvoke hrun

theorem computes_binary (hv : w.Carries v l) (hu : w.Carries u r)
    (hprimitive : r.primitive = l.primitive) (op : BinaryOp) (ret : String) :
    Computes (invoke · ⟨ret, .builtin (.binary l.primitive op)⟩ n [v, u]) w
      ((l.binary op r).mapError .ofCause) := by
  have hdatum : w.datumOf l.primitive u = .ok r := hprimitive ▸ hu.datumOf_eq
  refine hw.computes_builtin ?_ ret
  simp only [Builtin.run, operands, Effect.bind_apply, query, hv.datumOf_eq, hdatum]

/-- A constructor does not look at the blank instance. -/
theorem computes_conversion (hv : w.Carries v l) (blank : Value) (target : Primitive)
    (ret : String) :
    Computes (invoke · ⟨ret, .builtin (target.conversion l.primitive)⟩ n [blank, v]) w
      ((l.convert target).mapError .ofCause) := by
  refine hw.computes_builtin ?_ ret
  unfold Primitive.conversion
  split
  · next htarget =>
    rw [htarget, l.convert_string]
    simp only [Builtin.run, operands, Effect.bind_apply, query, Effect.ask, hv.textOf_eq]
  · simp only [Builtin.run, operands, Effect.bind_apply, query, hv.datumOf_eq]

/-! ## Expressions -/

theorem gives_literal (p : Option Position) (l : Literal) : w.Gives n (.literal p l) (.ok l) := by
  obtain ⟨t, hplain, ht⟩ := hw.plain_eq l
  exact ⟨.plain t l, ((Ends.of_effect hplain).orAt p).succ fun _ => rfl, t, rfl, ht⟩

variable {left right e : Expr}

/-- **An operator of the prelude gives what it gives for the constants of its operands.** An error
gets the position of the operator. -/
theorem gives_binary {op : BinaryOp} {q : Primitive} (hop : (op, q) ∈ l.primitive.binaryOps)
    (hprimitive : r.primitive = l.primitive) (hleft : w.Gives n left (.ok l))
    (hright : w.Gives n right (.ok r)) (p : Option Position) :
    w.Gives n (.binary p op left right) ((l.binary op r).mapError (EvalError.mk · p)) := by
  obtain ⟨v, hleft, hv⟩ := hleft
  obtain ⟨u, hright, hu⟩ := hright
  have hresolve : w.resolveBinary n op v.type (w.typeName u) =
      .ok ⟨⟨q.name, .builtin (.binary l.primitive op)⟩, none⟩ := by
    rw [World.resolveBinary, World.resolveOperator, Types.findMethod_descriptor hv.get_type,
      hu.typeName_eq, hprimitive, Primitive.find?_binaryMethod hop]
    rfl
  have hquery : query (fun w => w.resolveBinary n op v.type (w.typeName u)) w =
      (.ok ⟨⟨q.name, .builtin (.binary l.primitive op)⟩, none⟩, w) :=
    Effect.query_eq_ok_iff.2 ⟨hresolve, rfl⟩
  have hcall := hw.computes_binary hv hu hprimitive op q.name
  exact .succ (.orAt (.bind hleft (.bind hright (.bind (.of_effect hquery) hcall))) p) fun _ => rfl

/-- **A constructor of the prelude gives what its operation gives for the constant of its
argument.** An error gets the position of the call. -/
theorem gives_construct (target : Primitive) (hsource : l.primitive ∈ target.sources)
    (he : w.Gives n e (.ok l)) (p : Option Position) :
    w.Gives n (.call p target.name [e]) ((l.convert target).mapError (EvalError.mk · p)) := by
  obtain ⟨v, he, hv⟩ := he
  obtain ⟨t, ht, hd⟩ := hw target
  let init : Overload := ⟨target.name, .builtin (target.conversion l.primitive)⟩
  have hargs : Ends (fun fuel => Run.each (evaluate fuel · n) [e]) w (.ok [v]) w :=
    he.bind (.of_effect rfl)
  have hown : w.types.ownMethod? t (.constructor [l.primitive.name]) = some init := by
    rw [Types.ownMethod?_descriptor hd, Primitive.find?_constructor hsource]
  have hresolve : w.resolveCall n target.name [w.typeName v] = .ok (.constructWith t init) := by
    simp only [World.resolveCall, ht, hv.typeName_eq, hown, List.isEmpty_cons, Bool.false_eq_true,
      if_false]
  have hquery : query (fun w => w.resolveCall n target.name ([v].map w.typeName)) w =
      (.ok (.constructWith t init), w) :=
    Effect.query_eq_ok_iff.2 ⟨hresolve, rfl⟩
  have hblank : Effect.ask (fun w => w.types.blank t) w = (.ok (w.types.blank t), w) := rfl
  have hcall := hw.computes_conversion hv (w.types.blank t) target target.name
  exact .succ (.orAt (.bind hargs (.bind (.of_effect hquery) (.bind (.of_effect hblank) hcall))) p)
    fun _ => rfl

end World.SeesBuiltins

end Nominal
