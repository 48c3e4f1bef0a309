import Nominal.Dispatch
import Nominal.Proofs.Orderly

/-!
# Callables that are found fit their arguments

Arguments are put together in five places: for operators, for free calls, for method calls, for
constructor calls and for default instances. In a world in order what is looked up there takes as
many arguments as it gets, and payloads of the right shape.

* `Overload.Fits`: a callable takes the given arguments.
* `World.Shaped.native`, `World.Orderly.shaped_blank`: values and blank instances by the names of
  their types.
* **`World.Orderly.fits_findMethod`**: methods, own and inherited, fit a receiver and arguments of
  the types in their signature.
* `World.Orderly.fits_resolveOperator`, `World.Orderly.fits_resolveMethod`,
  `World.Orderly.fits_resolveCall`, `World.Orderly.fits_defaultConstructor`: what is called.
-/

namespace Nominal

/-! ## Shapes by name -/

namespace Value

variable {ts : Types} {v : Value}

theorem InShape.attr {strict : Prop} (h : v.InShape strict ts) {name : String} {a : Value}
    (ha : v.attr? name = some a) : a.InShape strict ts := by
  cases v with
  | plain => cases ha
  | object t attributes =>
    have hmem := Table.mem_of_find? ha
    refine ⟨?_, fun hstrict => ?_⟩
    · cases h.below with
      | object _ hattrs => exact hattrs _ hmem
    · cases h.shaped hstrict with
      | object _ hattrs => exact hattrs _ hmem

theorem Below.viewAs {b t : TypeId} (h : v.Below b) (ht : t < b) : (v.viewAs t).Below b := by
  cases h with
  | plain => exact .plain ht
  | object _ hattrs => exact .object ht hattrs

/-- Objects may be viewed as values of any other type that is not builtin. -/
theorem Shaped.viewAs (h : v.Shaped ts) {t : TypeId} (hv : ¬IsBuiltinName (ts.name v.type))
    (ht : ¬IsBuiltinName (ts.name t)) : (v.viewAs t).Shaped ts := by
  cases h with
  | plain h => exact absurd ⟨_, h⟩ hv
  | object _ hattrs => exact .object ht hattrs

end Value

namespace World.Shaped

variable {w : World} {v : Value} {t q : TypeId}

theorem native (h : w.Shaped) (hv : v.Shaped w.types) {p : Primitive}
    (hp : w.typeName v = p.name) : w.Native p v := by
  cases hv with
  | plain hl =>
    exact ⟨_, _, rfl, h.builtin _ p hp, Primitive.name_injective (hl.symm.trans hp)⟩
  | object ht => exact absurd ⟨p, hp⟩ ht

/-- Builtin types inherit nothing. -/
theorem not_builtin_of_parent (h : w.Shaped) (hq : q ∈ (w.types.get t).parents) :
    ¬IsBuiltinName (w.types.name t) := by
  rintro ⟨p, hp⟩
  rw [h.builtin t p hp] at hq
  cases hq

theorem not_builtin_of_ancestor (h : w.Shaped) (ha : w.types.Ancestor t q) :
    ¬IsBuiltinName (w.types.name t) ∧ ¬IsBuiltinName (w.types.name q) := by
  induction ha with
  | parent hq => exact ⟨h.not_builtin_of_parent hq, h.parents _ _ hq⟩
  | step hq _ ih => exact ⟨h.not_builtin_of_parent hq, ih.2⟩

end World.Shaped

namespace World.Orderly

variable {S : Stmt → Prop} {strict : Prop} {w : World} {t q : TypeId}

theorem ancestor_lt (h : w.Orderly S strict) (ha : w.types.Ancestor t q) : q < t := by
  induction ha with
  | parent hq => exact h.parents _ _ hq
  | step hq _ ih => exact lt_trans ih (h.parents _ _ hq)

theorem mem_union {P : Value → Prop} {t u : Table String Value} (ht : ∀ e ∈ t, P e.2)
    (hu : ∀ e ∈ u, P e.2) : ∀ e ∈ Table.union t u, P e.2 := by
  induction u generalizing t with
  | nil => exact ht
  | cons e u ih =>
    rw [List.forall_mem_cons] at hu
    refine ih (fun e' he' => ?_) hu.2
    obtain rfl | he' := Table.mem_insert he'
    · exact hu.1
    · exact ht e' he'

/-- The default attributes of all types are in shape, inherited ones too. -/
theorem defaultsWithin (h : w.Orderly S strict) (depth : Nat) (t : TypeId) :
    ∀ e ∈ w.types.defaultsWithin depth t, e.2.InShape strict w.types := by
  induction depth generalizing t with
  | zero => intro e he; cases he
  | succ depth ih =>
    have hown : ∀ e ∈ Types.ownDefaults (w.types.get t), e.2.InShape strict w.types := by
      intro e he
      obtain ⟨⟨x, a⟩, ha, he⟩ := List.mem_filterMap.1 he
      obtain ⟨v, hv, rfl⟩ := Option.map_eq_some_iff.1 he
      exact h.defaults t _ ha v hv
    have hinherited (parents : List TypeId) (table : Table String Value)
        (ht : ∀ e ∈ table, e.2.InShape strict w.types) :
        ∀ e ∈ parents.foldl (fun attrs p => Table.union attrs (w.types.defaultsWithin depth p))
          table, e.2.InShape strict w.types := by
      induction parents generalizing table with
      | nil => exact ht
      | cons p rest ihp => exact ihp _ (mem_union ht (ih p))
    exact mem_union (hinherited _ [] fun e he => by cases he) hown

theorem below_blank (h : w.Orderly S strict) (ht : t < w.types.next) :
    (w.types.blank t).Below w.types.next :=
  .object ht fun e he => (h.defaultsWithin _ t e he).below

/-- A blank instance has the shape of its type unless that is builtin. -/
theorem shaped_blank (h : w.Orderly S strict) (hstrict : strict)
    (ht : ¬IsBuiltinName (w.types.name t)) : (w.types.blank t).Shaped w.types :=
  .object ht fun e he => (h.defaultsWithin _ t e he).shaped hstrict

end World.Orderly

/-! ## Callables and their arguments -/

/-- A callable takes the given arguments: they have the right number, and if the builtin types are
left alone, the right payloads. -/
structure Overload.Fits (S : Stmt → Prop) (strict : Prop) (w : World) (args : List Value)
    (o : Overload) : Prop where
  arity : o.HasArity args.length
  within : o.Within S
  scope : o.CapturesBelow w.scopes.next
  below : ∀ v ∈ args, v.Below w.types.next
  shaped : strict →
    match o.callable with
    | .builtin b => ∃ p, b.Accepts w args p
    | .host _ => False
    | .closure .. => ∀ v ∈ args, v.Shaped w.types

namespace World.Orderly

variable {S : Stmt → Prop} {strict : Prop} {w : World} {n : ScopeId} {t : TypeId} {s : Signature}
  {o : Overload} {v : Value} {args : List Value}

theorem fits_lookupFunction (h : w.Orderly S strict) (ho : w.scopes.lookupFunction n s = some o)
    (hs : s.arity = args.length) (hargs : ∀ a ∈ args, a.InShape strict w.types) :
    o.Fits S strict w args := by
  obtain ⟨m, -, hfind⟩ := Scopes.exists_of_lookup ho
  have hmem := Table.mem_of_find? hfind
  have hanswers := h.functions m _ hmem
  have harity : o.HasArity args.length := hs ▸ hanswers.takes
  refine ⟨harity, hanswers.within, h.functionScopes m _ hmem, fun a ha => (hargs a ha).below,
    fun hstrict => ?_⟩
  have hprint := (h.shaped hstrict).functions m _ hmem
  unfold Overload.HasArity at harity
  cases hcallable : o.callable with
  | builtin b =>
    obtain rfl := hprint b hcallable
    rw [hcallable] at harity
    obtain ⟨v, rfl⟩ := List.length_eq_one_iff.1 harity
    exact ⟨_, .print v⟩
  | host i =>
    rw [hcallable] at harity
    exact harity
  | closure => exact fun a ha => (hargs a ha).shaped hstrict

/-- A type's own method fits a receiver and arguments of the types in its signature. Constructors of
builtin types do not look at their receiver. -/
theorem fits_ownMethod (h : w.Orderly S strict) (ho : w.types.ownMethod? t s = some o)
    (hs : s.receiver = true) (hparams : s.params = args.map w.typeName)
    (hbelow : v.Below w.types.next)
    (hv : strict → ¬IsBuiltinName (w.types.name t) → v.Shaped w.types)
    (hnative : strict → s.name ≠ constructorName → ∀ p : Primitive, w.types.name t = p.name →
      w.Native p v)
    (hargs : ∀ a ∈ args, a.InShape strict w.types) : o.Fits S strict w (v :: args) := by
  have hmem := Table.mem_of_find? ho
  have hanswers := h.methods t _ hmem
  have harity : o.HasArity (v :: args).length := by
    have htakes := hanswers.takes
    rw [Signature.arity, hs, hparams, List.length_map] at htakes
    exact htakes
  refine ⟨harity, hanswers.within, h.methodScopes t _ hmem,
    List.forall_mem_cons.2 ⟨hbelow, fun a ha => (hargs a ha).below⟩, fun hstrict => ?_⟩
  have hw := h.shaped hstrict
  by_cases ht : IsBuiltinName (w.types.name t)
  · obtain ⟨p, hp⟩ := ht
    rw [Types.ownMethod?_descriptor (hw.builtin t p hp)] at ho
    obtain ⟨b, q, rfl, hb⟩ := Primitive.accepts_of_method (Primitive.isMethod_of_find? ho)
      (fun hname => hnative hstrict hname p hp) hparams
      fun a ha q hq => hw.native ((hargs a ha).shaped hstrict) hq
    exact ⟨q, hb⟩
  · have hbuiltin := hw.methods t ht _ hmem
    cases hcallable : o.callable with
    | builtin b => exact absurd hcallable (hbuiltin b)
    | host i =>
      unfold Overload.HasArity at harity
      rw [hcallable] at harity
      exact harity
    | closure =>
      exact List.forall_mem_cons.2 ⟨hv hstrict ht, fun a ha => (hargs a ha).shaped hstrict⟩

/-- **A method that is found fits its receiver and arguments.** An inherited one gets the receiver
as a value of the ancestor, which is not builtin. -/
theorem fits_findMethod (h : w.Orderly S strict) {m : MethodEntry}
    (hm : w.types.findMethod v.type s = .ok (some m)) (hs : s.receiver = true)
    (hparams : s.params = args.map w.typeName) (hv : v.InShape strict w.types)
    (hargs : ∀ a ∈ args, a.InShape strict w.types) :
    m.overload.Fits S strict w ((Resolved.ofMethod m).arguments (v :: args)) := by
  obtain ⟨inheritedFrom, o⟩ := m
  obtain ⟨hfrom, hown⟩ | ⟨owner, hfrom, ha, hown⟩ := Types.findMethod_eq_ok hm
  · obtain rfl : inheritedFrom = none := hfrom
    exact h.fits_ownMethod hown hs hparams hv.below (fun hstrict _ => hv.shaped hstrict)
      (fun hstrict _ p hp => (h.shaped hstrict).native (hv.shaped hstrict) hp) hargs
  · obtain rfl : inheritedFrom = some owner := hfrom
    have howner : owner < w.types.next := lt_trans (h.ancestor_lt ha) hv.below.type_lt
    refine h.fits_ownMethod hown hs hparams (hv.below.viewAs howner) (fun hstrict howner => ?_)
      (fun hstrict _ p hp => ?_) hargs
    · have hnot := (h.shaped hstrict).not_builtin_of_ancestor ha
      exact (hv.shaped hstrict).viewAs hnot.1 howner
    · have hnot := (h.shaped hstrict).not_builtin_of_ancestor ha
      exact absurd ⟨p, hp⟩ hnot.2

/-! ### What is called -/

theorem fits_resolveOperator (h : w.Orderly S strict) {method function : Signature} {r : Resolved}
    (hr : w.resolveOperator n v.type method function = .ok r)
    (hmethod : method.receiver = true) (hparams : method.params = args.map w.typeName)
    (hfunction : function.arity = (v :: args).length) (hv : v.InShape strict w.types)
    (hargs : ∀ a ∈ args, a.InShape strict w.types) :
    r.overload.Fits S strict w (r.arguments (v :: args)) := by
  unfold World.resolveOperator at hr
  split at hr
  · cases hr
  · next m hm =>
    cases hr
    exact h.fits_findMethod hm hmethod hparams hv hargs
  · unfold Scopes.findFunction at hr
    split at hr
    · next o ho =>
      cases hr
      exact h.fits_lookupFunction ho hfunction (List.forall_mem_cons.2 ⟨hv, hargs⟩)
    · cases hr

theorem fits_resolveBinary (h : w.Orderly S strict) {op : BinaryOp} {u : Value} {r : Resolved}
    (hr : w.resolveBinary n op v.type (w.typeName u) = .ok r) (hv : v.InShape strict w.types)
    (hu : u.InShape strict w.types) : r.overload.Fits S strict w (r.arguments [v, u]) :=
  h.fits_resolveOperator hr rfl rfl rfl hv (List.forall_mem_singleton.2 hu)

theorem fits_resolveUnary (h : w.Orderly S strict) {op : UnaryOp} {r : Resolved}
    (hr : w.resolveUnary n op v.type = .ok r) (hv : v.InShape strict w.types) :
    r.overload.Fits S strict w (r.arguments [v]) :=
  h.fits_resolveOperator hr rfl rfl rfl hv fun _ ha => by cases ha

theorem fits_resolveMethod (h : w.Orderly S strict) {method : String} {r : Resolved}
    (hr : w.resolveMethod v.type method (args.map w.typeName) = .ok r)
    (hv : v.InShape strict w.types) (hargs : ∀ a ∈ args, a.InShape strict w.types) :
    r.overload.Fits S strict w (r.arguments (v :: args)) := by
  unfold World.resolveMethod at hr
  dsimp only at hr
  split at hr
  · cases hr
  · next m hm =>
    cases hr
    exact h.fits_findMethod hm rfl rfl hv hargs
  · cases hr

/-- A constructor with parameters gets a blank instance as its receiver. -/
theorem fits_constructor (h : w.Orderly S strict) (ht : t < w.types.next)
    (ho : w.types.ownMethod? t (.constructor (args.map w.typeName)) = some o)
    (hargs : ∀ a ∈ args, a.InShape strict w.types) :
    o.Fits S strict w (w.types.blank t :: args) :=
  h.fits_ownMethod ho rfl rfl (h.below_blank ht) h.shaped_blank (fun _ hname => absurd rfl hname)
    hargs

theorem fits_defaultConstructor (h : w.Orderly S strict) (ht : t < w.types.next)
    (ho : w.types.ownMethod? t .defaultConstructor = some o) :
    o.Fits S strict w [w.types.blank t] :=
  have hnone : ∀ a ∈ ([] : List Value), a.InShape strict w.types := fun _ ha => by cases ha
  h.fits_constructor ht ho hnone

/-- A type without a constructor of its own is not builtin. -/
theorem blank_of_none (h : w.Orderly S strict) (ht : t < w.types.next)
    (ho : w.types.ownMethod? t .defaultConstructor = none) :
    (w.types.blank t).InShape strict w.types := by
  refine ⟨h.below_blank ht, fun hstrict => h.shaped_blank hstrict ?_⟩
  rintro ⟨p, hp⟩
  rw [Types.ownMethod?_descriptor ((h.shaped hstrict).builtin t p hp),
    Primitive.find?_defaultConstructor] at ho
  cases ho

/-- What a plain call stands for fits the arguments, after a blank instance if it is a
constructor. -/
theorem fits_resolveCall (h : w.Orderly S strict) {callee : String} {target : Target}
    (ht : w.resolveCall n callee (args.map w.typeName) = .ok target)
    (hargs : ∀ a ∈ args, a.InShape strict w.types) :
    match target with
    | .function o => o.Fits S strict w args
    | .construct t => t < w.types.next
    | .constructWith t o => o.Fits S strict w (w.types.blank t :: args) := by
  unfold World.resolveCall at ht
  split at ht
  · next t hfind =>
    obtain ⟨m, -, hfind⟩ := Scopes.exists_of_lookup hfind
    have hlt := (h.types m _ (Table.mem_of_find? hfind)).1
    split at ht
    · cases ht
      exact hlt
    · dsimp only at ht
      split at ht
      · next o ho =>
        cases ht
        exact h.fits_constructor hlt ho hargs
      · cases ht
  · unfold Scopes.findFunction at ht
    split at ht
    · next o ho =>
      cases ht
      exact h.fits_lookupFunction ho (List.length_map _) hargs
    · cases ht

end World.Orderly

end Nominal
