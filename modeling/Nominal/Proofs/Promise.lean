import Nominal.Proofs.Conformity

/-!
# What a run promises

A closure looks into the scope that it has captured whenever it is called, and other code may have
declared something there since. A promise says of every scope what stays visible from it and with
which types, and of every type whether values of it are in use. A run makes promises as it goes and
takes none back.

* `Promise`, `Promise.Later`: what is promised, and what may be promised later.
* `Value.HasType`, `Overload.Serves`: values and functions that are as promised.
* `World.Honours`: a world in which all promises are kept, one scope at a time.
* **`World.Honours.shows`**: what has been promised is found by look-ups.
-/

namespace Nominal

/-- For every scope what stays visible from it, and the types that values may have, by name. -/
structure Promise where
  next : ScopeId
  scopes : ScopeId → Context
  /-- The types that are in use. A run does not use the types that the check has built. -/
  types : TypeId → Option String

namespace Promise

/-- There may be more promises for scopes in `D`, for new scopes and for new types. -/
structure Later (D : Set ScopeId) (M M' : Promise) : Prop where
  next_le : M.next ≤ M'.next
  promise_eq : ∀ m < M.next, m ∉ D → M'.scopes m = M.scopes m
  promise_le : ∀ m < M.next, (M.scopes m).Le (M'.scopes m)
  built : ∀ t T, M.types t = some T → M'.types t = some T

end Promise

namespace Context

variable {V U W : Context}

theorem Le.refl (V : Context) : V.Le V :=
  ⟨fun _ _ h => h, fun _ h => h, fun _ h => h⟩

theorem Le.trans (h : V.Le U) (h' : U.Le W) : V.Le W where
  vars x type hx := h'.vars x type (h.vars x type hx)
  types name hn := h'.types name (h.types name hn)
  functions s hs := h'.functions s (h.functions s hs)

theorem empty_le (V : Context) : empty.Le V :=
  ⟨fun _ _ h => (by cases h), fun _ h => h.elim, fun _ h => h.elim⟩

theorem le_addFunction (V : Context) (s : Signature) : V.Le (V.addFunction s) :=
  ⟨fun _ _ h => h, fun _ h => h, fun _ h => .inr h⟩

theorem le_addType (V : Context) (name : String) : V.Le (V.addType name) :=
  ⟨fun _ _ h => h, fun _ h => .inr h, fun _ h => h⟩

end Context

namespace Promise.Later

variable {D E : Set ScopeId} {M M₁ M' : Promise}

theorem refl (M : Promise) : M.Later D M :=
  ⟨le_refl _, fun _ _ _ => rfl, fun _ _ => .refl _, fun _ _ h => h⟩

theorem trans (h : M.Later D M₁) (h' : M₁.Later D M') : M.Later D M' where
  next_le := le_trans h.next_le h'.next_le
  promise_eq m hm hD := by
    rw [h'.promise_eq m (lt_of_lt_of_le hm h.next_le) hD, h.promise_eq m hm hD]
  promise_le m hm := (h.promise_le m hm).trans (h'.promise_le m (lt_of_lt_of_le hm h.next_le))
  built t T ht := h'.built t T (h.built t T ht)

theorem mono (h : M.Later D M') (hDE : D ⊆ E) : M.Later E M' :=
  ⟨h.next_le, fun m hm hE => h.promise_eq m hm fun hD => hE (hDE hD), h.promise_le, h.built⟩

end Promise.Later

/-! ## Values and callables -/

section Promised

variable (G : Glossary) (M : Promise)

/-- A value of a type in use: a constant of a builtin type, or an object of another type with all
its attributes. -/
inductive Value.HasType : Value → String → Prop
  | plain {t : TypeId} {l : Literal} (ht : M.types t = some l.primitive.name) :
      HasType (.plain t l) l.primitive.name
  | object {t : TypeId} {T : String} {attributes : List (String × Value)}
      (ht : M.types t = some T) (hT : ¬IsBuiltinName T) (value : String → Value)
      (hfind : ∀ x type, G.HasAttr T x type → Table.find? attributes x = some (value x))
      (hvalue : ∀ x type, G.HasAttr T x type → HasType (value x) type) :
      HasType (.object t attributes) T

/-- A closure for arguments of the given types. Its body is typed in what stays visible from the
scope that it has captured. -/
inductive Overload.Closes (types : List String) : Overload → Prop
  | mk {ret : String} {params : List String} {body : Block} {m : ScopeId} {V : Context}
      (hlength : params.length = types.length) (hm : m < M.next) (hV : V.Le (M.scopes m))
      (htyped : blockTyped G (some ret) (V.bind (params.zip types)) body)
      (hsteady : blockSteady (V.bind (params.zip types)).vars Vars.none body) :
      Closes types ⟨ret, .closure params body m⟩

/-- A free function of a signature: a closure, or the function that prints. -/
def Overload.Serves (s : Signature) (o : Overload) : Prop :=
  o.Closes G M s.params ∨ s.params.length = 1 ∧ o = ⟨Primitive.none.name, .builtin .print⟩

/-- A type in use that the program has defined. -/
structure Descriptor.Serves (T : String) (d : Descriptor) : Prop where
  parents : ∀ p ∈ d.parents, ∃ P, M.types p = some P ∧ ¬IsBuiltinName P
  nodup : d.attributes.keys.Nodup
  attributes : ∀ e ∈ d.attributes, ∃ v, e.2.default = some v ∧ v.HasType G M e.2.type
  methods : ∀ s o, d.methods.find? s = some o →
    o.Closes G M (T :: s.params) ∧ (s.name = constructorName → o.ret = T)

end Promised

section Mono

variable {G : Glossary} {D : Set ScopeId} {M M' : Promise} (h : M.Later D M')

include h

theorem Value.HasType.mono {v : Value} {T : String} (hv : v.HasType G M T) : v.HasType G M' T := by
  induction hv with
  | plain ht => exact .plain (h.built _ _ ht)
  | object ht hT value hfind _ ih => exact .object (h.built _ _ ht) hT value hfind ih

theorem Overload.Closes.mono {o : Overload} {types : List String} (ho : o.Closes G M types) :
    o.Closes G M' types := by
  obtain ⟨hlength, hm, hV, htyped, hsteady⟩ := ho
  exact .mk hlength (lt_of_lt_of_le hm h.next_le) (hV.trans (h.promise_le _ hm)) htyped hsteady

theorem Overload.Serves.mono {o : Overload} {s : Signature} (ho : o.Serves G M s) :
    o.Serves G M' s :=
  ho.imp (Overload.Closes.mono h) id

theorem Descriptor.Serves.mono {d : Descriptor} {T : String} (hd : d.Serves G M T) :
    d.Serves G M' T where
  parents p hp := by
    obtain ⟨P, hP, hbuiltin⟩ := hd.parents p hp
    exact ⟨P, h.built p P hP, hbuiltin⟩
  nodup := hd.nodup
  attributes e he := by
    obtain ⟨v, hv, hT⟩ := hd.attributes e he
    exact ⟨v, hv, hT.mono h⟩
  methods s o ho := ⟨(hd.methods s o ho).1.mono h, (hd.methods s o ho).2⟩

end Mono

/-! ## Scopes -/

/-- The scope `p` is directly around `n`. -/
def Scopes.Around (s : Scopes) (p n : ScopeId) : Prop := p < n ∧ (s.get n).enclosing = s.path p

/-- A scope's own entry is a good one, or it has none and the scope around it has made the
promise. -/
def Anchored {α : Type} (own : Option α) (good : α → Prop) (around : Prop) : Prop :=
  (∃ a, own = some a ∧ good a) ∨ own = none ∧ around

theorem Anchored.mono {α : Type} {own : Option α} {good good' : α → Prop} {around around' : Prop}
    (h : Anchored own good around) (hgood : ∀ a, good a → good' a) (haround : around → around') :
    Anchored own good' around' :=
  h.imp (fun ⟨a, ha, hg⟩ => ⟨a, ha, hgood a hg⟩) fun ⟨hown, h⟩ => ⟨hown, haround h⟩

/-- What has been promised for each scope on the way outwards is found. -/
theorem Scopes.exists_lookup {κ α : Type} [DecidableEq κ] {table : Scope → Table κ α} {s : Scopes}
    {key : κ} {good : α → Prop} {Q : ScopeId → Prop}
    (h : ∀ m, Q m → Anchored ((table (s.get m)).find? key) good (∃ p, s.Around p m ∧ Q p))
    {n : ScopeId} (hn : Q n) :
    ∃ a, s.lookup table n key = some a ∧ good a := by
  induction n using Nat.strongRecOn with
  | ind n ih =>
    obtain ⟨a, ha, hgood⟩ | ⟨hnone, p, ⟨hlt, henclosing⟩, hp⟩ := h n hn
    · refine ⟨a, ?_, hgood⟩
      rw [lookup_eq, ha]
      exact Option.some_or
    · obtain ⟨a, ha, hgood⟩ := ih p hlt hp
      refine ⟨a, ?_, hgood⟩
      rw [lookup_inside table henclosing, hnone, ha]
      exact Option.none_or

/-- A binding with a value of a type. -/
def Binding.HasType (G : Glossary) (M : Promise) (T : String) (b : Binding) : Prop :=
  ∃ v, b = .value v ∧ v.HasType G M T

namespace World

section

variable (G : Glossary) (M : Promise) (w : World) (n : ScopeId) (V : Context)

/-- What `V` says is in the scope's own tables, or else promised by the scope around it. -/
structure Anchors : Prop where
  vars : ∀ x T, V.vars x = some T → Anchored ((w.scopes.get n).vars.find? x)
    (Binding.HasType G M T) (∃ p, w.scopes.Around p n ∧ (M.scopes p).vars x = some T)
  types : ∀ name, V.types name → Anchored ((w.scopes.get n).types.find? name)
    (M.types · = some name) (∃ p, w.scopes.Around p n ∧ (M.scopes p).types name)
  functions : ∀ s, V.functions s → Anchored ((w.scopes.get n).functions.find? s)
    (Overload.Serves G M s) (∃ p, w.scopes.Around p n ∧ (M.scopes p).functions s)

/-- What `V` says is found from the scope. -/
structure Shows : Prop where
  vars : ∀ x T, V.vars x = some T →
    ∃ b, w.scopes.lookupVariable n x = some b ∧ b.HasType G M T
  types : ∀ name, V.types name → ∃ t, w.scopes.lookupType n name = some t ∧ M.types t = some name
  functions : ∀ s, V.functions s → ∃ o, w.scopes.lookupFunction n s = some o ∧ o.Serves G M s

/-- All promises are kept. -/
structure Honours : Prop extends w.Fits G where
  next_eq : M.next = w.scopes.next
  anchors : ∀ m < M.next, w.Anchors G M m (M.scopes m)
  built : ∀ t T, M.types t = some T →
    t < w.types.next ∧ w.types.name t = T ∧ (¬IsBuiltinName T → (w.types.get t).Serves G M T)
  builtin : ∀ t (p : Primitive), w.types.name t = p.name → M.types t = some p.name

/-- A run has gone on: outside `D` old scopes are as they were, and there may be more promises. -/
structure Grows (D : Set ScopeId) (M' : Promise) (w' : World) : Prop
    extends w.Keeps D w', M.Later D M'

end

variable {G : Glossary} {D E : Set ScopeId} {M M₁ M' : Promise} {w w₁ w' : World} {n : ScopeId}
  {V U : Context}

namespace Grows

theorem refl (M : Promise) (w : World) : w.Grows M D M w := ⟨.refl w, .refl M⟩

theorem trans (h : w.Grows M D M₁ w₁) (h' : w₁.Grows M₁ D M' w') : w.Grows M D M' w' :=
  ⟨h.toKeeps.trans h'.toKeeps, h.toLater.trans h'.toLater⟩

theorem mono (h : w.Grows M D M' w') (hDE : D ⊆ E) : w.Grows M E M' w' :=
  ⟨h.toKeeps.mono hDE, h.toLater.mono hDE⟩

end Grows

/-! ### What is found -/

theorem Anchors.mono (h : w.Anchors G M n V) (hl : M.Later D M') (hn : n < M.next)
    (hget : w'.scopes.get n = w.scopes.get n)
    (hpath : ∀ p < n, w'.scopes.path p = w.scopes.path p) : w'.Anchors G M' n V := by
  have haround {p : ScopeId} (hp : w.scopes.Around p n) : w'.scopes.Around p n := by
    refine ⟨hp.1, ?_⟩
    rw [hget, hpath p hp.1]
    exact hp.2
  have hle {p : ScopeId} (hp : w.scopes.Around p n) : (M.scopes p).Le (M'.scopes p) :=
    hl.promise_le p (lt_trans hp.1 hn)
  constructor
  · intro x T hx
    rw [hget]
    exact (h.vars x T hx).mono (fun _ ⟨v, hb, hv⟩ => ⟨v, hb, hv.mono hl⟩)
      fun ⟨p, hp, hT⟩ => ⟨p, haround hp, (hle hp).vars x T hT⟩
  · intro name hname
    rw [hget]
    exact (h.types name hname).mono (fun t ht => hl.built t name ht)
      fun ⟨p, hp, ht⟩ => ⟨p, haround hp, (hle hp).types name ht⟩
  · intro s hs
    rw [hget]
    exact (h.functions s hs).mono (fun _ ho => ho.mono hl)
      fun ⟨p, hp, hf⟩ => ⟨p, haround hp, (hle hp).functions s hf⟩

theorem Anchors.grows (h : w.Anchors G M n V) (hw : w.Honours G M) (hn : n < w.scopes.next)
    (hg : w.Grows M ∅ M' w') : w'.Anchors G M' n V :=
  h.mono hg.toLater (hw.next_eq ▸ hn) (hg.toKeeps.get_eq hn)
    fun _ hp => hg.toKeeps.path_eq (lt_trans hp hn)

theorem Grows.scopes_eq (hg : w.Grows M ∅ M' w') (hw : w.Honours G M) (hn : n < w.scopes.next) :
    M'.scopes n = M.scopes n :=
  hg.promise_eq n (hw.next_eq ▸ hn) (Set.notMem_empty n)

theorem Shows.mono (h : w.Shows G M n V) (hU : U.Le V) : w.Shows G M n U where
  vars x T hx := h.vars x T (hU.vars x T hx)
  types name hname := h.types name (hU.types name hname)
  functions s hs := h.functions s (hU.functions s hs)

/-- What is found from an old scope is still found when a run has gone on elsewhere. -/
theorem Shows.grows (h : w.Shows G M n V) (hw : w.scopes.Nested) (hn : n < w.scopes.next)
    (hg : w.Grows M ∅ M' w') : w'.Shows G M' n V where
  vars x T hx := by
    obtain ⟨b, hb, v, rfl, hv⟩ := h.vars x T hx
    exact ⟨.value v, (hg.toKeeps.lookup_eq Scope.vars hw hn x).trans hb, v, rfl,
      hv.mono hg.toLater⟩
  types name hname := by
    obtain ⟨t, ht, hT⟩ := h.types name hname
    exact ⟨t, (hg.toKeeps.lookup_eq Scope.types hw hn name).trans ht, hg.built t name hT⟩
  functions s hs := by
    obtain ⟨o, ho, hserves⟩ := h.functions s hs
    exact ⟨o, (hg.toKeeps.lookup_eq Scope.functions hw hn s).trans ho, hserves.mono hg.toLater⟩

/-- **What has been promised is found.** -/
theorem Honours.shows (h : w.Honours G M) (hn : n < M.next) : w.Shows G M n (M.scopes n) := by
  have hlt {m p : ScopeId} (hm : m < M.next) (hp : w.scopes.Around p m) : p < M.next :=
    lt_trans hp.1 hm
  constructor
  · intro x T hx
    refine Scopes.exists_lookup (Q := fun m => m < M.next ∧ (M.scopes m).vars x = some T)
      (fun m ⟨hm, hT⟩ => ?_) ⟨hn, hx⟩
    exact ((h.anchors m hm).vars x T hT).mono (fun _ h => h)
      fun ⟨p, hp, hp'⟩ => ⟨p, hp, hlt hm hp, hp'⟩
  · intro name hname
    refine Scopes.exists_lookup (Q := fun m => m < M.next ∧ (M.scopes m).types name)
      (fun m ⟨hm, ht⟩ => ?_) ⟨hn, hname⟩
    exact ((h.anchors m hm).types name ht).mono (fun _ h => h)
      fun ⟨p, hp, hp'⟩ => ⟨p, hp, hlt hm hp, hp'⟩
  · intro s hs
    refine Scopes.exists_lookup (Q := fun m => m < M.next ∧ (M.scopes m).functions s)
      (fun m ⟨hm, hf⟩ => ?_) ⟨hn, hs⟩
    exact ((h.anchors m hm).functions s hf).mono (fun _ h => h)
      fun ⟨p, hp, hp'⟩ => ⟨p, hp, hlt hm hp, hp'⟩

/-! ### Steps that keep all promises -/

namespace Honours

theorem lt_next (h : w.Honours G M) (hn : n < w.scopes.next) : n < M.next :=
  h.next_eq ▸ hn

theorem of_eq (h : w.Honours G M) (hs : w'.scopes = w.scopes) (ht : w'.types = w.types) :
    w'.Honours G M where
  toFits := h.toFits.of_eq hs ht
  next_eq := by rw [hs]; exact h.next_eq
  anchors m hm := (h.anchors m hm).mono (D := ∅) (.refl M) hm (by rw [hs]) fun _ _ => by rw [hs]
  built := by rw [ht]; exact h.built
  builtin := by rw [ht]; exact h.builtin

theorem addType (h : w.Honours G M) {d : Descriptor}
    (hd : G.types d.name = some (w.types.interface d))
    (hparents : ∀ p ∈ d.parents, p < w.types.next) (hname : ¬IsBuiltinName d.name) :
    (w.addType d).Honours G M where
  toFits := h.toFits.addType hd hparents hname
  next_eq := h.next_eq
  anchors m hm := (h.anchors m hm).mono (D := ∅) (.refl M) hm rfl fun _ _ => rfl
  built t T hT := by
    obtain ⟨ht, hname, hserves⟩ := h.built t T hT
    have hget : (w.addType d).types.get t = w.types.get t := by
      rw [World.addType, Types.get_add, if_neg (ne_of_lt ht)]
    refine ⟨lt_of_lt_of_le ht ?_, ?_, ?_⟩
    · rw [World.addType, Types.next_add]
      exact Nat.le_succ _
    · rw [Types.name, hget]
      exact hname
    · rw [hget]
      exact hserves
  builtin t p ht := by
    rw [World.addType, Types.name, Types.get_add] at ht
    split at ht
    · exact absurd ⟨p, ht⟩ hname
    · exact h.builtin t p ht

/-- A change in one scope keeps all promises when it keeps those for the scope. -/
theorem of_scope (h : w.Honours G M) (hl : M.Later {n} M') (hnext : M'.next = M.next)
    (hfits : w'.Fits G) (hnext' : w'.scopes.next = w.scopes.next)
    (hget : ∀ m, m ≠ n → w'.scopes.get m = w.scopes.get m)
    (hpath : ∀ m, w'.scopes.path m = w.scopes.path m) (hn : w'.Anchors G M' n (M'.scopes n))
    (htypes : w'.types = w.types)
    (hbuilt : ∀ t T, M'.types t = some T → M.types t = some T ∨
      t < w.types.next ∧ w.types.name t = T ∧ (w.types.get t).Serves G M' T) :
    w'.Honours G M' where
  toFits := hfits
  next_eq := hnext.trans (h.next_eq.trans hnext'.symm)
  anchors m hm := by
    by_cases hmn : m = n
    · rw [hmn]
      exact hn
    · have hm' : m < M.next := hnext ▸ hm
      rw [hl.promise_eq m hm' hmn]
      exact (h.anchors m hm').mono hl hm' (hget m hmn) fun p _ => hpath p
  built t T hT := by
    rw [htypes]
    obtain hT | ⟨ht, hname, hserves⟩ := hbuilt t T hT
    · obtain ⟨ht, hname, hserves⟩ := h.built t T hT
      exact ⟨ht, hname, fun hT => (hserves hT).mono hl⟩
    · exact ⟨ht, hname, fun _ => hserves⟩
  builtin t p ht := by
    rw [htypes] at ht
    exact hl.built t p.name (h.builtin t p ht)

end Honours

end World

/-! ## New scopes -/

/-- Nothing is promised for a new scope. -/
def Promise.openChild (M : Promise) : Promise :=
  ⟨M.next + 1, fun m => if m = M.next then .empty else M.scopes m, M.types⟩

namespace Promise

variable {M : Promise} {m : ScopeId}

theorem openChild_scopes_of_lt (hm : m < M.next) : M.openChild.scopes m = M.scopes m :=
  if_neg (ne_of_lt hm)

theorem openChild_scopes_self (M : Promise) : M.openChild.scopes M.next = .empty := if_pos rfl

theorem later_openChild (D : Set ScopeId) (M : Promise) : M.Later D M.openChild where
  next_le := Nat.le_succ _
  promise_eq _ hm _ := openChild_scopes_of_lt hm
  promise_le m hm := by
    rw [openChild_scopes_of_lt hm]
    exact .refl _
  built _ _ h := h

end Promise

namespace World

section Child

variable {G : Glossary} {M : Promise} {w : World} {n : ScopeId} {V : Context}

variable (h : w.Honours G M) (hn : n < w.scopes.next)

include h hn

theorem Honours.openChild : (w.openChild n).Honours G M.openChild where
  toFits := h.toFits.openChild hn
  next_eq := by
    rw [World.openChild, Scopes.child, Scopes.next_openScope, ← h.next_eq]
    rfl
  anchors m hm := by
    obtain hlt | rfl := Nat.lt_succ_iff_lt_or_eq.1 hm
    · have hlt' : m < w.scopes.next := h.next_eq ▸ hlt
      rw [Promise.openChild_scopes_of_lt hlt]
      exact (h.anchors m hlt).mono (M.later_openChild ∅) hlt (Scopes.get_child_of_lt hlt')
        fun p hp => Scopes.path_child_of_lt (lt_trans hp hlt')
    · rw [Promise.openChild_scopes_self]
      exact ⟨fun _ _ h => (by cases h), fun _ h => h.elim, fun _ h => h.elim⟩
  built t T hT := by
    obtain ⟨ht, hname, hserves⟩ := h.built t T hT
    exact ⟨ht, hname, fun hT => (hserves hT).mono (M.later_openChild ∅)⟩
  builtin := h.builtin

omit hn in
theorem Honours.openChild_scopes : M.openChild.scopes w.scopes.next = .empty := by
  rw [← h.next_eq, M.openChild_scopes_self]

theorem Shows.openChild (hV : w.Shows G M n V) :
    (w.openChild n).Shows G M.openChild w.scopes.next V where
  vars x T hx := by
    obtain ⟨b, hb, v, rfl, hv⟩ := hV.vars x T hx
    exact ⟨.value v, (Scopes.lookupVariable_child h.nested hn x).trans hb, v, rfl,
      hv.mono (M.later_openChild ∅)⟩
  types name hname := by
    obtain ⟨t, ht, hT⟩ := hV.types name hname
    exact ⟨t, (Scopes.lookupType_child h.nested hn name).trans ht, hT⟩
  functions s hs := by
    obtain ⟨o, ho, hserves⟩ := hV.functions s hs
    exact ⟨o, (Scopes.lookupFunction_child h.nested hn s).trans ho,
      hserves.mono (M.later_openChild ∅)⟩

theorem Anchors.openChild (hV : V.Le (M.scopes n)) :
    (w.openChild n).Anchors G M.openChild w.scopes.next V := by
  have hget : (w.openChild n).scopes.get w.scopes.next = .empty (w.scopes.path n) :=
    Scopes.get_child_self
  have haround : (w.openChild n).scopes.Around n w.scopes.next := by
    refine ⟨hn, ?_⟩
    rw [hget, World.openChild, Scopes.path_child_of_lt hn]
    rfl
  have hscopes : M.openChild.scopes n = M.scopes n := Promise.openChild_scopes_of_lt (h.lt_next hn)
  constructor
  · intro x T hx
    rw [hget]
    exact .inr ⟨rfl, n, haround, hscopes ▸ hV.vars x T hx⟩
  · intro name hname
    rw [hget]
    exact .inr ⟨rfl, n, haround, hscopes ▸ hV.types name hname⟩
  · intro s hs
    rw [hget]
    exact .inr ⟨rfl, n, haround, hscopes ▸ hV.functions s hs⟩

end Child

end World

/-! ## More promises for a scope -/

namespace Promise

variable {M : Promise} {n m : ScopeId} {V : Context} {t : TypeId} {T : String}

/-- More stays visible from a scope. -/
def raise (M : Promise) (n : ScopeId) (V : Context) : Promise :=
  { M with scopes := fun m => if m = n then V else M.scopes m }

/-- One more type is in use. -/
def use (M : Promise) (t : TypeId) (T : String) : Promise :=
  { M with types := fun u => if u = t then some T else M.types u }

theorem raise_scopes_self (M : Promise) (n : ScopeId) (V : Context) :
    (M.raise n V).scopes n = V :=
  if_pos rfl

theorem later_raise (h : (M.scopes n).Le V) : M.Later {n} (M.raise n V) where
  next_le := le_refl _
  promise_eq _ _ hm := if_neg hm
  promise_le m _ := by
    unfold raise
    dsimp only
    split
    · next hm => exact hm ▸ h
    · exact .refl _
  built _ _ h := h

theorem later_use (D : Set ScopeId) (h : M.types t = none) : M.Later D (M.use t T) where
  next_le := le_refl _
  promise_eq _ _ _ := rfl
  promise_le _ _ := .refl _
  built u U hu := by
    have hne : u ≠ t := by
      rintro rfl
      rw [h] at hu
      cases hu
    exact (if_neg hne).trans hu

end Promise

/-! ## Declarations -/

theorem Scopes.Around.modify {s : Scopes} {p m : ScopeId} (h : s.Around p m) (n : ScopeId)
    {f : Scope → Scope} (hf : ∀ c, (f c).enclosing = c.enclosing) :
    (s.modify n f).Around p m := by
  refine ⟨h.1, ?_⟩
  rw [path_modify s n hf]
  exact (congrArg List.tail (path_modify s n hf m)).trans h.2

theorem Scopes.exists_around_modify {s : Scopes} {m : ScopeId} {Q : ScopeId → Prop} (n : ScopeId)
    {f : Scope → Scope} (hf : ∀ c, (f c).enclosing = c.enclosing) (h : ∃ p, s.Around p m ∧ Q p) :
    ∃ p, (s.modify n f).Around p m ∧ Q p := by
  obtain ⟨p, hp, hQ⟩ := h
  exact ⟨p, hp.modify n hf, hQ⟩

namespace World

variable {G : Glossary} {M : Promise} {w : World} {n : ScopeId} {V : Context}

section Anchors

variable (h : w.Anchors G M n V) (hn : n < w.scopes.next)

include h hn

/-- After a declaration its variable may be seen with the type of its value; the others are seen as
before. -/
theorem Anchors.declareVariable {x : String} {v : Value} {γ : Vars}
    (hγ : ∀ y T, γ y = some T → x = y ∧ v.HasType G M T ∨ x ≠ y ∧ V.vars y = some T) :
    (w.declareVariable n x (.value v)).Anchors G M n { V with vars := γ } := by
  let f : Scope → Scope := fun c => { c with vars := c.vars.insert x (.value v) }
  have hget : (w.declareVariable n x (.value v)).scopes.get n = f (w.scopes.get n) := by
    rw [World.declareVariable, Scopes.declareVariable, Scopes.get_modify, if_pos ⟨rfl, hn⟩]
  have haround {Q : ScopeId → Prop} (hQ : ∃ p, w.scopes.Around p n ∧ Q p) :
      ∃ p, (w.declareVariable n x (.value v)).scopes.Around p n ∧ Q p :=
    Scopes.exists_around_modify n (f := f) (fun _ => rfl) hQ
  constructor
  · intro y T hy
    rw [hget]
    obtain ⟨rfl, hv⟩ | ⟨hne, hy⟩ := hγ y T hy
    · exact .inl ⟨.value v, Table.find?_insert_self _ x _, v, rfl, hv⟩
    · rw [Table.find?_insert_of_ne _ hne]
      exact (h.vars y T hy).mono (fun _ h => h) haround
  · intro name hname
    rw [hget]
    exact (h.types name hname).mono (fun _ h => h) haround
  · intro s hs
    rw [hget]
    exact (h.functions s hs).mono (fun _ h => h) haround

theorem Anchors.declareFunction {s : Signature} {o : Overload} (ho : o.Serves G M s) :
    (w.declareFunction n s o).Anchors G M n (V.addFunction s) := by
  let f : Scope → Scope := fun c => { c with functions := c.functions.insert s o }
  have hget : (w.declareFunction n s o).scopes.get n = f (w.scopes.get n) := by
    rw [World.declareFunction, Scopes.declareFunction, Scopes.get_modify, if_pos ⟨rfl, hn⟩]
  have haround {Q : ScopeId → Prop} (hQ : ∃ p, w.scopes.Around p n ∧ Q p) :
      ∃ p, (w.declareFunction n s o).scopes.Around p n ∧ Q p :=
    Scopes.exists_around_modify n (f := f) (fun _ => rfl) hQ
  constructor
  · intro x T hx
    rw [hget]
    exact (h.vars x T hx).mono (fun _ h => h) haround
  · intro name hname
    rw [hget]
    exact (h.types name hname).mono (fun _ h => h) haround
  · intro s' hs'
    rw [hget]
    by_cases hne : s = s'
    · rw [← hne]
      exact .inl ⟨o, Table.find?_insert_self _ s o, ho⟩
    · rw [Table.find?_insert_of_ne _ hne]
      exact (h.functions s' (hs'.resolve_left (Ne.symm hne))).mono (fun _ h => h) haround

theorem Anchors.declareType {name : String} {t : TypeId} (ht : M.types t = some name) :
    (w.declareType n name t).Anchors G M n (V.addType name) := by
  let f : Scope → Scope := fun c => { c with types := c.types.insert name t }
  have hget : (w.declareType n name t).scopes.get n = f (w.scopes.get n) := by
    rw [World.declareType, Scopes.declareType, Scopes.get_modify, if_pos ⟨rfl, hn⟩]
  have haround {Q : ScopeId → Prop} (hQ : ∃ p, w.scopes.Around p n ∧ Q p) :
      ∃ p, (w.declareType n name t).scopes.Around p n ∧ Q p :=
    Scopes.exists_around_modify n (f := f) (fun _ => rfl) hQ
  constructor
  · intro x T hx
    rw [hget]
    exact (h.vars x T hx).mono (fun _ h => h) haround
  · intro x hx
    rw [hget]
    by_cases hne : name = x
    · rw [← hne]
      exact .inl ⟨t, Table.find?_insert_self _ name t, ht⟩
    · rw [Table.find?_insert_of_ne _ hne]
      exact (h.types x (hx.resolve_left (Ne.symm hne))).mono (fun _ h => h) haround
  · intro s hs
    rw [hget]
    exact (h.functions s hs).mono (fun _ h => h) haround

end Anchors

theorem Shows.declareVariable (h : w.Shows G M n V) (hw : w.scopes.Nested)
    (hn : n < w.scopes.next) {x T : String} {v : Value} (hv : v.HasType G M T) :
    (w.declareVariable n x (.value v)).Shows G M n (V.declare x T) where
  vars y U hy := by
    have hlookup : (w.declareVariable n x (.value v)).scopes.lookupVariable n y =
        if x = y then some (.value v) else w.scopes.lookupVariable n y :=
      Scopes.lookupVariable_declareVariable hw hn y
    obtain ⟨rfl, rfl⟩ | ⟨hne, hy⟩ := Vars.of_declare hy
    · exact ⟨.value v, hlookup.trans (if_pos rfl), v, rfl, hv⟩
    · obtain ⟨b, hb, hT⟩ := h.vars y U hy
      exact ⟨b, (hlookup.trans (if_neg hne)).trans hb, hT⟩
  types name hname := by
    obtain ⟨t, ht, hT⟩ := h.types name hname
    exact ⟨t, (Scopes.lookupType_declareVariable name).trans ht, hT⟩
  functions s hs := by
    obtain ⟨o, ho, hserves⟩ := h.functions s hs
    exact ⟨o, (Scopes.lookupFunction_declareVariable s).trans ho, hserves⟩

section Honours

variable (h : w.Honours G M) (hn : n < w.scopes.next)

include h

theorem Honours.raise (hV : w.Anchors G M n V) (hle : (M.scopes n).Le V) (hn : n < M.next) :
    w.Honours G (M.raise n V) := by
  have hl := Promise.later_raise hle
  refine h.of_scope hl rfl h.toFits rfl (fun _ _ => rfl) (fun _ => rfl) ?_ rfl
    fun _ _ ht => .inl ht
  rw [Promise.raise_scopes_self]
  exact hV.mono hl hn rfl fun _ _ => rfl

include hn

theorem Honours.declareVariable {x : String} {v : Value}
    (hv : ∀ T, (M.scopes n).vars x = some T → v.HasType G M T) :
    (w.declareVariable n x (.value v)).Honours G M := by
  refine h.of_scope (n := n) (.refl M) rfl (h.toFits.declareVariable x _) (Scopes.next_modify ..)
    (fun m hm => ?_) (Scopes.path_modify _ n fun _ => rfl) ?_ rfl fun _ _ ht => .inl ht
  · exact (Scopes.get_modify _ n _ m).trans (if_neg fun hmn => hm hmn.1.symm)
  · refine (h.anchors n (h.lt_next hn)).declareVariable hn fun y T hy => ?_
    by_cases hxy : x = y
    · exact .inl ⟨hxy, hv T (hxy ▸ hy)⟩
    · exact .inr ⟨hxy, hy⟩

theorem Honours.declareFunction (hV : w.Anchors G M n V) (hle : (M.scopes n).Le V)
    {s : Signature} {o : Overload} (hs : G.functions s = some o.ret)
    (ho : o.Serves G (M.raise n (V.addFunction s)) s) :
    (w.declareFunction n s o).Honours G (M.raise n (V.addFunction s)) := by
  have hl := Promise.later_raise (hle.trans (V.le_addFunction s))
  refine h.of_scope (n := n) hl rfl (h.toFits.declareFunction hs) (Scopes.next_modify ..)
    (fun m hm => ?_) (Scopes.path_modify _ n fun _ => rfl) ?_ rfl fun _ _ ht => .inl ht
  · exact (Scopes.get_modify _ n _ m).trans (if_neg fun hmn => hm hmn.1.symm)
  · rw [Promise.raise_scopes_self]
    exact (hV.mono hl (h.lt_next hn) rfl fun _ _ => rfl).declareFunction hn ho

theorem Honours.declareType (hV : w.Anchors G M n V) (hle : (M.scopes n).Le V)
    {name : String} {t : TypeId} (ht : t < w.types.next) (hname : w.types.name t = name)
    (hbuiltin : ¬IsBuiltinName name) (hfresh : M.types t = none)
    (hserves : (w.types.get t).Serves G ((M.use t name).raise n (V.addType name)) name) :
    (w.declareType n name t).Honours G ((M.use t name).raise n (V.addType name)) := by
  have hl : M.Later {n} ((M.use t name).raise n (V.addType name)) :=
    (Promise.later_use _ hfresh).trans
      (Promise.later_raise (hle.trans (V.le_addType name)))
  refine h.of_scope (n := n) hl rfl (h.toFits.declareType ht hname hbuiltin)
    (Scopes.next_modify ..) (fun m hm => ?_) (Scopes.path_modify _ n fun _ => rfl) ?_ rfl
    fun u U hu => ?_
  · exact (Scopes.get_modify _ n _ m).trans (if_neg fun hmn => hm hmn.1.symm)
  · rw [Promise.raise_scopes_self]
    exact (hV.mono hl (h.lt_next hn) rfl fun _ _ => rfl).declareType hn (if_pos rfl)
  · by_cases hut : u = t
    · have hU : name = U := Option.some_inj.1 ((if_pos hut).symm.trans hu)
      rw [hut, ← hU]
      exact .inr ⟨ht, hname, hserves⟩
    · exact .inl ((if_neg hut).symm.trans hu)

end Honours

end World

end Nominal
