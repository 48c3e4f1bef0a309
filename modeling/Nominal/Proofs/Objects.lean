import Mathlib.Data.List.Forall2
import Nominal.Proofs.Promise

/-!
# Values of the types in use

* `Types.find?_defaultsWithin_succ`: a default attribute is the type's own or that of the last
  parent that has one.
* **`World.Honours.hasType_blank`**: a blank instance has all attributes of its type, each with a
  value of the declared type.
* `World.Honours.native`: values under the name of a builtin type are builtin values.
* `World.Honours.hasType_viewAs`: a value seen as one of an ancestor.
-/

namespace Nominal

/-! ## Default attributes -/

namespace Table

variable {κ α β : Type} [DecidableEq κ]

/-- In a union of many tables the last one that has a key wins. -/
theorem find?_foldl_union {f : β → Table κ α} (hf : ∀ b, (f b).keys.Nodup) (l : List β)
    (t : Table κ α) (key : κ) :
    find? (l.foldl (fun t b => union t (f b)) t) key =
      (l.reverse.findSome? fun b => find? (f b) key).or (find? t key) := by
  induction l generalizing t with
  | nil => rfl
  | cons b l ih =>
    rw [List.foldl_cons, ih, find?_union t (f b) (hf b), List.reverse_cons, List.findSome?_append,
      Option.or_assoc, List.findSome?_singleton]

theorem nodup_keys_foldl_union (f : β → Table κ α) (l : List β) {t : Table κ α}
    (ht : t.keys.Nodup) : (l.foldl (fun t b => union t (f b)) t).keys.Nodup := by
  induction l generalizing t with
  | nil => exact ht
  | cons b l ih => exact ih (nodup_keys_union ht (f b))

theorem find?_filterMap {g : α → Option β} {t : Table κ α} (h : ∀ e ∈ t, (g e.2).isSome) :
    keys (t.filterMap fun (k, a) => (g a).map fun b => (k, b)) = t.keys ∧
      ∀ key, find? (t.filterMap fun (k, a) => (g a).map fun b => (k, b)) key =
        (find? t key).bind g := by
  induction t with
  | nil => exact ⟨rfl, fun _ => rfl⟩
  | cons e t ih =>
    obtain ⟨k, a⟩ := e
    obtain ⟨hkeys, hfind⟩ := ih fun e he => h e (List.mem_cons_of_mem _ he)
    obtain ⟨b, hb⟩ := Option.isSome_iff_exists.1 (h (k, a) List.mem_cons_self)
    have hb' : g a = some b := hb
    have hcons : ((k, a) :: t).filterMap (fun (k, a) => (g a).map fun b => (k, b)) =
        (k, b) :: t.filterMap fun (k, a) => (g a).map fun b => (k, b) := by
      rw [List.filterMap_cons]
      simp only [hb', Option.map_some]
    rw [hcons]
    refine ⟨by rw [keys_cons, keys_cons, hkeys], fun key => ?_⟩
    rw [find?_cons, find?_cons, hfind]
    split
    · exact hb'.symm
    · rfl

end Table

namespace Types

variable {ts : Types}

theorem nodup_keys_defaultsWithin (ts : Types) (depth : Nat) (t : TypeId) :
    (ts.defaultsWithin depth t).keys.Nodup := by
  cases depth with
  | zero => exact List.nodup_nil
  | succ depth =>
    exact Table.nodup_keys_union (Table.nodup_keys_foldl_union _ _ (by simp)) _

/-- A default attribute is the type's own or that of the last parent that has one. -/
theorem find?_defaultsWithin_succ {t : TypeId} (hnodup : (ts.get t).attributes.keys.Nodup)
    (hsome : ∀ e ∈ (ts.get t).attributes, e.2.default.isSome) (depth : Nat) (x : String) :
    Table.find? (ts.defaultsWithin (depth + 1) t) x =
      (((ts.get t).attributes.find? x).bind Attribute.default).or
        ((ts.get t).parents.reverse.findSome? fun p =>
          Table.find? (ts.defaultsWithin depth p) x) := by
  obtain ⟨hkeys, hfind⟩ := Table.find?_filterMap (g := Attribute.default) hsome
  have hown : Table.keys (ownDefaults (ts.get t)) = (ts.get t).attributes.keys := hkeys
  rw [defaultsWithin, Table.find?_union _ _ (hown ▸ hnodup),
    Table.find?_foldl_union (ts.nodup_keys_defaultsWithin depth), Table.find?_nil, Option.or_none]
  exact congrArg (Option.or · _) (hfind x)

end Types

/-! ## Types in use -/

namespace World.Honours

variable {G : Glossary} {M : Promise} {w : World} {t : TypeId} {T : String} (h : w.Honours G M)

include h

theorem lt_of_use (ht : M.types t = some T) : t < w.types.next := (h.built t T ht).1

theorem name_of_use (ht : M.types t = some T) : w.types.name t = T := (h.built t T ht).2.1

theorem interface_of_use (ht : M.types t = some T) :
    G.types T = some (w.types.interface (w.types.get t)) :=
  h.name_of_use ht ▸ h.conform.interface t (h.lt_of_use ht)

theorem descriptor_of_use {p : Primitive} (ht : M.types t = some p.name) :
    w.types.get t = p.descriptor :=
  h.conform.builtin t p (h.name_of_use ht)

theorem find?_defaultsWithin (ht : M.types t = some T) (hT : ¬IsBuiltinName T) (depth : Nat)
    (x : String) :
    Table.find? (w.types.defaultsWithin (depth + 1) t) x =
      (((w.types.get t).attributes.find? x).bind Attribute.default).or
        ((w.types.get t).parents.reverse.findSome? fun p =>
          Table.find? (w.types.defaultsWithin depth p) x) := by
  have hd := (h.built t T ht).2.2 hT
  refine Types.find?_defaultsWithin_succ hd.nodup (fun e he => ?_) depth x
  obtain ⟨v, hv, -⟩ := hd.attributes e he
  exact Option.isSome_of_eq_some hv

theorem hasType_defaultsWithin (depth : Nat) (ht : M.types t = some T) (hT : ¬IsBuiltinName T)
    {x : String} {v : Value} (hx : Table.find? (w.types.defaultsWithin depth t) x = some v) :
    ∃ type, G.HasAttr T x type ∧ v.HasType G M type := by
  induction depth generalizing t T with
  | zero => cases hx
  | succ depth ih =>
    have hd := (h.built t T ht).2.2 hT
    have hI := h.interface_of_use ht
    rw [h.find?_defaultsWithin ht hT] at hx
    obtain hown | ⟨-, hinherited⟩ := Option.or_eq_some_iff.1 hx
    · obtain ⟨a, ha, hdefault⟩ := Option.bind_eq_some_iff.1 hown
      obtain ⟨v', hv', htype⟩ := hd.attributes (x, a) (Table.mem_of_find? ha)
      obtain rfl : v' = v := Option.some_inj.1 (hv'.symm.trans hdefault)
      refine ⟨a.type, .own hI ?_, htype⟩
      exact (Table.find?_map _ Attribute.type x).trans (congrArg (Option.map _) ha)
    · obtain ⟨p, hp, hx'⟩ := List.exists_of_findSome?_eq_some hinherited
      have hmem := List.mem_reverse.1 hp
      obtain ⟨P, hP, hbuiltin⟩ := hd.parents p hmem
      obtain ⟨type, hattr, htype⟩ := ih hP hbuiltin hx'
      refine ⟨type, .inherited hI ?_ hattr, htype⟩
      rw [← h.name_of_use hP]
      exact List.mem_map_of_mem hmem

theorem isSome_defaultsWithin {x type : String} (hattr : G.HasAttr T x type)
    (hT : ¬IsBuiltinName T) {depth : Nat} (ht : M.types t = some T) (hdepth : t < depth) :
    (Table.find? (w.types.defaultsWithin depth t) x).isSome := by
  obtain ⟨depth, rfl⟩ := Nat.exists_eq_add_one_of_ne_zero (Nat.ne_zero_of_lt hdepth)
  induction hattr generalizing t depth with
  | @own T x type I hI hx =>
    obtain rfl : I = w.types.interface (w.types.get t) :=
      Option.some_inj.1 (hI.symm.trans (h.interface_of_use ht))
    obtain ⟨a, ha, -⟩ := Option.map_eq_some_iff.1
      ((Table.find?_map _ Attribute.type x).symm.trans hx)
    obtain ⟨v, hv, -⟩ := ((h.built t T ht).2.2 hT).attributes (x, a) (Table.mem_of_find? ha)
    rw [h.find?_defaultsWithin ht hT, ha, Option.isSome_or, Bool.or_eq_true]
    exact .inl (Option.isSome_of_eq_some hv)
  | @inherited T parent x type I hI hparent _ ih =>
    obtain rfl : I = w.types.interface (w.types.get t) :=
      Option.some_inj.1 (hI.symm.trans (h.interface_of_use ht))
    obtain ⟨p, hp, hname⟩ := List.mem_map.1 hparent
    obtain ⟨P, hP, hbuiltin⟩ := ((h.built t T ht).2.2 hT).parents p hp
    obtain rfl : P = parent := (h.name_of_use hP).symm.trans hname
    have hlt : p < depth :=
      lt_of_lt_of_le (h.conform.parents_lt t (h.lt_of_use ht) p hp) (Nat.le_of_lt_succ hdepth)
    obtain ⟨depth, rfl⟩ := Nat.exists_eq_add_one_of_ne_zero (Nat.ne_zero_of_lt hlt)
    rw [h.find?_defaultsWithin ht hT, Option.isSome_or, Bool.or_eq_true]
    exact .inr (List.findSome?_isSome_iff.2 ⟨p, List.mem_reverse.2 hp, ih hbuiltin hP depth hlt⟩)

/-- **A blank instance has all attributes of its type, each with a value of the declared type.** -/
theorem hasType_blank (hG : G.Proper) (ht : M.types t = some T) (hT : ¬IsBuiltinName T) :
    (w.types.blank t).HasType G M T := by
  have hdefault {x type : String} (hattr : G.HasAttr T x type) :
      ∃ v, Table.find? (w.types.defaults t) x = some v ∧ v.HasType G M type := by
    obtain ⟨v, hv⟩ := Option.isSome_iff_exists.1
      (h.isSome_defaultsWithin hattr hT ht (h.lt_of_use ht))
    obtain ⟨type', hattr', hv'⟩ := h.hasType_defaultsWithin w.types.entries.size ht hT hv
    exact ⟨v, hv, hG.attr_unique T x type' type hattr' hattr ▸ hv'⟩
  refine .object ht hT (fun x => (Table.find? (w.types.defaults t) x).getD (.plain t .none)) ?_ ?_
  · intro x type hattr
    obtain ⟨v, hv, -⟩ := hdefault hattr
    rw [hv]
    rfl
  · intro x type hattr
    obtain ⟨v, hv, htype⟩ := hdefault hattr
    rw [hv]
    exact htype

end World.Honours

/-! ## Values -/

theorem Value.HasType.use {G : Glossary} {M : Promise} {v : Value} {T : String}
    (hv : v.HasType G M T) : M.types v.type = some T := by
  cases hv with
  | plain ht => exact ht
  | object ht => exact ht

theorem Glossary.Proper.not_hasAttr {G : Glossary} (hG : G.Proper) {p : Primitive}
    {x type : String} (h : G.HasAttr p.name x type) : False := by
  generalize hT : p.name = T at h
  cases h with
  | own hI hx =>
    obtain rfl := Option.some_inj.1 (hI.symm.trans (hT ▸ hG.types p))
    cases hx
  | inherited hI hparent =>
    obtain rfl := Option.some_inj.1 (hI.symm.trans (hT ▸ hG.types p))
    cases hparent

theorem Value.HasType.attr {G : Glossary} {M : Promise} {v : Value} {T x type : String}
    (hv : v.HasType G M T) (hG : G.Proper) (hx : G.HasAttr T x type) :
    ∃ u, v.attr? x = some u ∧ u.HasType G M type := by
  cases hv with
  | plain => exact (hG.not_hasAttr hx).elim
  | object _ _ value hfind hvalue => exact ⟨value x, hfind x type hx, hvalue x type hx⟩

namespace World.Honours

variable {G : Glossary} {M : Promise} {w : World} {v : Value} {T : String} {t q : TypeId}
  {p : Primitive} (h : w.Honours G M)

include h

theorem typeName_eq (hv : v.HasType G M T) : w.typeName v = T := h.name_of_use hv.use

theorem map_typeName_eq {args : List Value} {types : List String}
    (hargs : List.Forall₂ (Value.HasType G M) args types) : args.map w.typeName = types := by
  induction hargs with
  | nil => rfl
  | cons hv _ ih => rw [List.map_cons, h.typeName_eq hv, ih]

/-- A value of a type with the name of a builtin one is a builtin value. -/
theorem native (hv : v.HasType G M p.name) : w.Native p v := by
  generalize hT : p.name = T at hv
  cases hv with
  | @plain t l ht =>
    obtain rfl := Primitive.name_injective hT
    exact ⟨t, l, rfl, h.descriptor_of_use ht, rfl⟩
  | object _ hbuiltin => exact absurd ⟨p, hT.symm⟩ hbuiltin

theorem hasType_of_native (hv : w.Native p v) : v.HasType G M p.name := by
  obtain ⟨t, l, rfl, ht, rfl⟩ := hv
  exact .plain (h.builtin t l.primitive (congrArg Descriptor.name ht))

theorem native_of_mem {args : List Value} {types : List String}
    (hargs : List.Forall₂ (Value.HasType G M) args types) (hmem : v ∈ args)
    (hp : w.typeName v = p.name) : w.Native p v := by
  induction hargs with
  | nil => cases hmem
  | cons hv _ ih =>
    obtain rfl | hmem := List.mem_cons.1 hmem
    · exact h.native ((h.typeName_eq hv).symm.trans hp ▸ hv)
    · exact ih hmem

/-! ### Ancestors -/

theorem parent_use (ht : M.types t = some T) (hq : q ∈ (w.types.get t).parents) :
    ¬IsBuiltinName T ∧ ∃ P, M.types q = some P ∧ ¬IsBuiltinName P := by
  have hT : ¬IsBuiltinName T := by
    rintro ⟨p, rfl⟩
    rw [h.descriptor_of_use ht] at hq
    cases hq
  exact ⟨hT, ((h.built t T ht).2.2 hT).parents q hq⟩

theorem ancestor_use (ht : M.types t = some T) (ha : w.types.Ancestor t q) :
    ¬IsBuiltinName T ∧ ∃ P, M.types q = some P ∧ ¬IsBuiltinName P := by
  induction ha generalizing T with
  | parent hp => exact h.parent_use ht hp
  | step hp _ ih =>
    obtain ⟨hT, P, hP, -⟩ := h.parent_use ht hp
    exact ⟨hT, (ih hP).2⟩

theorem hasType_viewAs (hv : v.HasType G M T) (ha : w.types.Ancestor v.type q) :
    ∃ P, M.types q = some P ∧ ¬IsBuiltinName P ∧ (v.viewAs q).HasType G M P := by
  obtain ⟨hT, P, hP, hbuiltin⟩ := h.ancestor_use hv.use ha
  refine ⟨P, hP, hbuiltin, ?_⟩
  cases hv with
  | @plain _ l => exact absurd ⟨l.primitive, rfl⟩ hT
  | @object t T attributes ht hT value hfind hvalue =>
    have hattr {x type : String} (hx : G.HasAttr P x type) : G.HasAttr T x type := by
      have := ha.hasAttr h.conform (h.lt_of_use ht) (h.name_of_use hP ▸ hx)
      exact h.name_of_use ht ▸ this
    exact .object hP hbuiltin value (fun x type hx => hfind x type (hattr hx))
      fun x type hx => hvalue x type (hattr hx)

end World.Honours

/-! ## Calls -/

/-- A callable may be called with the given arguments. -/
inductive Overload.Takes (G : Glossary) (M : Promise) (w : World) (args : List Value) :
    Overload → Prop
  | builtin {b : Builtin} {p : Primitive} (h : b.Accepts w args p) :
      Takes G M w args ⟨p.name, .builtin b⟩
  | closure {o : Overload} {types : List String} (h : o.Closes G M types)
      (hargs : List.Forall₂ (Value.HasType G M) args types) : Takes G M w args o

theorem Overload.Serves.takes {G : Glossary} {M : Promise} {w : World} {s : Signature}
    {o : Overload} (ho : o.Serves G M s) {args : List Value}
    (hargs : List.Forall₂ (Value.HasType G M) args s.params) : o.Takes G M w args := by
  obtain ho | ⟨hlength, rfl⟩ := ho
  · exact .closure ho hargs
  · obtain ⟨v, rfl⟩ := List.length_eq_one_iff.1 (hargs.length_eq.trans hlength)
    exact .builtin (.print v)

namespace World.Honours

variable {G : Glossary} {M : Promise} {w : World} {v : Value} {T : String} {t : TypeId}
  {s : Signature} {o : Overload} {args : List Value} (h : w.Honours G M)

include h

/-- A method that a type in use declares itself. The receiver of a constructor is a blank
instance. -/
theorem takes_ownMethod (hG : G.Proper) (ht : M.types t = some T)
    (ho : w.types.ownMethod? t s = some o)
    (hv : v.HasType G M T ∨ s.name = constructorName ∧ v = w.types.blank t)
    (hargs : List.Forall₂ (Value.HasType G M) args s.params) : o.Takes G M w (v :: args) := by
  by_cases hT : IsBuiltinName T
  · obtain ⟨p, rfl⟩ := hT
    rw [Types.ownMethod?_descriptor (h.descriptor_of_use ht)] at ho
    obtain ⟨b, q, rfl, haccepts⟩ := Primitive.accepts_of_method (Primitive.isMethod_of_find? ho)
      (fun hs => h.native (hv.resolve_right fun hc => hs hc.1)) (h.map_typeName_eq hargs).symm
      fun a ha q hq => h.native_of_mem hargs ha hq
    exact .builtin haccepts
  · have hv' : v.HasType G M T :=
      hv.elim (fun hv => hv) fun hv => hv.2 ▸ h.hasType_blank hG ht hT
    exact .closure (((h.built t T ht).2.2 hT).methods s o ho).1 (.cons hv' hargs)

theorem ret_of_constructor (ht : M.types t = some T) (ho : w.types.ownMethod? t s = some o)
    (hs : s.name = constructorName) : o.ret = T := by
  by_cases hT : IsBuiltinName T
  · obtain ⟨p, rfl⟩ := hT
    rw [Types.ownMethod?_descriptor (h.descriptor_of_use ht)] at ho
    cases Primitive.isMethod_of_find? ho with
    | defaultConstructor | constructor => rfl
    | @binary op => exact absurd hs op.callableName_ne_constructorName
    | @unary op => exact absurd hs op.callableName_ne_constructorName
  · exact (((h.built t T ht).2.2 hT).methods s o ho).2 hs

/-- The method that a signature stands for, with the receiver as it gets it. -/
theorem takes_findMethod (hG : G.Proper) (hv : v.HasType G M T) {m : MethodEntry}
    (hm : w.types.findMethod v.type s = .ok (some m))
    (hargs : List.Forall₂ (Value.HasType G M) args s.params) :
    m.overload.Takes G M w ((Resolved.ofMethod m).arguments (v :: args)) := by
  obtain ⟨hnone, ho⟩ | ⟨owner, howner, ha, ho⟩ := Types.findMethod_eq_ok hm
  · have harguments : (Resolved.ofMethod m).arguments (v :: args) = v :: args := by
      rw [Resolved.arguments, Resolved.ofMethod, hnone]
    rw [harguments]
    exact h.takes_ownMethod hG hv.use ho (.inl hv) hargs
  · obtain ⟨P, hP, -, hview⟩ := h.hasType_viewAs hv ha
    have harguments : (Resolved.ofMethod m).arguments (v :: args) = v.viewAs owner :: args := by
      rw [Resolved.arguments, Resolved.ofMethod, howner]
    rw [harguments]
    exact h.takes_ownMethod hG hP ho (.inl hview) hargs

theorem exists_findMethod (hv : v.HasType G M T) {r : Option String}
    (hr : G.Finds T s (.ok r)) : ∃ m, w.types.findMethod v.type s = .ok m ∧
      m.map (fun m => m.overload.ret) = r := by
  have hfinds := h.conform.finds (h.lt_of_use hv.use) s
  rw [h.name_of_use hv.use] at hfinds
  have heq := hfinds.unique hr
  cases hm : w.types.findMethod v.type s with
  | error c =>
    rw [hm] at heq
    cases heq
  | ok m =>
    rw [hm] at heq
    exact ⟨m, rfl, Except.ok.inj heq⟩

end World.Honours

/-! ## Resolution -/

/-- What a call stands for may be called with the given arguments and gives a value of a type. -/
inductive Target.Takes (G : Glossary) (M : Promise) (w : World) (args : List Value)
    (type : String) : Target → Prop
  | function {o : Overload} (hret : o.ret = type) (h : o.Takes G M w args) :
      Takes G M w args type (.function o)
  | construct {t : TypeId} (h : M.types t = some type) : Takes G M w args type (.construct t)
  | constructWith {t : TypeId} {o : Overload} (hret : o.ret = type)
      (h : o.Takes G M w (w.types.blank t :: args)) : Takes G M w args type (.constructWith t o)

namespace World.Honours

variable {G : Glossary} {M : Promise} {w : World} {n : ScopeId} {V : Context} {v : Value}
  {T type : String} {args : List Value} (h : w.Honours G M)

include h

theorem exists_findFunction (hV : w.Shows G M n V) {s : Signature} (hs : V.functions s)
    (hret : G.functions s = some type) (hargs : List.Forall₂ (Value.HasType G M) args s.params) :
    ∃ o, w.scopes.findFunction n s = .ok o ∧ o.ret = type ∧ o.Takes G M w args := by
  obtain ⟨o, ho, hserves⟩ := hV.functions s hs
  refine ⟨o, ?_, ?_, hserves.takes hargs⟩
  · rw [Scopes.findFunction, ho]
  · exact Option.some_inj.1 ((h.of_lookupFunction ho).symm.trans hret)

/-- **An operator resolves as it was typed.** -/
theorem exists_resolveOperator (hG : G.Proper) (hV : w.Shows G M n V) (hv : v.HasType G M T)
    {method function : Signature} (hop : V.Operator G T method function type)
    (hargs : List.Forall₂ (Value.HasType G M) args method.params)
    (hfunction : function.params = T :: method.params) :
    ∃ r, w.resolveOperator n v.type method function = .ok r ∧ r.overload.ret = type ∧
      r.overload.Takes G M w (r.arguments (v :: args)) := by
  unfold World.resolveOperator
  obtain hfinds | ⟨hfinds, hvisible, hret⟩ := hop
  · obtain ⟨m, hm, hret⟩ := h.exists_findMethod hv hfinds
    obtain ⟨m, rfl, hret'⟩ := Option.map_eq_some_iff.1 hret
    rw [hm]
    exact ⟨.ofMethod m, rfl, hret', h.takes_findMethod hG hv hm hargs⟩
  · obtain ⟨m, hm, hnone⟩ := h.exists_findMethod hv hfinds
    obtain rfl := Option.map_eq_none_iff.1 hnone
    have hall : List.Forall₂ (Value.HasType G M) (v :: args) function.params :=
      hfunction ▸ .cons hv hargs
    obtain ⟨o, ho, hret', htakes⟩ := h.exists_findFunction hV hvisible hret hall
    rw [hm, ho]
    exact ⟨.ofFunction o, rfl, hret', htakes⟩

/-- **A method call resolves as it was typed.** -/
theorem exists_resolveMethod (hG : G.Proper) (hv : v.HasType G M T) {method : String}
    {types : List String} (hfinds : G.Finds T (.method method types) (.ok (some type)))
    (hargs : List.Forall₂ (Value.HasType G M) args types) :
    ∃ r, w.resolveMethod v.type method types = .ok r ∧ r.overload.ret = type ∧
      r.overload.Takes G M w (r.arguments (v :: args)) := by
  obtain ⟨m, hm, hret⟩ := h.exists_findMethod hv hfinds
  obtain ⟨m, rfl, hret'⟩ := Option.map_eq_some_iff.1 hret
  unfold World.resolveMethod
  dsimp only
  rw [hm]
  exact ⟨.ofMethod m, rfl, hret', h.takes_findMethod hG hv hm hargs⟩

/-- **A plain call resolves as it was typed.** -/
theorem exists_resolveCall (hG : G.Proper) (hV : w.Shows G M n V) {callee : String}
    {types : List String} (hcall : V.Call G callee types type)
    (hargs : List.Forall₂ (Value.HasType G M) args types) :
    ∃ target, w.resolveCall n callee types = .ok target ∧ target.Takes G M w args type := by
  unfold World.resolveCall
  obtain ⟨hvisible, rfl, rfl⟩ | ⟨hvisible, hne, hret⟩ | ⟨hnone, hvisible, hret⟩ := hcall
  · obtain ⟨t, ht, hT⟩ := hV.types _ hvisible
    rw [ht]
    exact ⟨.construct t, rfl, .construct hT⟩
  · obtain ⟨t, ht, hT⟩ := hV.types _ hvisible
    have hown := h.conform.ownMethod?_eq (s := .constructor types) (h.lt_of_use hT)
    rw [h.name_of_use hT, hret] at hown
    obtain ⟨o, ho, rfl⟩ := Option.map_eq_some_iff.1 hown.symm
    rw [ht]
    dsimp only
    rw [if_neg (by simpa using hne), ho]
    exact ⟨.constructWith t o, rfl, .constructWith rfl
      (h.takes_ownMethod hG hT ho (.inr ⟨rfl, rfl⟩) hargs)⟩
  · have hlookup : w.scopes.lookupType n callee = none := by
      cases ht : w.scopes.lookupType n callee with
      | none => rfl
      | some t =>
        obtain ⟨hlt, hname⟩ := h.of_lookupType ht
        have hI := h.conform.interface t hlt
        rw [hname, hnone] at hI
        cases hI
    obtain ⟨o, ho, hret', htakes⟩ := h.exists_findFunction hV hvisible hret hargs
    rw [hlookup, ho]
    exact ⟨.function o, rfl, .function hret' htakes⟩

end World.Honours

end Nominal
