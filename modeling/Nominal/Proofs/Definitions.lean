import Nominal.Proofs.Delivery

/-!
# What definitions put into use

* `FuncDef.closes`: the closure of a typed definition.
* `methodTable` and the default attributes of a type, entry by entry.
* **`defineType_gives`**: a typed type definition builds a type that serves under its name.
-/

namespace Nominal

open World (Keeps)
open Effect (ask query update fail findType plain openChild bindAll)

variable {G : Glossary} {M M' : Promise} {w w' : World} {n : ScopeId} {V : Context}

/-! ## Definitions -/

/-- The closure of a definition, with parameters of a method before its own. -/
theorem FuncDef.closes {d : FuncDef} {before : List (String × String)} (hn : n < M.next)
    (hV : V.Le (M.scopes n)) (htyped : d.Typed G V before) (hsteady : d.Steady V.vars before) :
    Overload.Closes G M (before.map Prod.snd ++ d.params.map Param.type)
      ⟨d.returnType, .closure (before.map Prod.fst ++ d.params.map Param.name) d.body n⟩ := by
  obtain ⟨p, name, params, ret, body⟩ := d
  unfold FuncDef.Typed at htyped
  unfold FuncDef.Steady at hsteady
  have hnames : before.map Prod.fst ++ params.map Param.name =
      (before ++ (FuncDef.mk p name params ret body).bindings).map Prod.fst := by
    rw [List.map_append, FuncDef.bindings, List.map_map]
    rfl
  have htypes : before.map Prod.snd ++ params.map Param.type =
      (before ++ (FuncDef.mk p name params ret body).bindings).map Prod.snd := by
    rw [List.map_append, FuncDef.bindings, List.map_map]
    rfl
  have hzip : (before.map Prod.fst ++ params.map Param.name).zip
        (before.map Prod.snd ++ params.map Param.type) =
      before ++ (FuncDef.mk p name params ret body).bindings := by
    rw [hnames, htypes, List.zip_map']
    exact List.map_id' _
  refine .mk ?_ hn hV ?_ ?_
  · rw [FuncDef.params, hnames, htypes, List.length_map, List.length_map]
  · rw [FuncDef.params, hzip]
    exact htyped
  · rw [FuncDef.params, hzip]
    exact hsteady

theorem methodsTyped_of_mem {type : String} {methods : List FuncDef}
    (h : methodsTyped G V type methods) {m : FuncDef} (hm : m ∈ methods) :
    m.Typed G V [(receiverName, type)] ∧ (m.name = constructorName → m.returnType = type) := by
  induction methods with
  | nil => cases hm
  | cons m' rest ih =>
    unfold methodsTyped at h
    obtain ⟨htyped, hret, hrest⟩ := h
    obtain rfl | hm := List.mem_cons.1 hm
    · exact ⟨htyped, hret⟩
    · exact ih hrest hm

theorem methodsSteady_of_mem {γ : Vars} {type : String} {methods : List FuncDef}
    (h : methodsSteady γ type methods) {m : FuncDef} (hm : m ∈ methods) :
    m.Steady γ [(receiverName, type)] := by
  induction methods with
  | nil => cases hm
  | cons m' rest ih =>
    unfold methodsSteady at h
    obtain rfl | hm := List.mem_cons.1 hm
    · exact h.1
    · exact ih h.2 hm

theorem map_methodTable (n : ScopeId) (methods : List FuncDef) :
    (methodTable n methods).map (fun (s, o) => (s, o.ret)) = methodReturns methods [] := by
  have hfold (table : Table Signature Overload) :
      (methods.foldl (fun table m =>
          Table.insert table m.methodSignature (.ofMethod m n m.returnType)) table).map
        (fun (s, o) => (s, o.ret)) =
      methodReturns methods (table.map fun (s, o) => (s, o.ret)) := by
    induction methods generalizing table with
    | nil => rfl
    | cons m rest ih =>
      rw [List.foldl_cons, ih, Table.map_insert]
      rfl
  exact hfold []

theorem Table.mem_insert {κ α : Type} [DecidableEq κ] {t : Table κ α} {key : κ} {a : α} {e : κ × α}
    (h : e ∈ t.insert key a) : e = (key, a) ∨ e ∈ t := by
  induction t with
  | nil => exact .inl (List.mem_singleton.1 h)
  | cons e' t ih =>
    obtain ⟨k, b⟩ := e'
    unfold insert at h
    split at h
    · exact (List.mem_cons.1 h).imp id (List.mem_cons_of_mem _)
    · obtain rfl | h := List.mem_cons.1 h
      · exact .inr List.mem_cons_self
      · exact (ih h).imp id (List.mem_cons_of_mem _)

/-- A method in a type's table is the closure of one of the definitions. -/
theorem mem_methodTable {methods : List FuncDef} {s : Signature} {o : Overload}
    (h : (s, o) ∈ methodTable n methods) :
    ∃ m ∈ methods, s = m.methodSignature ∧ o = .ofMethod m n m.returnType := by
  have hfold (methods : List FuncDef) (table : Table Signature Overload)
      (h : (s, o) ∈ methods.foldl (fun table m =>
        Table.insert table m.methodSignature (.ofMethod m n m.returnType)) table) :
      (s, o) ∈ table ∨ ∃ m ∈ methods, s = m.methodSignature ∧ o = .ofMethod m n m.returnType := by
    induction methods generalizing table with
    | nil => exact .inl h
    | cons m rest ih =>
      obtain h | ⟨m', hm', hs⟩ := ih _ h
      · obtain h | h := Table.mem_insert h
        · cases h
          exact .inr ⟨m, List.mem_cons_self, rfl, rfl⟩
        · exact .inl h
      · exact .inr ⟨m', List.mem_cons_of_mem _ hm', hs⟩
  exact (hfold methods [] h).resolve_left List.not_mem_nil

theorem Descriptor.Serves.of_definition {name : String} {parents : List TypeId}
    {attrs : Table String Attribute} {methods : List FuncDef} (hn : n < M.next)
    (hV : V.Le (M.scopes n)) (hparents : ∀ p ∈ parents, ∃ P, M.types p = some P ∧ ¬IsBuiltinName P)
    (hnodup : attrs.keys.Nodup)
    (hattrs : ∀ e ∈ attrs, ∃ v, e.2.default = some v ∧ v.HasType G M e.2.type)
    (htyped : methodsTyped G V name methods) (hsteady : methodsSteady V.vars name methods) :
    Descriptor.Serves G M name ⟨name, false, parents, attrs, methodTable n methods⟩ where
  parents := hparents
  nodup := hnodup
  attributes := hattrs
  methods s o ho := by
    obtain ⟨m, hm, rfl, rfl⟩ := mem_methodTable (Table.mem_of_find? ho)
    obtain ⟨hmtyped, hret⟩ := methodsTyped_of_mem htyped hm
    exact ⟨FuncDef.closes hn hV hmtyped (methodsSteady_of_mem hsteady hm), hret⟩

/-! ### Type definitions -/

theorem findTypes_eq_ok (hV : w.Shows G M n V) {names : List String}
    (hnames : ∀ name ∈ names, V.types name) :
    ∃ ts, Effect.each (findType n) names w = (.ok ts, w) ∧
      List.Forall₂ (fun t name => M.types t = some name) ts names := by
  induction names with
  | nil => exact ⟨[], rfl, .nil⟩
  | cons name names ih =>
    obtain ⟨hname, hrest⟩ := List.forall_mem_cons.1 hnames
    obtain ⟨t, ht, hT⟩ := hV.types name hname
    obtain ⟨ts, hts, hall⟩ := ih hrest
    refine ⟨t :: ts, ?_, .cons hT hall⟩
    have ht' : findType n name w = (.ok t, w) := by
      refine Effect.query_eq_ok_iff.2 ⟨?_, rfl⟩
      rw [Scopes.findType, ht]
    exact Effect.bind_eq_ok_iff.2 ⟨t, w, ht', Effect.bind_eq_ok_iff.2 ⟨ts, w, hts, rfl⟩⟩

theorem exists_use_of_mem {ts : List TypeId} {names : List String}
    (hall : List.Forall₂ (fun t name => M.types t = some name) ts names) {t : TypeId}
    (ht : t ∈ ts) : ∃ name ∈ names, M.types t = some name := by
  induction hall with
  | nil => cases ht
  | @cons t' name ts names hT _ ih =>
    obtain rfl | ht := List.mem_cons.1 ht
    · exact ⟨name, List.mem_cons_self, hT⟩
    · obtain ⟨name', hname', hT'⟩ := ih ht
      exact ⟨name', List.mem_cons_of_mem _ hname', hT'⟩

theorem World.Honours.map_name_eq (h : w.Honours G M) {ts : List TypeId} {names : List String}
    (hall : List.Forall₂ (fun t name => M.types t = some name) ts names) :
    ts.map w.types.name = names := by
  induction hall with
  | nil => rfl
  | cons hT _ ih => rw [List.map_cons, h.name_of_use hT, ih]

theorem defaultAttributes_gives {init : AttributeDef → Run Value} {attributes : List AttributeDef}
    (hinit : ∀ a ∈ attributes, ∀ {M w}, w.Honours G M → n < w.scopes.next → w.Shows G M n V →
      (init a).Gives G ∅ M w fun M' _ v => v.HasType G M' a.type)
    (h : w.Honours G M) (hn : n < w.scopes.next) (hV : w.Shows G M n V)
    {attrs : Table String Attribute} (hnodup : attrs.keys.Nodup)
    (hattrs : ∀ e ∈ attrs, ∃ v, e.2.default = some v ∧ v.HasType G M e.2.type) :
    (defaultAttributes init attributes attrs).Gives G ∅ M w fun M' _ attrs' =>
      attrs'.map (fun (x, a) => (x, a.type)) =
          attributeTypes attributes (attrs.map fun (x, a) => (x, a.type)) ∧
        (Table.keys attrs').Nodup ∧
        ∀ e ∈ attrs', ∃ v, e.2.default = some v ∧ v.HasType G M' e.2.type := by
  induction attributes generalizing M w attrs with
  | nil => exact .pure h ⟨rfl, hnodup, hattrs⟩
  | cons a rest ih =>
    obtain ⟨ha, hrest⟩ := List.forall_mem_cons.1 hinit
    refine .bind (ha h hn hV) fun v M₁ w₁ hg₁ h₁ hv => ?_
    refine (ih hrest h₁ (lt_of_lt_of_le hn hg₁.scopes_le) (hV.grows h.nested hn hg₁)
      (Table.nodup_keys_insert hnodup a.name ⟨a.type, some v⟩) fun e he => ?_).mono
        (Set.Subset.refl _) fun M' w' attrs' _ _ hattrs' => ?_
    · obtain rfl | he := Table.mem_insert he
      · exact ⟨v, rfl, hv⟩
      · obtain ⟨u, hu, htype⟩ := hattrs e he
        exact ⟨u, hu, htype.mono hg₁.toLater⟩
    · rw [Table.map_insert] at hattrs'
      exact hattrs'

theorem TypeDef.attributes_typed {d : TypeDef} (h : d.Typed G V) :
    ∀ a ∈ d.attributes, V.types a.type ∧ InitTyped G V a.type a.init := by
  obtain ⟨name, parents, attributes, methods⟩ := d
  unfold TypeDef.Typed at h
  exact h.2.1

/-- A type definition builds a type that is as the text says and puts it into use. -/
theorem defineType_gives {init : AttributeDef → Run Value} {d : TypeDef}
    (hinit : ∀ a ∈ d.attributes, ∀ {M w}, w.Honours G M → n < w.scopes.next → w.Shows G M n V →
      (init a).Gives G ∅ M w fun M' _ v => v.HasType G M' a.type)
    (h : w.Honours G M) (hn : n < w.scopes.next) (hV : w.Shows G M n V) (hscopes : M.scopes n = V)
    (hd : G.types d.name = some d.interface ∧ ¬IsBuiltinName d.name) (htyped : d.Typed G V)
    (hsteady : d.Steady V.vars) :
    (defineType init d n).Gives G {n} M w fun M' w' _ =>
      n < w'.scopes.next ∧ M'.scopes n = V.addType d.name := by
  obtain ⟨name, parents, attributes, methods⟩ := d
  unfold TypeDef.Typed at htyped
  unfold TypeDef.Steady at hsteady
  obtain ⟨hparents, -, hmethods⟩ := htyped
  obtain ⟨ts, hts, hall⟩ := findTypes_eq_ok hV fun p hp => (hparents p hp).1
  refine .effect_bind hts (.refl M w) ?_
  have hempty : (Table.keys ([] : Table String Attribute)).Nodup := List.nodup_nil
  have hattributes := (defaultAttributes_gives hinit h hn hV hempty fun e he => by cases he).mono
    (Set.empty_subset {n}) fun M' w' attrs hg hw hattrs => And.intro hg hattrs
  refine .bind hattributes fun attrs M₁ w₁ _ h₁ hattrs => ?_
  obtain ⟨hg₁, htypes, hnodup, hdefaults⟩ := hattrs
  have hn₁ : n < w₁.scopes.next := lt_of_lt_of_le hn hg₁.scopes_le
  have hscopes₁ : M₁.scopes n = V :=
    (hg₁.scopes_eq h hn).trans hscopes
  have hparents₁ : List.Forall₂ (fun t name => M₁.types t = some name) ts parents :=
    hall.imp fun t name => hg₁.built t name
  let descriptor : Descriptor := ⟨name, false, ts, attrs, methodTable n methods⟩
  have hinterface : G.types name = some (w₁.types.interface descriptor) := by
    refine hd.1.trans (congrArg some ?_)
    rw [Types.interface, h₁.map_name_eq hparents₁, htypes, map_methodTable]
    rfl
  have hlts : ∀ p ∈ ts, p < w₁.types.next := fun p hp => by
    obtain ⟨P, -, hP⟩ := exists_use_of_mem hparents₁ hp
    exact h₁.lt_of_use hP
  have h₂ : (w₁.addType descriptor).Honours G M₁ := h₁.addType hinterface hlts hd.2
  have hfresh : M₁.types w₁.types.next = none := by
    cases ht : M₁.types w₁.types.next with
    | none => rfl
    | some T => exact absurd (h₁.lt_of_use ht) (lt_irrefl _)
  have hget : (w₁.addType descriptor).types.get w₁.types.next = descriptor := by
    rw [World.addType, Types.get_add, if_pos rfl]
  have hlt : w₁.types.next < (w₁.addType descriptor).types.next := by
    rw [World.addType, Types.next_add]
    exact Nat.lt_succ_self _
  let M₂ : Promise := (M₁.use w₁.types.next name).raise n (V.addType name)
  have hscopes₂ : M₂.scopes n = V.addType name := Promise.raise_scopes_self _ _ _
  have hl : M₁.Later {n} M₂ := (Promise.later_use _ hfresh).trans
    (Promise.later_raise (hscopes₁.symm ▸ V.le_addType name))
  have hserves : descriptor.Serves G M₂ name := by
    refine .of_definition (V := V.addType name) (h₁.lt_next hn₁) ?_ (fun p hp => ?_) hnodup
      (fun e he => ?_) hmethods hsteady
    · rw [hscopes₂]
      exact .refl _
    · obtain ⟨P, hP, huse⟩ := exists_use_of_mem hparents₁ hp
      exact ⟨P, hl.built p P huse, (hparents P hP).2⟩
    · obtain ⟨v, hv, htype⟩ := hdefaults e he
      exact ⟨v, hv, htype.mono hl⟩
  refine .ask_bind (.effect_bind rfl ⟨.addType w₁ descriptor, .refl M₁⟩ ?_)
  refine .of_effect rfl ⟨.declareType _ n name _, hl⟩ ?_ ⟨?_, hscopes₂⟩
  · refine h₂.declareType hn₁ (hscopes₁ ▸ h₂.anchors n (h₁.lt_next hn₁)) (hscopes₁ ▸ .refl _) hlt
      (congrArg Descriptor.name hget) hd.2 hfresh ?_
    rw [hget]
    exact hserves
  · exact (Scopes.next_modify ..).symm ▸ hn₁

end Nominal
