import Nominal.Proofs.Objects
import Nominal.Proofs.Owners
import Nominal.Proofs.Reached
import Nominal.Proofs.Renaming

/-!
# Attributes as they are checked and as they are stored

A check looks an attribute up from the last parent to the first and stops at the first hit. An
instance is built from the first parent to the last, and later values replace earlier ones. Both
come to the same declaration.

* `Types.Tabled`: no type lists an attribute twice.
* `Types.HasAttribute`: an attribute that a type declares or inherits.
* `Types.Picks`: the declaration that an attribute of a type stands for.
* `Types.ParentsOlder.attrType?_eq`, `Types.ParentsOlder.find?_defaults`: both searches, one step at
  a time.
* `Types.Picks.unique`: there is at most one such declaration.
* **`Types.attributes_agree`**: types and default values come from the same declarations.
* **`World.Reached.tabled`**, `World.Reached.parentsOlder`: the types that programs build.
-/

namespace Nominal

namespace Table

variable {κ α β : Type}

theorem filterMap_cons_eq (g : α → Option β) (k : κ) (a : α) (t : Table κ α) :
    ((k, a) :: t : Table κ α).filterMap (fun (k, a) => (g a).map fun b => (k, b)) =
      ((g a).map fun b => (k, b)).toList ++
        t.filterMap fun (k, a) => (g a).map fun b => (k, b) := by
  cases hg : g a with
  | none => exact List.filterMap_cons_none (by simp only [hg, Option.map_none])
  | some b => exact List.filterMap_cons_some (by simp only [hg, Option.map_some])

theorem keys_filterMap_sublist (g : α → Option β) (t : Table κ α) :
    (keys (t.filterMap fun (k, a) => (g a).map fun b => (k, b))).Sublist t.keys := by
  induction t with
  | nil => exact .slnil
  | cons e t ih =>
    obtain ⟨k, a⟩ := e
    rw [filterMap_cons_eq]
    cases g a with
    | none => exact ih.cons k
    | some b => exact ih.cons_cons k

variable [DecidableEq κ]

/-- A table with some function of its entries, where entries without a result are left out. -/
theorem find?_filterMap_of_nodup (g : α → Option β) {t : Table κ α} (h : t.keys.Nodup) (key : κ) :
    find? (t.filterMap fun (k, a) => (g a).map fun b => (k, b)) key = (find? t key).bind g := by
  induction t with
  | nil => rfl
  | cons e t ih =>
    obtain ⟨k, a⟩ := e
    rw [keys_cons, List.nodup_cons] at h
    rw [filterMap_cons_eq, find?_cons]
    by_cases hk : k = key
    · rw [if_pos hk, Option.bind_some]
      cases g a with
      | none =>
        -- no other entry has the key
        have hnone : find? t key = none := (find?_eq_none_iff t key).2 (hk ▸ h.1)
        rw [Option.map_none, Option.toList_none, List.nil_append, ih h.2, hnone]
        rfl
      | some b =>
        rw [Option.map_some, Option.toList_some, List.singleton_append, find?_cons, if_pos hk]
    · rw [if_neg hk, ← ih h.2]
      cases g a with
      | none => rfl
      | some b =>
        rw [Option.map_some, Option.toList_some, List.singleton_append, find?_cons, if_neg hk]

end Table

namespace Types

variable {ts : Types} {x : String} {t p p' q : TypeId} {a a' : Attribute}

/-- No type lists an attribute twice. Tables that are built by insertion have no key twice. -/
def Tabled (ts : Types) : Prop := ∀ t, (ts.get t).attributes.keys.Nodup

/-- The type declares or inherits an attribute. -/
inductive HasAttribute (ts : Types) (x : String) : TypeId → Prop
  | own {t : TypeId} {a : Attribute} (h : (ts.get t).attributes.find? x = some a) :
      HasAttribute ts x t
  | inherited {t q : TypeId} (hq : q ∈ (ts.get t).parents) (h : HasAttribute ts x q) :
      HasAttribute ts x t

/-- The declaration that an attribute of a type stands for, with the type that it belongs to: the
type's own, or else the one chosen in the same way by the last parent that has the attribute. -/
inductive Picks (ts : Types) (x : String) : (t p : TypeId) → Attribute → Prop
  | own {t : TypeId} {a : Attribute} (h : (ts.get t).attributes.find? x = some a) :
      Picks ts x t t a
  | inherited {t q p : TypeId} {before after : List TypeId} {a : Attribute}
      (hown : (ts.get t).attributes.find? x = none)
      (hparents : (ts.get t).parents = before ++ q :: after)
      (hlast : ∀ r ∈ after, ¬ ts.HasAttribute x r) (h : Picks ts x q p a) : Picks ts x t p a

namespace Picks

theorem hasAttribute (h : ts.Picks x t p a) : ts.HasAttribute x t := by
  induction h with
  | own h => exact .own h
  | inherited _ hparents _ _ ih => exact .inherited (by simp [hparents]) ih

theorem within (h : ts.Picks x t p a) : ts.Within t p := by
  induction h with
  | own h => exact .inl rfl
  | @inherited t q p _ _ _ _ hparents _ _ ih =>
    have hq : q ∈ (ts.get t).parents := by simp [hparents]
    obtain rfl | hp := ih
    · exact .inr (.parent hq)
    · exact .inr (.step hq hp)

theorem declares (h : ts.Picks x t p a) : (ts.get p).attributes.find? x = some a := by
  induction h with
  | own h => exact h
  | inherited _ _ _ _ ih => exact ih

end Picks

theorem last_unique {P : TypeId → Prop} {before before' after after' : List TypeId}
    (h : before ++ q :: after = before' ++ p :: after') (hq : P q) (hp : P p)
    (hafter : ∀ r ∈ after, ¬ P r) (hafter' : ∀ r ∈ after', ¬ P r) : q = p := by
  obtain ⟨l, -, hl⟩ | ⟨l, -, hl⟩ := List.append_eq_append_iff.1 h
  · cases l with
    | nil => exact (List.cons.inj hl).1
    | cons r l =>
      have hmem : p ∈ after := by simp [(List.cons.inj hl).2]
      exact absurd hp (hafter p hmem)
  · cases l with
    | nil => exact (List.cons.inj hl).1.symm
    | cons r l =>
      have hmem : q ∈ after' := by simp [(List.cons.inj hl).2]
      exact absurd hq (hafter' q hmem)

theorem Picks.unique (h : ts.Picks x t p a) (h' : ts.Picks x t p' a') : p = p' ∧ a = a' := by
  induction h with
  | own h =>
    cases h' with
    | own h' => exact ⟨rfl, Option.some.inj (h.symm.trans h')⟩
    | inherited hown => cases h.symm.trans hown
  | inherited hown hparents hlast h ih =>
    cases h' with
    | own h' => cases h'.symm.trans hown
    | inherited _ hparents' hlast' h' =>
      obtain rfl := last_unique (hparents.symm.trans hparents') h.hasAttribute h'.hasAttribute
        hlast hlast'
      exact ih h'

/-! ### The searches, one step at a time -/

theorem attrType?_of_le (ht : ts.next ≤ t) : ts.attrType? t x = none := by
  rw [attrType?]
  cases ts.entries.size with
  | zero => rfl
  | succ depth =>
    rw [attrTypeWithin, get_of_le ht]
    rfl

namespace ParentsOlder

variable (h : ts.ParentsOlder)

include h

/-- The declared type is the own one, or else that of the last parent that has one. -/
theorem attrType?_eq (t : TypeId) (x : String) :
    ts.attrType? t x = (((ts.get t).attributes.find? x).map Attribute.type).or
      ((ts.get t).parents.reverse.findSome? fun q => ts.attrType? q x) := by
  by_cases ht : t < ts.next
  · have hsize : t < ts.entries.size := ht
    rw [attrType?, attrTypeWithin_stable h hsize (Nat.lt_succ_of_lt hsize), attrTypeWithin]
    cases (ts.get t).attributes.find? x <;> rfl
  · rw [attrType?_of_le (not_lt.1 ht), get_of_le (not_lt.1 ht)]
    rfl

/-- The default value is the own one, or else that of the last parent that has one. -/
theorem find?_defaults (htabled : ts.Tabled) (t : TypeId) (x : String) :
    Table.find? (ts.defaults t) x =
      (((ts.get t).attributes.find? x).bind Attribute.default).or
        ((ts.get t).parents.reverse.findSome? fun q => Table.find? (ts.defaults q) x) := by
  have hown : Table.keys (ownDefaults (ts.get t)) |>.Nodup :=
    (Table.keys_filterMap_sublist Attribute.default _).nodup (htabled t)
  rw [← h.defaultsWithin_of_le (Nat.le_succ ts.next), defaultsWithin,
    Table.find?_union _ _ hown, Table.find?_foldl_union (ts.nodup_keys_defaultsWithin ts.next),
    Table.find?_nil, Option.or_none]
  exact congrArg (Option.or · _) (Table.find?_filterMap_of_nodup _ (htabled t) x)

/-- A type has an attribute if and only if there is a declared type for it. -/
theorem isSome_attrType?_iff : (ts.attrType? t x).isSome ↔ ts.HasAttribute x t := by
  constructor
  · intro hsome
    induction t using Nat.strongRecOn with
    | ind t ih =>
      rw [h.attrType?_eq, Option.isSome_or, Bool.or_eq_true] at hsome
      obtain hown | hinherited := hsome
      · obtain ⟨a, ha⟩ := Option.isSome_iff_exists.1 (Option.isSome_map ▸ hown)
        exact .own ha
      · obtain ⟨q, hq, hqx⟩ := List.findSome?_isSome_iff.1 hinherited
        have hq := List.mem_reverse.1 hq
        exact .inherited hq (ih q (h t q hq) hqx)
  · intro hx
    induction hx with
    | own ha => rw [h.attrType?_eq, ha]; rfl
    | @inherited t q hq _ ih =>
      rw [h.attrType?_eq, Option.isSome_or, Bool.or_eq_true]
      exact .inr (List.findSome?_isSome_iff.2 ⟨q, List.mem_reverse.2 hq, ih⟩)

theorem hasAttribute_of_default (htabled : ts.Tabled)
    (hx : (Table.find? (ts.defaults t) x).isSome) : ts.HasAttribute x t := by
  induction t using Nat.strongRecOn with
  | ind t ih =>
    rw [h.find?_defaults htabled, Option.isSome_or, Bool.or_eq_true] at hx
    obtain hown | hinherited := hx
    · cases ha : (ts.get t).attributes.find? x with
      | none => simp [ha] at hown
      | some a => exact .own ha
    · obtain ⟨q, hq, hqx⟩ := List.findSome?_isSome_iff.1 hinherited
      have hq := List.mem_reverse.1 hq
      exact .inherited hq (ih q (h t q hq) hqx)

theorem exists_picks (hx : ts.HasAttribute x t) : ∃ p a, ts.Picks x t p a := by
  induction t using Nat.strongRecOn with
  | ind t ih =>
    cases hown : (ts.get t).attributes.find? x with
    | some a => exact ⟨t, a, .own hown⟩
    | none =>
      -- the search for the declared type tells which parent is the last one
      obtain ⟨type, htype⟩ := Option.isSome_iff_exists.1 (h.isSome_attrType?_iff.2 hx)
      rw [h.attrType?_eq, hown, Option.map_none, Option.none_or] at htype
      obtain ⟨after, q, before, hreverse, hq, hafter⟩ := List.findSome?_eq_some_iff.1 htype
      have hparents : (ts.get t).parents = before.reverse ++ q :: after.reverse := by
        rw [← List.reverse_reverse (ts.get t).parents, hreverse]
        simp
      have hqx := h.isSome_attrType?_iff.1 (Option.isSome_of_eq_some hq)
      obtain ⟨p, a, hp⟩ := ih q (h t q (by simp [hparents])) hqx
      refine ⟨p, a, .inherited hown hparents (fun r hr hrx => ?_) hp⟩
      rw [← h.isSome_attrType?_iff, hafter r (List.mem_reverse.1 hr)] at hrx
      cases hrx

end ParentsOlder

/-- The last member with a result gives the result of the whole list. -/
theorem findSome?_reverse_eq {β : Type} {f : TypeId → Option β} {before after : List TypeId}
    (hafter : ∀ r ∈ after, f r = none) (hq : (f q).isSome) :
    (before ++ q :: after).reverse.findSome? f = f q := by
  obtain ⟨b, hb⟩ := Option.isSome_iff_exists.1 hq
  rw [hb]
  refine List.findSome?_eq_some_iff.2 ⟨after.reverse, q, before.reverse, by simp, hb, ?_⟩
  exact fun r hr => hafter r (List.mem_reverse.1 hr)

namespace Picks

theorem attrType?_eq (h : ts.Picks x t p a) (holder : ts.ParentsOlder) :
    ts.attrType? t x = some a.type := by
  induction h with
  | own ha => rw [holder.attrType?_eq, ha]; rfl
  | @inherited t q p before after a hown hparents hlast _ ih =>
    have hafter : ∀ r ∈ after, ts.attrType? r x = none := fun r hr =>
      Option.not_isSome_iff_eq_none.1 fun hsome =>
        hlast r hr (holder.isSome_attrType?_iff.1 hsome)
    rw [holder.attrType?_eq, hown, hparents, Option.map_none, Option.none_or,
      findSome?_reverse_eq hafter (Option.isSome_of_eq_some ih), ih]

theorem find?_defaults (h : ts.Picks x t p a) (holder : ts.ParentsOlder) (htabled : ts.Tabled)
    (ha : a.default.isSome) : Table.find? (ts.defaults t) x = a.default := by
  induction h with
  | own hown =>
    obtain ⟨v, hv⟩ := Option.isSome_iff_exists.1 ha
    rw [holder.find?_defaults htabled, hown, Option.bind_some, hv, Option.some_or]
  | @inherited t q p before after a hown hparents hlast _ ih =>
    have hafter : ∀ r ∈ after, Table.find? (ts.defaults r) x = none := fun r hr =>
      Option.not_isSome_iff_eq_none.1 fun hsome =>
        hlast r hr (holder.hasAttribute_of_default htabled hsome)
    rw [holder.find?_defaults htabled, hown, hparents, Option.bind_none, Option.none_or,
      findSome?_reverse_eq hafter (by rw [ih ha]; exact ha), ih ha]

end Picks

/-- **Types and default values of attributes come from the same declarations.** If every attribute
of a type and its ancestors has a default, then a blank instance has an attribute exactly if there
is a declared type for it. There is one declaration that the attribute stands for, and both the type
and the value are its own. Without all defaults, there still is a declared type for every attribute
of an instance. -/
theorem attributes_agree (holder : ts.ParentsOlder) (htabled : ts.Tabled) (t : TypeId) :
    ((∀ p, ts.Within t p → ∀ e ∈ (ts.get p).attributes, e.2.default.isSome) → ∀ x,
      (((ts.blank t).attr? x).isSome ↔ (ts.attrType? t x).isSome) ∧
      ((ts.attrType? t x).isSome → ∃ p a, ts.Picks x t p a ∧
        (∀ p' a', ts.Picks x t p' a' → p' = p ∧ a' = a) ∧
        ts.Within t p ∧ (ts.get p).attributes.find? x = some a ∧
        ts.attrType? t x = some a.type ∧ (ts.blank t).attr? x = a.default)) ∧
    ∀ x, ((ts.blank t).attr? x).isSome → (ts.attrType? t x).isSome := by
  have hblank (x : String) : (ts.blank t).attr? x = Table.find? (ts.defaults t) x := rfl
  have htyped (x : String) (hx : ((ts.blank t).attr? x).isSome) : (ts.attrType? t x).isSome :=
    holder.isSome_attrType?_iff.2 (holder.hasAttribute_of_default htabled hx)
  refine ⟨fun hdefaults x => ?_, htyped⟩
  -- what is stored under a name that has a declared type
  have hpicks (hx : (ts.attrType? t x).isSome) : ∃ p a, ts.Picks x t p a ∧
      Table.find? (ts.defaults t) x = a.default ∧ a.default.isSome := by
    obtain ⟨p, a, hp⟩ := holder.exists_picks (holder.isSome_attrType?_iff.1 hx)
    have ha := hdefaults p hp.within (x, a) (Table.mem_of_find? hp.declares)
    exact ⟨p, a, hp, hp.find?_defaults holder htabled ha, ha⟩
  refine ⟨⟨htyped x, fun hx => ?_⟩, fun hx => ?_⟩
  · obtain ⟨p, a, -, hstored, ha⟩ := hpicks hx
    rw [hblank, hstored]
    exact ha
  · obtain ⟨p, a, hp, hstored, -⟩ := hpicks hx
    exact ⟨p, a, hp, fun p' a' hp' => hp'.unique hp, hp.within, hp.declares,
      hp.attrType?_eq holder, hstored⟩

theorem parentsOlder_of_lt (h : ∀ t < ts.next, ∀ q ∈ (ts.get t).parents, q < t) :
    ts.ParentsOlder := by
  intro t q hq
  by_cases ht : t < ts.next
  · exact h t ht q hq
  · rw [get_of_le (not_lt.1 ht)] at hq
    cases hq

theorem tabled_of_lt (h : ∀ t < ts.next, (ts.get t).attributes.keys.Nodup) : ts.Tabled := by
  intro t
  by_cases ht : t < ts.next
  · exact h t ht
  · rw [get_of_le (not_lt.1 ht)]
    exact List.nodup_nil

/-- `Bottom` has the parents `Left` and `Right`, and both have the parent `Top`, which declares an
attribute. `Left` declares it once more. -/
def overridden : Types := ⟨#[
  .empty "Int" true,
  .empty "String" true,
  ⟨"Top", false, [], [("x", ⟨"Int", some (.plain 0 (.int 1))⟩)], []⟩,
  ⟨"Left", false, [2], [("x", ⟨"String", some (.plain 1 (.string "a"))⟩)], []⟩,
  ⟨"Right", false, [2], [], []⟩,
  ⟨"Bottom", false, [3, 4], [], []⟩]⟩

/-- `Right` is listed last, and so the declaration is that of `Top` for the type and for the value,
although `Left` is closer to `Bottom`. -/
theorem attributes_agree_overridden :
    (overridden.attrType? 5 "x").isSome ∧ ∃ a, overridden.Picks "x" 5 2 a ∧
      overridden.attrType? 5 "x" = some a.type ∧ (overridden.blank 5).attr? "x" = a.default := by
  have holder : overridden.ParentsOlder := parentsOlder_of_lt (by decide)
  have htabled : overridden.Tabled := tabled_of_lt (by decide)
  have hagree := attributes_agree holder htabled 5
  have hdefaults (p : TypeId) : ∀ e ∈ (overridden.get p).attributes, e.2.default.isSome := by
    by_cases hp : p < overridden.next
    · revert p
      decide
    · rw [get_of_le (not_lt.1 hp)]
      exact fun e he => by cases he
  have htyped : (overridden.attrType? 5 "x").isSome := by decide
  obtain ⟨p, a, hp, hunique, -, -, htype, hstored⟩ :=
    (hagree.1 (fun p _ => hdefaults p) "x").2 htyped
  have hright : overridden.Picks "x" 4 2 ⟨"Int", some (.plain 0 (.int 1))⟩ :=
    @Picks.inherited _ _ 4 2 2 [] [] _ rfl rfl nofun (.own rfl)
  have hbottom : overridden.Picks "x" 5 2 ⟨"Int", some (.plain 0 (.int 1))⟩ :=
    @Picks.inherited _ _ 5 4 2 [3] [] _ rfl rfl nofun hright
  obtain ⟨rfl, -⟩ := hunique _ _ hbottom
  exact ⟨htyped, a, hp, htype, hstored⟩

/-! ## Types that programs build -/

theorem Tabled.add (h : ts.Tabled) {d : Descriptor} (hd : d.attributes.keys.Nodup) :
    (ts.add d).Tabled := by
  intro t
  rw [get_add]
  split
  · exact hd
  · exact h t

/-- A change of scopes leaves the types alone, and a new type lists its attributes once. -/
theorem Tabled.framing : World.Framing fun _ => Preserves fun w => w.types.Tabled where
  weaken h := h
  fresh h := h
  declareVariable _ _ _ _ := id
  declareType _ _ _ _ := id
  declareFunction _ _ _ _ := id
  addType _ _ hd h := h.add hd

theorem tabled_start (prelude : Bool) (out : Output) :
    (Interpreter.start prelude out).types.Tabled := by
  intro t
  cases prelude with
  | false => exact List.nodup_nil
  | true =>
    change (Interpreter.startTypes.get t).attributes.keys.Nodup
    obtain ⟨p, hp⟩ | hempty := Interpreter.startTypes_get_eq t
    · rw [hp]
      exact List.nodup_nil
    · rw [hempty]
      exact List.nodup_nil

end Types

namespace World.Reached

variable {S : Stmt → Prop} {w : World}

/-- **Types that programs build list each of their attributes once.** -/
theorem tabled (h : w.Reached S) : w.types.Tabled := by
  induction h with
  | start prelude out => exact Types.tabled_start prelude out
  | openChild _ _ ih | output _ _ ih => exact ih
  | check _ _ _ hr ih => exact Types.Tabled.framing.checkBlock _ _ _ _ _ _ hr ih
  | @run _ _ _ n fuel _ _ _ _ hr ih =>
    have hruns := Types.Tabled.framing.runs (fun _ _ _ ht => (congrArg Types.Tabled ht).mpr) fuel
    exact runBlock_moves (fun s => hruns.execute s n) _ _ _ _ hr ih

theorem parentsOlder (h : w.Reached S) : w.types.ParentsOlder :=
  have hspares : SparesBuiltins S False := False.elim
  (h.orderly hspares).parents

end World.Reached

end Nominal
