import Nominal.Proofs.Frame
import Nominal.Proofs.Glossary
import Nominal.Proofs.Native
import Nominal.Proofs.Typing

/-!
# Worlds that fit a glossary

In the check as in the execution a name means the same wherever it is declared: a type's interface
and a function's return type are those of the glossary.

* `World.Fits`: all types, and all entries of the tables of types and functions, are as the glossary
  says.
* `World.Fits.openChild`, `World.Fits.declareVariable` and their like: the steps that keep this.
* `Glossary.Proper`: a glossary that makes sense.
* **`Interpreter.start_fits`**: a fresh interpreter fits every glossary that knows the prelude.
-/

namespace Nominal

/-- The types and the functions of a world are as the glossary says, and the builtin types can be
seen from every scope. -/
structure World.Fits (G : Glossary) (w : World) : Prop where
  nested : w.scopes.Nested
  conform : w.types.Conform G
  types : ∀ m name t, (w.scopes.get m).types.find? name = some t →
    t < w.types.next ∧ w.types.name t = name
  functions : ∀ m s o, (w.scopes.get m).functions.find? s = some o → G.functions s = some o.ret
  builtins : ∀ m < w.scopes.next, w.SeesBuiltins m

namespace Types.Conform

variable {G : Glossary} {ts : Types} {d : Descriptor}

theorem interface_add (hparents : ∀ p ∈ d.parents, p < ts.next) (d' : Descriptor) :
    (ts.add d').interface d = ts.interface d := by
  have hnames : d.parents.map (ts.add d').name = d.parents.map ts.name := by
    apply List.map_congr_left
    intro p hp
    rw [Types.name, Types.get_add, if_neg (ne_of_lt (hparents p hp))]
    rfl
  rw [Types.interface, hnames]
  rfl

theorem add (h : ts.Conform G) (hd : G.types d.name = some (ts.interface d))
    (hparents : ∀ p ∈ d.parents, p < ts.next) (hname : ¬IsBuiltinName d.name) :
    (ts.add d).Conform G where
  interface t ht := by
    rw [Types.next_add] at ht
    rw [Types.name, Types.get_add]
    split
    · rw [interface_add hparents, hd]
    · next hne =>
      have hlt := lt_of_le_of_ne (Nat.le_of_lt_succ ht) hne
      rw [interface_add fun p hp => lt_trans (h.parents_lt t hlt p hp) hlt]
      exact h.interface t hlt
  parents_lt t ht p := by
    rw [Types.next_add] at ht
    rw [Types.get_add]
    split
    · next heq =>
      intro hp
      rw [heq]
      exact hparents p hp
    · next hne => exact h.parents_lt t (lt_of_le_of_ne (Nat.le_of_lt_succ ht) hne) p
  builtin t p ht := by
    rw [Types.name, Types.get_add] at ht
    rw [Types.get_add]
    split at ht
    · exact absurd ⟨p, ht⟩ hname
    · next hne =>
      rw [if_neg hne]
      exact h.builtin t p ht

end Types.Conform

theorem World.next_lt_openChild (w : World) (n : ScopeId) :
    w.scopes.next < (w.openChild n).scopes.next := by
  rw [World.openChild, Scopes.child, Scopes.next_openScope]
  exact Nat.lt_succ_self _

namespace World.Keeps

variable {w w' : World} {n : ScopeId} (h : w.Keeps ∅ w')

include h

theorem get_eq (hn : n < w.scopes.next) : w'.scopes.get n = w.scopes.get n :=
  h.scope_eq n hn (Set.notMem_empty n)

theorem path_eq (hn : n < w.scopes.next) : w'.scopes.path n = w.scopes.path n := by
  rw [Scopes.path, Scopes.path, h.get_eq hn]

/-- Where no old scope has changed, look-ups from old scopes find what they found before. -/
theorem lookup_eq {κ α : Type} [DecidableEq κ] (table : Scope → Table κ α) (hw : w.scopes.Nested)
    (hn : n < w.scopes.next) (key : κ) :
    w'.scopes.lookup table n key = w.scopes.lookup table n key := by
  refine Scopes.lookup_congr (h.path_eq hn) fun m hm => ?_
  rw [h.get_eq (lt_of_le_of_lt (hw.le_of_mem_path n m hm) hn)]

end World.Keeps

namespace World.Fits

variable {G : Glossary} {w w' : World} {n : ScopeId}

theorem of_lookupType (h : w.Fits G) {name : String} {t : TypeId}
    (ht : w.scopes.lookupType n name = some t) : t < w.types.next ∧ w.types.name t = name := by
  obtain ⟨m, -, hm⟩ := Scopes.exists_of_lookup ht
  exact h.types m name t hm

theorem of_lookupFunction (h : w.Fits G) {s : Signature} {o : Overload}
    (ho : w.scopes.lookupFunction n s = some o) : G.functions s = some o.ret := by
  obtain ⟨m, -, hm⟩ := Scopes.exists_of_lookup ho
  exact h.functions m s o hm

theorem of_eq (h : w.Fits G) (hs : w'.scopes = w.scopes) (ht : w'.types = w.types) :
    w'.Fits G where
  nested := by rw [hs]; exact h.nested
  conform := by rw [ht]; exact h.conform
  types := by rw [hs, ht]; exact h.types
  functions := by rw [hs]; exact h.functions
  builtins m hm := (h.builtins m (hs ▸ hm)).of_eq hs ht

theorem openChild (h : w.Fits G) (hn : n < w.scopes.next) : (w.openChild n).Fits G where
  nested := Scopes.nested_child h.nested hn
  conform := h.conform
  types m name t ht := by
    rw [World.openChild, Scopes.child, Scopes.get_openScope] at ht
    split at ht
    · cases ht
    · exact h.types m name t ht
  functions m s o ho := by
    rw [World.openChild, Scopes.child, Scopes.get_openScope] at ho
    split at ho
    · cases ho
    · exact h.functions m s o ho
  builtins m hm p := by
    by_cases hlt : m < w.scopes.next
    · obtain ⟨t, ht, hd⟩ := h.builtins m hlt p
      exact ⟨t, (Scopes.lookup_child_of_lt Scope.types h.nested hlt p.name).trans ht, hd⟩
    · have hm' : m = w.scopes.next := by
        rw [World.openChild, Scopes.child, Scopes.next_openScope] at hm
        exact le_antisymm (Nat.le_of_lt_succ hm) (not_lt.1 hlt)
      obtain ⟨t, ht, hd⟩ := h.builtins n hn p
      rw [hm']
      exact ⟨t, (Scopes.lookupType_child h.nested hn p.name).trans ht, hd⟩

theorem declareVariable (h : w.Fits G) (name : String) (b : Binding) :
    (w.declareVariable n name b).Fits G where
  nested := Scopes.nested_modify h.nested fun _ => rfl
  conform := h.conform
  types m x t ht := by
    rw [World.declareVariable, Scopes.declareVariable, Scopes.get_modify] at ht
    split at ht <;> exact h.types m x t ht
  functions m s o ho := by
    rw [World.declareVariable, Scopes.declareVariable, Scopes.get_modify] at ho
    split at ho <;> exact h.functions m s o ho
  builtins m hm p := by
    have hm' : m < w.scopes.next := (Scopes.next_modify ..) ▸ hm
    obtain ⟨t, ht, hd⟩ := h.builtins m hm' p
    exact ⟨t, (Scopes.lookupType_declareVariable p.name).trans ht, hd⟩

theorem declareFunction (h : w.Fits G) {s : Signature} {o : Overload}
    (hs : G.functions s = some o.ret) : (w.declareFunction n s o).Fits G where
  nested := Scopes.nested_modify h.nested fun _ => rfl
  conform := h.conform
  types m x t ht := by
    rw [World.declareFunction, Scopes.declareFunction, Scopes.get_modify] at ht
    split at ht <;> exact h.types m x t ht
  functions m s' o' ho := by
    rw [World.declareFunction, Scopes.declareFunction, Scopes.get_modify] at ho
    split at ho
    · rw [Table.find?_insert] at ho
      split at ho
      · next heq =>
        cases ho
        rw [← heq, hs]
      · exact h.functions m s' o' ho
    · exact h.functions m s' o' ho
  builtins m hm p := by
    have hm' : m < w.scopes.next := (Scopes.next_modify ..) ▸ hm
    obtain ⟨t, ht, hd⟩ := h.builtins m hm' p
    exact ⟨t, (Scopes.lookupType_declareFunction p.name).trans ht, hd⟩

theorem declareType (h : w.Fits G) {t : TypeId} {name : String} (ht : t < w.types.next)
    (hname : w.types.name t = name) (hbuiltin : ¬IsBuiltinName name) :
    (w.declareType n name t).Fits G where
  nested := Scopes.nested_modify h.nested fun _ => rfl
  conform := h.conform
  types m x u hu := by
    rw [World.declareType, Scopes.declareType, Scopes.get_modify] at hu
    split at hu
    · rw [Table.find?_insert] at hu
      split at hu
      · next heq =>
        cases hu
        exact ⟨ht, hname.trans heq⟩
      · exact h.types m x u hu
    · exact h.types m x u hu
  functions m s o ho := by
    rw [World.declareType, Scopes.declareType, Scopes.get_modify] at ho
    split at ho <;> exact h.functions m s o ho
  builtins m hm p := by
    have hm' : m < w.scopes.next := (Scopes.next_modify ..) ▸ hm
    obtain ⟨u, hu, hd⟩ := h.builtins m hm' p
    have hne : name ≠ p.name := fun heq => hbuiltin ⟨p, heq⟩
    exact ⟨u, (Scopes.lookupType_declareType_of_ne hne).trans hu, hd⟩

theorem addType (h : w.Fits G) {d : Descriptor} (hd : G.types d.name = some (w.types.interface d))
    (hparents : ∀ p ∈ d.parents, p < w.types.next) (hname : ¬IsBuiltinName d.name) :
    (w.addType d).Fits G := by
  have hget {t : TypeId} (ht : t < w.types.next) : (w.addType d).types.get t = w.types.get t := by
    rw [World.addType, Types.get_add, if_neg (ne_of_lt ht)]
  refine ⟨h.nested, h.conform.add hd hparents hname, fun m name t ht => ?_, h.functions,
    fun m hm p => ?_⟩
  · obtain ⟨hlt, hn⟩ := h.types m name t ht
    refine ⟨lt_of_lt_of_le hlt ?_, ?_⟩
    · rw [World.addType, Types.next_add]
      exact Nat.le_succ _
    · rw [Types.name, hget hlt]
      exact hn
  · obtain ⟨t, ht, hd'⟩ := h.builtins m hm p
    obtain ⟨k, -, hk⟩ := Scopes.exists_of_lookup ht
    refine ⟨t, ht, ?_⟩
    rw [hget (h.types k p.name t hk).1, hd']

end World.Fits

/-! ## The fresh interpreter -/

/-- A builtin type by name. -/
def Primitive.interface (p : Primitive) : Interface :=
  ⟨[], [], p.methods.map fun (s, o) => (s, o.ret)⟩

/-- The prelude is in the glossary. -/
structure Glossary.HasPrelude (G : Glossary) : Prop where
  types : ∀ p : Primitive, G.types p.name = some p.interface
  functions : ∀ p : Primitive, G.functions (.function "print" [p.name]) = some Primitive.none.name

/-- The prelude is known, functions and types have different names, and an attribute of a type has
one type only. -/
structure Glossary.Proper (G : Glossary) : Prop extends G.HasPrelude where
  apart : ∀ s type, G.functions s = some type → ¬IsBuiltinName s.name → G.types s.name = none
  attr_unique : ∀ T attr type type', G.HasAttr T attr type → G.HasAttr T attr type' → type = type'

namespace Interpreter

/-- The types of a fresh interpreter. -/
def startTypes : Types := ⟨(Primitive.all.map Primitive.descriptor).toArray⟩

theorem startTypes_get {t : TypeId} (ht : t < startTypes.next) :
    ∃ p : Primitive, startTypes.get t = p.descriptor := by
  have ht' : t < 5 := ht
  match t, ht' with
  | 0, _ => exact ⟨.none, rfl⟩
  | 1, _ => exact ⟨.bool, rfl⟩
  | 2, _ => exact ⟨.int, rfl⟩
  | 3, _ => exact ⟨.float, rfl⟩
  | 4, _ => exact ⟨.string, rfl⟩

theorem startTypes_get_of_le {t : TypeId} (ht : startTypes.next ≤ t) :
    startTypes.get t = .empty "" false := by
  rw [Types.get_eq, Array.getElem?_eq_none ht]
  rfl

theorem not_isBuiltinName_empty : ¬IsBuiltinName "" := by
  rintro ⟨p, hp⟩
  cases p <;> exact absurd hp (by decide)

theorem startTypes_conform {G : Glossary} (hG : G.HasPrelude) : startTypes.Conform G where
  interface t ht := by
    obtain ⟨p, hp⟩ := startTypes_get ht
    rw [Types.name, hp]
    exact hG.types p
  parents_lt t ht q hq := by
    obtain ⟨p, hp⟩ := startTypes_get ht
    rw [hp] at hq
    cases hq
  builtin t p ht := by
    by_cases hlt : t < startTypes.next
    · obtain ⟨q, hq⟩ := startTypes_get hlt
      rw [Types.name, hq] at ht
      rw [hq, Primitive.name_injective (ht : q.name = p.name)]
    · rw [Types.name, startTypes_get_of_le (not_lt.1 hlt)] at ht
      exact absurd ⟨p, ht⟩ not_isBuiltinName_empty

theorem start_get (out : Output) (m : ScopeId) :
    (start true out).scopes.get m = startRoot ∨ (start true out).scopes.get m = .empty [] := by
  rw [start_eq]
  cases m with
  | zero => exact .inl rfl
  | succ m => exact .inr rfl

/-- **A fresh interpreter fits every glossary that has the prelude.** -/
theorem start_fits {G : Glossary} (hG : G.HasPrelude) (out : Output) :
    (start true out).Fits G where
  nested := nested_start out
  conform := by
    rw [start_eq]
    exact startTypes_conform hG
  types m name t ht := by
    obtain h | h := start_get out m
    · rw [h] at ht
      obtain ⟨p, rfl, hd⟩ := startRoot_types ht
      rw [start_eq]
      have hname : startTypes.name t = p.name := congrArg Descriptor.name hd
      refine ⟨?_, hname⟩
      by_contra hlt
      rw [Types.name, startTypes_get_of_le (not_lt.1 hlt)] at hname
      exact not_isBuiltinName_empty ⟨p, hname⟩
    · rw [h] at ht
      cases ht
  functions m s o ho := by
    obtain h | h := start_get out m
    · rw [h] at ho
      obtain ⟨p, rfl, rfl⟩ := startRoot_functions ho
      exact hG.functions p
    · rw [h] at ho
      cases ho
  builtins m hm := by
    rw [next_start, Nat.lt_one_iff] at hm
    rw [hm]
    exact seesBuiltins_start out

end Interpreter

end Nominal
