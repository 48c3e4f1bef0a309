import Mathlib.Data.Nat.Basic
import Nominal.Prelude

/-!
# Types and functions by name

The check and the execution build descriptors of their own for one type definition. What they have
in common is the interface: names in place of types, and declared types in place of values and
closures. A glossary gives an interface for every type name and a return type for every signature of
a free function. Attributes and methods can be looked up in it as they are in the types.

* `Interface`, `Types.interface`: a descriptor by name.
* `Glossary.HasAttr`, `Glossary.Finds`: attributes and methods, own and inherited.
* `Types.Conform`: all types are as the glossary says, and each is younger than its parents.
* **`Types.Conform.hasAttr`**, **`Types.Conform.finds`**: attributes and methods of types that
  conform are those of the glossary.
-/

namespace Nominal

/-- A type as it is known by name. -/
structure Interface where
  parents : List String
  attributes : Table String String
  methods : Table Signature String
deriving DecidableEq

/-- A descriptor by name. -/
def Types.interface (ts : Types) (d : Descriptor) : Interface where
  parents := d.parents.map ts.name
  attributes := d.attributes.map fun (name, a) => (name, a.type)
  methods := d.methods.map fun (s, o) => (s, o.ret)

/-- A method that was found, by the name of its owner and its return type. -/
def Types.hitByName (ts : Types) (hit : TypeId × Overload) : String × String :=
  (ts.name hit.1, hit.2.ret)

/-- The types and the free functions of a program by name. -/
structure Glossary where
  types : String → Option Interface
  functions : Signature → Option String

/-! ## Tables whose entries are changed one by one -/

namespace Table

variable {κ α β : Type} [DecidableEq κ]

theorem find?_map (t : Table κ α) (f : α → β) (key : κ) :
    find? (t.map fun (k, a) => (k, f a)) key = (find? t key).map f := by
  induction t with
  | nil => rfl
  | cons e t ih =>
    obtain ⟨k, a⟩ := e
    rw [List.map_cons, find?_cons, find?_cons, ih]
    split <;> rfl

theorem map_insert (t : Table κ α) (f : α → β) (key : κ) (a : α) :
    (insert t key a).map (fun (k, a) => (k, f a)) =
      insert (t.map fun (k, a) => (k, f a)) key (f a) := by
  induction t with
  | nil => rfl
  | cons e t ih =>
    obtain ⟨k, b⟩ := e
    simp only [insert, List.map_cons]
    split
    · rfl
    · rw [List.map_cons, ih]

end Table

/-! ## Look-up in a glossary -/

namespace Glossary

variable {G : Glossary} {T : String} {s : Signature}

/-- The type `T` has or inherits an attribute of a declared type. -/
inductive HasAttr (G : Glossary) : (T attr type : String) → Prop
  | own {T attr type : String} {I : Interface} (hI : G.types T = some I)
      (h : I.attributes.find? attr = some type) : HasAttr G T attr type
  | inherited {T parent attr type : String} {I : Interface} (hI : G.types T = some I)
      (hparent : parent ∈ I.parents) (h : HasAttr G parent attr type) : HasAttr G T attr type

/-- The names of the parents of a type. -/
def parents (G : Glossary) (T : String) : List String := ((G.types T).map Interface.parents).getD []

/-- The return type of a method that the type declares itself. -/
def ownMethod? (G : Glossary) (T : String) (s : Signature) : Option String :=
  (G.types T).bind fun I => I.methods.find? s

/-- The outcome of a search after one more parent. -/
def join (T : String) (s : Signature) (found hit : Option (String × String)) :
    Except Cause (Option (String × String)) :=
  match found, hit with
  | found, none => .ok found
  | none, some hit => .ok (some hit)
  | some first, some second =>
    if first.1 = second.1 then .ok (some first)
    else .error (.ambiguousMethod T s first.1 second.1)

/-- The method with a given signature in the ancestors of a type up to a depth, as the name of the
ancestor and the return type, and the names of the types looked at so far. -/
def inheritedWithin (G : Glossary) (s : Signature) : (depth : Nat) → (T : String) →
    (visited : List String) → Except Cause (Option (String × String) × List String)
  | 0, _, visited => .ok (none, visited)
  | depth + 1, T, visited =>
    (G.parents T).foldlM (fun (found, visited) parent =>
      if parent ∈ visited then .ok (found, visited)
      else do
        let visited := parent :: visited
        let (hit, visited) ← match G.ownMethod? parent s with
          | some ret => .ok (some (parent, ret), visited)
          | none => G.inheritedWithin s depth parent visited
        let found ← join T s found hit
        return (found, visited))
      (none, visited)

/-- The return type of the method with a given signature, own or inherited up to a depth. -/
def findMethodWithin (G : Glossary) (depth : Nat) (T : String) (s : Signature) :
    Except Cause (Option String) :=
  match G.ownMethod? T s with
  | some ret => .ok (some ret)
  | none => (G.inheritedWithin s depth T [T]).map fun (hit, _) => hit.map Prod.snd

/-- The outcome of the search for a method among all ancestors of a type. -/
def Finds (G : Glossary) (T : String) (s : Signature) (r : Except Cause (Option String)) : Prop :=
  ∃ bound, ∀ depth ≥ bound, G.findMethodWithin depth T s = r

theorem Finds.unique {r r' : Except Cause (Option String)} (h : G.Finds T s r)
    (h' : G.Finds T s r') : r = r' := by
  obtain ⟨k, hk⟩ := h
  obtain ⟨l, hl⟩ := h'
  rw [← hk (max k l) (le_max_left k l), hl (max k l) (le_max_right k l)]

end Glossary

/-! ## Types that conform to a glossary -/

theorem Types.get_of_le {ts : Types} {t : TypeId} (ht : ts.next ≤ t) :
    ts.get t = .empty "" false := by
  rw [get_eq, Array.getElem?_eq_none ht]
  rfl

/-- Every type is as the glossary says, comes after its parents, and is builtin if its name is. -/
structure Types.Conform (G : Glossary) (ts : Types) : Prop where
  interface : ∀ t < ts.next, G.types (ts.name t) = some (ts.interface (ts.get t))
  parents_lt : ∀ t < ts.next, ∀ p ∈ (ts.get t).parents, p < t
  builtin : ∀ t (p : Primitive), ts.name t = p.name → ts.get t = p.descriptor

theorem foldlM_congr {α σ : Type} {f g : σ → α → Except Cause σ} {l : List α}
    (h : ∀ a ∈ l, ∀ b, f b a = g b a) (b : σ) : l.foldlM f b = l.foldlM g b := by
  induction l generalizing b with
  | nil => rfl
  | cons a l ih =>
    rw [List.foldlM_cons, List.foldlM_cons, h a List.mem_cons_self]
    congr
    funext c
    exact ih (fun a' ha' => h a' (List.mem_cons_of_mem a ha')) c

/-- Types are built after their parents. -/
def Types.ParentsOlder (ts : Types) : Prop := ∀ t, ∀ q ∈ (ts.get t).parents, q < t

/-- A search that is deep enough for a type does not depend on its depth. -/
theorem Types.ParentsOlder.inheritedWithin_stable {ts : Types} (h : ts.ParentsOlder)
    {s : Signature} {t : TypeId} {depth depth' : Nat} (hd : t < depth) (hd' : t < depth')
    (visited : List String) :
    ts.inheritedWithin s depth t visited = ts.inheritedWithin s depth' t visited := by
  induction t using Nat.strongRecOn generalizing depth depth' visited with
  | ind t ih =>
    obtain ⟨k, rfl⟩ := Nat.exists_eq_add_of_lt hd
    obtain ⟨l, rfl⟩ := Nat.exists_eq_add_of_lt hd'
    rw [Types.inheritedWithin, Types.inheritedWithin]
    refine foldlM_congr (fun p hp state => ?_) (none, visited)
    have hstep := ih p (h t p hp) (lt_of_lt_of_le (h t p hp) (Nat.le_add_right t k))
      (lt_of_lt_of_le (h t p hp) (Nat.le_add_right t l))
    simp only [hstep]

theorem Types.Conform.parentsOlder {G : Glossary} {ts : Types} (h : ts.Conform G) :
    ts.ParentsOlder := by
  intro t q hq
  by_cases ht : t < ts.next
  · exact h.parents_lt t ht q hq
  · rw [get_of_le (not_lt.1 ht)] at hq
    cases hq

theorem foldlM_keeps {α σ : Type} {f : σ → α → Except Cause σ} {Q : σ → Prop} {l : List α}
    (h : ∀ a ∈ l, ∀ b b', Q b → f b a = .ok b' → Q b') {b b' : σ} (hb : Q b)
    (hl : l.foldlM f b = .ok b') : Q b' := by
  induction l generalizing b with
  | nil =>
    cases hl
    exact hb
  | cons a l ih =>
    rw [List.foldlM_cons] at hl
    cases ha : f b a with
    | error c =>
      rw [ha] at hl
      cases hl
    | ok b₁ =>
      rw [ha] at hl
      exact ih (fun a' ha' => h a' (List.mem_cons_of_mem a ha'))
        (h a List.mem_cons_self b b₁ hb ha) hl

theorem foldlM_map_state {α β σ τ : Type} {f : σ → α → Except Cause σ} {g : τ → β → Except Cause τ}
    (φ : σ → τ) (ψ : α → β) {l : List α} (h : ∀ a ∈ l, ∀ b, (f b a).map φ = g (φ b) (ψ a)) (b : σ) :
    (l.foldlM f b).map φ = (l.map ψ).foldlM g (φ b) := by
  induction l generalizing b with
  | nil => rfl
  | cons a l ih =>
    rw [List.foldlM_cons, List.map_cons, List.foldlM_cons, ← h a List.mem_cons_self b]
    cases f b a with
    | error c => rfl
    | ok b' => exact ih (fun a' ha' => h a' (List.mem_cons_of_mem a ha')) b'

namespace Types.Conform

variable {G : Glossary} {ts : Types} {t : TypeId} {s : Signature} (h : ts.Conform G)

include h

theorem parents_eq (ht : t < ts.next) : G.parents (ts.name t) = (ts.get t).parents.map ts.name := by
  rw [Glossary.parents, h.interface t ht]
  rfl

theorem ownMethod?_eq (ht : t < ts.next) :
    G.ownMethod? (ts.name t) s = (ts.ownMethod? t s).map Overload.ret := by
  rw [Glossary.ownMethod?, h.interface t ht]
  exact Table.find?_map (ts.get t).methods Overload.ret s

/-! ### Attributes -/

theorem hasAttr_within (depth : Nat) (ht : t < ts.next) {attr type : String}
    (ha : ts.attrTypeWithin attr depth t = some type) : G.HasAttr (ts.name t) attr type := by
  induction depth generalizing t with
  | zero => cases ha
  | succ depth ih =>
    rw [attrTypeWithin] at ha
    have hI := h.interface t ht
    cases hown : (ts.get t).attributes.find? attr with
    | some a =>
      rw [hown] at ha
      cases ha
      refine .own hI ?_
      have hmap := Table.find?_map (ts.get t).attributes Attribute.type attr
      rw [hown] at hmap
      exact hmap
    | none =>
      rw [hown] at ha
      obtain ⟨p, hp, hattr⟩ := List.exists_of_findSome?_eq_some ha
      have hp' := List.mem_reverse.1 hp
      have hlt := lt_of_lt_of_le (h.parents_lt t ht p hp') (le_of_lt ht)
      exact .inherited hI (List.mem_map_of_mem hp') (ih hlt hattr)

theorem hasAttr (ht : t < ts.next) {attr type : String} (ha : ts.attrType? t attr = some type) :
    G.HasAttr (ts.name t) attr type :=
  h.hasAttr_within ts.entries.size ht ha

/-! ### Methods -/

omit h in
theorem join_eq (found hit : Option (TypeId × Overload)) :
    (ts.join t s found hit).map (Option.map ts.hitByName) =
      Glossary.join (ts.name t) s (found.map ts.hitByName) (hit.map ts.hitByName) := by
  cases hit with
  | none => cases found <;> rfl
  | some second =>
    cases found with
    | none => rfl
    | some first =>
      simp only [Types.join, Glossary.join, Option.map_some, hitByName]
      split <;> rfl

/-- The search among types and the search among their names go the same way. -/
theorem inheritedWithin_eq (depth : Nat) (ht : t < ts.next) (visited : List String) :
    (ts.inheritedWithin s depth t visited).map (Prod.map (Option.map ts.hitByName) id) =
      G.inheritedWithin s depth (ts.name t) visited := by
  induction depth generalizing t visited with
  | zero => rfl
  | succ depth ih =>
    rw [Types.inheritedWithin, Glossary.inheritedWithin, h.parents_eq ht]
    refine foldlM_map_state _ ts.name (fun p hp state => ?_) (none, visited)
    obtain ⟨found, visited⟩ := state
    have hp' : p < ts.next := lt_of_lt_of_le (h.parents_lt t ht p hp) (le_of_lt ht)
    dsimp only [Prod.map, id]
    by_cases hv : ts.name p ∈ visited
    · rw [if_pos hv, if_pos hv]
      rfl
    · rw [if_neg hv, if_neg hv, h.ownMethod?_eq hp']
      cases ts.ownMethod? p s with
      | some o =>
        change (ts.join t s found (some (p, o)) >>= fun found => pure (found, _)).map _ =
          Glossary.join _ s _ ((some (p, o)).map ts.hitByName) >>= fun found => pure (found, _)
        rw [← join_eq]
        cases ts.join t s found (some (p, o)) <;> rfl
      | none =>
        change (ts.inheritedWithin s depth p (ts.name p :: visited) >>= fun r =>
            ts.join t s found r.1 >>= fun found => pure (found, r.2)).map _ =
          G.inheritedWithin s depth (ts.name p) (ts.name p :: visited) >>= fun r =>
            Glossary.join _ s _ r.1 >>= fun found => pure (found, r.2)
        rw [← ih hp' (ts.name p :: visited)]
        cases ts.inheritedWithin s depth p (ts.name p :: visited) with
        | error c => rfl
        | ok r =>
          change (ts.join t s found r.1 >>= fun found => pure (found, r.2)).map _ =
            Glossary.join _ s _ (r.1.map ts.hitByName) >>= fun found => pure (found, r.2)
          rw [← join_eq]
          cases ts.join t s found r.1 <;> rfl

/-- The search for a method of a type that conforms finds what the glossary says. -/
theorem finds (ht : t < ts.next) (s : Signature) :
    G.Finds (ts.name t) s ((ts.findMethod t s).map (Option.map fun m => m.overload.ret)) := by
  refine ⟨ts.next, fun depth hdepth => ?_⟩
  unfold Glossary.findMethodWithin Types.findMethod
  rw [h.ownMethod?_eq ht]
  cases ts.ownMethod? t s with
  | some o => rfl
  | none =>
    have hstable := h.parentsOlder.inheritedWithin_stable (s := s) (lt_of_lt_of_le ht hdepth) ht
      [ts.name t]
    change (G.inheritedWithin s depth (ts.name t) [ts.name t]).map _ =
      ((ts.inheritedWithin s ts.next t [ts.name t]).map _).map _
    rw [← h.inheritedWithin_eq depth ht, hstable]
    rcases ts.inheritedWithin s ts.next t [ts.name t] with c | ⟨_ | _, visited⟩ <;> rfl

end Types.Conform

/-! ## Ancestors -/

namespace Types

variable {G : Glossary} {ts : Types} {t p : TypeId} {s : Signature}

/-- The type `p` is a parent of `t`, or a parent of a parent, and so on. -/
inductive Ancestor (ts : Types) : (t p : TypeId) → Prop
  | parent {t p : TypeId} (h : p ∈ (ts.get t).parents) : Ancestor ts t p
  | step {t q p : TypeId} (h : q ∈ (ts.get t).parents) (hq : Ancestor ts q p) : Ancestor ts t p

theorem Ancestor.hasAttr (h : ts.Conform G) (ha : ts.Ancestor t p) (ht : t < ts.next)
    {attr type : String} (hattr : G.HasAttr (ts.name p) attr type) :
    G.HasAttr (ts.name t) attr type := by
  induction ha with
  | parent hp => exact .inherited (h.interface _ ht) (List.mem_map_of_mem hp) hattr
  | step hq _ ih =>
    have hlt := lt_trans (h.parents_lt _ ht _ hq) ht
    exact .inherited (h.interface _ ht) (List.mem_map_of_mem hq) (ih hlt hattr)

theorem join_eq_ok {found hit : Option (TypeId × Overload)} {r : TypeId × Overload}
    (h : ts.join t s found hit = .ok (some r)) : found = some r ∨ hit = some r := by
  cases hit with
  | none =>
    cases found <;> cases h
    exact .inl rfl
  | some second =>
    cases found with
    | none =>
      cases h
      exact .inr rfl
    | some first =>
      rw [join] at h
      split at h <;> cases h
      exact .inl rfl

theorem ancestor_of_inheritedWithin (depth : Nat) {visited visited' : List String}
    {owner : TypeId} {o : Overload}
    (h : ts.inheritedWithin s depth t visited = .ok (some (owner, o), visited')) :
    ts.Ancestor t owner ∧ ts.ownMethod? owner s = some o := by
  induction depth generalizing t visited owner o visited' with
  | zero => cases h
  | succ depth ih =>
    let Q (state : Option (TypeId × Overload) × List String) : Prop :=
      ∀ hit, state.1 = some hit → ts.Ancestor t hit.1 ∧ ts.ownMethod? hit.1 s = some hit.2
    rw [inheritedWithin] at h
    refine foldlM_keeps (Q := Q) (fun p hp state state' hQ hstep => ?_) (fun _ h => by cases h) h
      (owner, o) rfl
    obtain ⟨found, visited⟩ := state
    -- what is found afterwards was found before or comes from this parent
    have hjoin {hit : Option (TypeId × Overload)} {v : List String}
        (hhit : ∀ r, hit = some r → ts.Ancestor t r.1 ∧ ts.ownMethod? r.1 s = some r.2)
        (hj : (ts.join t s found hit >>= fun found => pure (found, v)) = Except.ok state') :
        Q state' := by
      cases hr : ts.join t s found hit with
      | error c =>
        rw [hr] at hj
        cases hj
      | ok r =>
        rw [hr] at hj
        cases hj
        intro r' hr'
        obtain rfl : r = some r' := hr'
        exact (join_eq_ok hr).elim (hQ r') (hhit r')
    dsimp only at hstep
    split at hstep
    · cases hstep
      exact hQ
    · cases hown : ts.ownMethod? p s with
      | some o' =>
        rw [hown] at hstep
        refine hjoin (fun r hr => ?_) hstep
        cases hr
        exact ⟨.parent hp, hown⟩
      | none =>
        rw [hown] at hstep
        cases hrec : ts.inheritedWithin s depth p (ts.name p :: visited) with
        | error c =>
          rw [hrec] at hstep
          cases hstep
        | ok r =>
          rw [hrec] at hstep
          obtain ⟨hit, visited'⟩ := r
          refine hjoin (fun r hr => ?_) hstep
          subst hr
          obtain ⟨ha, ho⟩ := ih hrec
          exact ⟨.step hp ha, ho⟩

/-- The method that a signature stands for is declared by the type itself or by an ancestor. -/
theorem findMethod_eq_ok {m : MethodEntry} (h : ts.findMethod t s = .ok (some m)) :
    (m.inheritedFrom = none ∧ ts.ownMethod? t s = some m.overload) ∨
      ∃ owner, m.inheritedFrom = some owner ∧ ts.Ancestor t owner ∧
        ts.ownMethod? owner s = some m.overload := by
  unfold findMethod at h
  cases hown : ts.ownMethod? t s with
  | some o =>
    rw [hown] at h
    cases h
    exact .inl ⟨rfl, rfl⟩
  | none =>
    rw [hown] at h
    cases hrec : ts.inheritedWithin s ts.entries.size t [ts.name t] with
    | error c =>
      rw [hrec] at h
      cases h
    | ok r =>
      rw [hrec] at h
      obtain ⟨_ | ⟨owner, o⟩, visited⟩ := r
      · cases h
      · cases h
        exact .inr ⟨owner, rfl, ancestor_of_inheritedWithin _ hrec⟩

end Types

end Nominal
