import Mathlib.Data.Option.Basic
import Nominal.Check
import Nominal.Proofs.Inheritance
import Nominal.Proofs.Lookup
import Nominal.Proofs.Renaming

/-!
# Worlds that match

A check looks at types only. Two worlds match if they have scopes and types of the same shape, and
if everything has the same static type in both: a variable may have a static type in one world and a
value of that type in the other, a function may be builtin in one and a closure in the other, and an
attribute may have a default value in one of them only.

* `Table.Alike`: tables with the same keys and related entries.
* `Descriptor.Alike`, `Types.Match`: types that a check cannot tell apart.
* **`Types.Match.findMethod`**, **`Types.Match.attrType?`**: methods and attributes of such types.
* `Matching`, `Matching.Holds`: which scopes and types of two worlds correspond to each other.
* **`Matching.Holds.openChild`**, **`Matching.Holds.define`** and their like: changes of two worlds
  that match.
-/

namespace Nominal

/-! ## Tables -/

/-- The same keys, with related entries. -/
def Table.Alike {κ α β : Type} [DecidableEq κ] (R : α → β → Prop) (t : Table κ α) (u : Table κ β) :
    Prop :=
  ∀ key, Option.Rel R (t.find? key) (u.find? key)

namespace Table.Alike

variable {κ α β : Type} [DecidableEq κ] {R S : α → β → Prop} {t : Table κ α} {u : Table κ β}

theorem nil : Table.Alike R ([] : Table κ α) [] := fun _ => .none

theorem mono (h : Table.Alike R t u) (hRS : ∀ a b, R a b → S a b) : Table.Alike S t u := by
  intro key
  have hkey := h key
  generalize t.find? key = a, u.find? key = b at hkey
  cases hkey with
  | some hab => exact .some (hRS _ _ hab)
  | none => exact .none

theorem insert (h : Table.Alike R t u) (key : κ) {a : α} {b : β} (hab : R a b) :
    Table.Alike R (t.insert key a) (u.insert key b) := by
  intro k
  rw [find?_insert, find?_insert]
  split
  · exact .some hab
  · exact h k

end Table.Alike

theorem Option.rel_iff_map_eq {α β γ : Type} {f : α → γ} {g : β → γ} {a : Option α}
    {b : Option β} : Option.Rel (fun x y => f x = g y) a b ↔ a.map f = b.map g := by
  constructor
  · rintro (h | _)
    · exact congrArg some h
    · rfl
  · intro h
    cases a <;> cases b <;> first | exact .none | exact .some (Option.some.inj h) | cases h

/-- Related results, or the same error. -/
inductive ResultAlike {ε α β : Type} (Q : α → β → Prop) : Except ε α → Except ε β → Prop
  | ok {a : α} {b : β} (h : Q a b) : ResultAlike Q (.ok a) (.ok b)
  | error (e : ε) : ResultAlike Q (.error e) (.error e)

theorem ResultAlike.refl {ε α : Type} (r : Except ε α) : ResultAlike Eq r r := by
  cases r with
  | ok a => exact .ok rfl
  | error e => exact .error e

theorem ResultAlike.of_map_eq {ε α β γ : Type} {f : α → γ} {g : β → γ} {r : Except ε α}
    {r' : Except ε β} (h : r.map f = r'.map g) : ResultAlike (fun a b => f a = g b) r r' := by
  match r, r', h with
  | .ok _, .ok _, h => exact .ok (Except.ok.inj h)
  | .error e, .error _, h => exact Except.error.inj h ▸ .error e

theorem ResultAlike.mono {ε α β : Type} {Q Q' : α → β → Prop} {r : Except ε α} {r' : Except ε β}
    (h : ResultAlike Q r r') (hQ : ∀ a b, Q a b → Q' a b) : ResultAlike Q' r r' := by
  cases h with
  | ok h => exact .ok (hQ _ _ h)
  | error e => exact .error e

theorem ResultAlike.eq {ε α : Type} {r r' : Except ε α} (h : ResultAlike Eq r r') : r = r' := by
  cases h with
  | ok h => rw [h]
  | error e => rfl

/-! ## Types -/

/-- Types that a check cannot tell apart, up to their parents. -/
structure Descriptor.Alike (R : TypeId → TypeId → Prop) (d e : Descriptor) : Prop where
  name : d.name = e.name
  primitive : d.primitive = e.primitive
  parents : List.Forall₂ R d.parents e.parents
  attributes : Table.Alike (fun a b : Attribute => a.type = b.type) d.attributes e.attributes
  methods : Table.Alike (fun o o' : Overload => o.ret = o'.ret) d.methods e.methods

theorem Descriptor.Alike.mono {R R' : TypeId → TypeId → Prop} {d e : Descriptor}
    (h : d.Alike R e) (hR : ∀ t u, R t u → R' t u) : d.Alike R' e :=
  { h with parents := h.parents.imp hR }

/-- Related types exist, and a check cannot tell them apart. -/
structure Types.Match (R : TypeId → TypeId → Prop) (ts us : Types) : Prop where
  left_lt : ∀ t u, R t u → t < ts.next
  right_lt : ∀ t u, R t u → u < us.next
  alike : ∀ t u, R t u → (ts.get t).Alike R (us.get u)
  leftOlder : ts.ParentsOlder
  rightOlder : us.ParentsOlder

/-- Related types, and one more pair of them. -/
def withPair (R : Nat → Nat → Prop) (a b : Nat) : Nat → Nat → Prop :=
  fun m n => R m n ∨ m = a ∧ n = b

namespace Types

theorem get_add_of_lt {ts : Types} {t : TypeId} (ht : t < ts.next) (d : Descriptor) :
    (ts.add d).get t = ts.get t := by
  rw [get_add, if_neg (Nat.ne_of_lt ht)]

theorem get_add_self (ts : Types) (d : Descriptor) : (ts.add d).get ts.next = d := by
  rw [get_add, if_pos rfl]

theorem ParentsOlder.add {ts : Types} (h : ts.ParentsOlder) {d : Descriptor}
    (hd : ∀ q ∈ d.parents, q < ts.next) : (ts.add d).ParentsOlder := by
  intro t q hq
  rw [get_add] at hq
  split at hq
  · next ht => exact ht ▸ hd q hq
  · exact h t q hq

namespace Match

variable {R : TypeId → TypeId → Prop} {ts us : Types} {t u : TypeId} (h : ts.Match R us)

include h

theorem name (ht : R t u) : ts.name t = us.name u := (h.alike t u ht).name

theorem attrTypeWithin (attr : String) (depth : Nat) (ht : R t u) :
    ts.attrTypeWithin attr depth t = us.attrTypeWithin attr depth u := by
  induction depth generalizing t u with
  | zero => rfl
  | succ depth ih =>
    rw [Types.attrTypeWithin, Types.attrTypeWithin]
    have hparents : (ts.get t).parents.reverse.findSome? (ts.attrTypeWithin attr depth) =
        (us.get u).parents.reverse.findSome? (us.attrTypeWithin attr depth) :=
      findSome?_forall₂ <| (List.rel_reverse (h.alike t u ht).parents).imp fun p q hpq => ih hpq
    rw [hparents]
    have hattr := (h.alike t u ht).attributes attr
    generalize (ts.get t).attributes.find? attr = a, (us.get u).attributes.find? attr = b at hattr
    cases hattr with
    | some hab => exact congrArg some hab
    | none => rfl

/-- **Attributes of types that match have the same declared types.** -/
theorem attrType? (attr : String) (ht : R t u) : ts.attrType? t attr = us.attrType? u attr := by
  have hleft : t < max ts.next us.next := lt_of_lt_of_le (h.left_lt t u ht) (le_max_left ..)
  have hright : u < max ts.next us.next := lt_of_lt_of_le (h.right_lt t u ht) (le_max_right ..)
  calc
    ts.attrType? t attr = ts.attrTypeWithin attr (max ts.next us.next) t :=
      attrTypeWithin_stable h.leftOlder (h.left_lt t u ht) hleft
    _ = us.attrTypeWithin attr (max ts.next us.next) u := h.attrTypeWithin attr _ ht
    _ = us.attrType? u attr := attrTypeWithin_stable h.rightOlder hright (h.right_lt t u ht)

theorem ownMethod? (s : Signature) (ht : R t u) :
    Option.Rel (fun o o' : Overload => o.ret = o'.ret) (ts.ownMethod? t s) (us.ownMethod? u s) :=
  (h.alike t u ht).methods s

/-- Types that match resemble each other, as far as names and return types go. -/
theorem resemble (s : Signature) : ts.Resemble us s ts.hitByName us.hitByName R where
  owner hit hit' heq := congrArg Prod.fst heq
  name t u ht := h.name ht
  parents t u ht := (h.alike t u ht).parents
  own t u ht := by
    have hown := h.ownMethod? s ht
    have hname := h.name ht
    generalize ts.ownMethod? t s = o, us.ownMethod? u s = o' at hown
    cases hown with
    | some ho => exact congrArg some (Prod.ext hname ho)
    | none => rfl

/-- **Methods of types that match have the same return types.** -/
theorem findMethod (s : Signature) (ht : R t u) :
    (ts.findMethod t s).map (Option.map fun m => m.overload.ret) =
      (us.findMethod u s).map (Option.map fun m => m.overload.ret) := by
  have hleft : t < max ts.next us.next := lt_of_lt_of_le (h.left_lt t u ht) (le_max_left ..)
  have hright : u < max ts.next us.next := lt_of_lt_of_le (h.right_lt t u ht) (le_max_right ..)
  have hinherited := (h.resemble s).inheritedWithin (max ts.next us.next) ht [us.name u]
  rw [h.leftOlder.inheritedWithin_stable hleft (h.left_lt t u ht),
    h.rightOlder.inheritedWithin_stable hright (h.right_lt t u ht), ← h.name ht] at hinherited
  have hown := h.ownMethod? s ht
  unfold Types.findMethod
  generalize ts.ownMethod? t s = o, us.ownMethod? u s = o' at hown
  cases hown with
  | some ho => exact congrArg (fun ret => Except.ok (some ret)) ho
  | none =>
    -- what is seen of a hit tells the return type
    have hret := congrArg (Except.map fun r : Option (String × String) × List String =>
      r.1.map Prod.snd) hinherited
    rw [← h.name ht]
    change ((ts.inheritedWithin s ts.next t [ts.name t]).map _).map _ =
      ((us.inheritedWithin s us.next u [ts.name t]).map _).map _
    generalize ts.inheritedWithin s ts.next t [ts.name t] = r,
      us.inheritedWithin s us.next u [ts.name t] = r' at hret
    rcases r with c | ⟨_ | _, _⟩ <;> rcases r' with c' | ⟨_ | _, _⟩ <;> exact hret

theorem add {d e : Descriptor} (hd : d.Alike R e) :
    (ts.add d).Match (withPair R ts.next us.next) (us.add e) where
  left_lt t u ht := by
    rw [next_add]
    obtain ht | ⟨rfl, -⟩ := ht
    · exact Nat.lt_succ_of_lt (h.left_lt t u ht)
    · exact Nat.lt_succ_self _
  right_lt t u ht := by
    rw [next_add]
    obtain ht | ⟨-, rfl⟩ := ht
    · exact Nat.lt_succ_of_lt (h.right_lt t u ht)
    · exact Nat.lt_succ_self _
  alike t u ht := by
    obtain ht | ⟨rfl, rfl⟩ := ht
    · rw [get_add_of_lt (h.left_lt t u ht), get_add_of_lt (h.right_lt t u ht)]
      exact (h.alike t u ht).mono fun _ _ => .inl
    · rw [get_add_self, get_add_self]
      exact hd.mono fun _ _ => .inl
  leftOlder := h.leftOlder.add
    ((List.forall₂_and_left _ _).1 (hd.parents.imp fun p q hpq => ⟨h.left_lt p q hpq, hpq⟩)).1
  rightOlder := h.rightOlder.add
    ((List.forall₂_and_left _ _).1 (hd.parents.flip.imp fun q p hpq => ⟨h.right_lt p q hpq, hpq⟩)).1

end Match

end Types

/-! ## Worlds -/

/-- The static type of a variable. -/
def Binding.typeIn (ts : Types) : Binding → String
  | .static type => type
  | .value v => ts.name v.type

theorem World.bindingType_eq (w : World) (b : Binding) : w.bindingType b = b.typeIn w.types := by
  cases b <;> rfl

/-- Variables have the same static type, and their values are of types that exist. -/
structure Binding.Alike (ts us : Types) (b c : Binding) : Prop where
  type : b.typeIn ts = c.typeIn us
  left_lt : ∀ v, b = .value v → v.type < ts.next
  right_lt : ∀ v, c = .value v → v.type < us.next

theorem Binding.Alike.static (ts us : Types) (type : String) :
    Binding.Alike ts us (.static type) (.static type) :=
  ⟨rfl, nofun, nofun⟩

theorem Binding.typeIn_add {ts : Types} {b : Binding} (hb : ∀ v, b = .value v → v.type < ts.next)
    (d : Descriptor) : b.typeIn (ts.add d) = b.typeIn ts := by
  cases b with
  | static type => rfl
  | value v => exact congrArg Descriptor.name (Types.get_add_of_lt (hb v rfl) d)

theorem Binding.Alike.add {ts us : Types} {b c : Binding} (h : Binding.Alike ts us b c)
    (d e : Descriptor) : Binding.Alike (ts.add d) (us.add e) b c where
  type := by rw [typeIn_add h.left_lt, typeIn_add h.right_lt, h.type]
  left_lt v hv := lt_trans (h.left_lt v hv) ((Types.next_add ..).symm ▸ Nat.lt_succ_self _)
  right_lt v hv := lt_trans (h.right_lt v hv) ((Types.next_add ..).symm ▸ Nat.lt_succ_self _)

/-- Which scopes and which types of two worlds correspond to each other. -/
structure Matching where
  scopes : ScopeId → ScopeId → Prop
  types : TypeId → TypeId → Prop

/-- Scopes that a check cannot tell apart, up to the scopes around them and the types in them. -/
structure Scope.Alike (M : Matching) (ts us : Types) (c c' : Scope) : Prop where
  enclosing : List.Forall₂ M.scopes c.enclosing c'.enclosing
  vars : Table.Alike (Binding.Alike ts us) c.vars c'.vars
  types : Table.Alike M.types c.types c'.types
  functions : Table.Alike (fun o o' : Overload => o.ret = o'.ret) c.functions c'.functions

namespace Matching

/-- One correspondence contains another one. -/
structure Le (M M' : Matching) : Prop where
  scopes : ∀ m n, M.scopes m n → M'.scopes m n
  types : ∀ t u, M.types t u → M'.types t u

theorem Le.refl (M : Matching) : M.Le M := ⟨fun _ _ => id, fun _ _ => id⟩

theorem Le.trans {M₁ M₂ M₃ : Matching} (h : M₁.Le M₂) (h' : M₂.Le M₃) : M₁.Le M₃ :=
  ⟨fun m n hm => h'.scopes m n (h.scopes m n hm), fun t u ht => h'.types t u (h.types t u ht)⟩

/-- The correspondence is one-to-one on scopes that exist, and a check cannot tell apart what
corresponds to each other. -/
structure Holds (M : Matching) (w w' : World) : Prop where
  types : w.types.Match M.types w'.types
  scopes : ∀ m n, M.scopes m n → (w.scopes.get m).Alike M w.types w'.types (w'.scopes.get n)
  scopes_lt : ∀ m n, M.scopes m n → m < w.scopes.next ∧ n < w'.scopes.next
  oneToOne : ∀ m n k l, M.scopes m n → M.scopes k l → (m = k ↔ n = l)

/-- The correspondence, with a new scope on each side. -/
def withScopes (M : Matching) (w w' : World) : Matching :=
  { M with scopes := withPair M.scopes w.scopes.next w'.scopes.next }

/-- The correspondence, with a new type on each side. -/
def withTypes (M : Matching) (w w' : World) : Matching :=
  { M with types := withPair M.types w.types.next w'.types.next }

variable {M : Matching} {w w' : World}

theorem le_withScopes : M.Le (M.withScopes w w') := ⟨fun _ _ => .inl, fun _ _ => id⟩

theorem le_withTypes : M.Le (M.withTypes w w') := ⟨fun _ _ => id, fun _ _ => .inl⟩

end Matching

/-- What plain calls stand for, with the same return type. -/
inductive Target.Alike (M : Matching) : Target → Target → Prop
  | function {o o' : Overload} (h : o.ret = o'.ret) : Target.Alike M (.function o) (.function o')
  | construct {t u : TypeId} (h : M.types t u) : Target.Alike M (.construct t) (.construct u)
  | constructWith {t u : TypeId} {o o' : Overload} (h : o.ret = o'.ret) :
    Target.Alike M (.constructWith t o) (.constructWith u o')

theorem Scope.Alike.mono {M M' : Matching} {ts us ts' us' : Types} {c c' : Scope}
    (h : c.Alike M ts us c') (hle : M.Le M')
    (hb : ∀ b b', Binding.Alike ts us b b' → Binding.Alike ts' us' b b') :
    c.Alike M' ts' us' c' where
  enclosing := h.enclosing.imp hle.scopes
  vars := h.vars.mono hb
  types := h.types.mono hle.types
  functions := h.functions

namespace Matching.Holds

variable {M : Matching} {w w' : World} {n n' : ScopeId} (h : M.Holds w w')

include h

/-! ### Changes -/

/-- One scope is changed on each side, and a check cannot tell the changes apart. -/
theorem modify (hn : M.scopes n n') {f f' : Scope → Scope}
    (hf : ∀ c c', c.Alike M w.types w'.types c' → (f c).Alike M w.types w'.types (f' c')) :
    M.Holds { w with scopes := w.scopes.modify n f }
      { w' with scopes := w'.scopes.modify n' f' } where
  types := h.types
  scopes m m' hm := by
    have halike := h.scopes m m' hm
    have hiff := h.oneToOne n n' m m' hn hm
    rw [Scopes.get_modify, Scopes.get_modify]
    by_cases heq : n = m
    · rw [if_pos ⟨heq, (h.scopes_lt n n' hn).1⟩, if_pos ⟨hiff.1 heq, (h.scopes_lt n n' hn).2⟩]
      exact hf _ _ halike
    · rw [if_neg fun hand => heq hand.1, if_neg fun hand => heq (hiff.2 hand.1)]
      exact halike
  scopes_lt m m' hm := by
    rw [Scopes.next_modify, Scopes.next_modify]
    exact h.scopes_lt m m' hm
  oneToOne := h.oneToOne

theorem declareVariable (hn : M.scopes n n') (name : String) {b b' : Binding}
    (hb : Binding.Alike w.types w'.types b b') :
    M.Holds (w.declareVariable n name b) (w'.declareVariable n' name b') :=
  h.modify hn fun _ _ hc => { hc with vars := hc.vars.insert name hb }

theorem declareType (hn : M.scopes n n') (name : String) {t u : TypeId} (ht : M.types t u) :
    M.Holds (w.declareType n name t) (w'.declareType n' name u) :=
  h.modify hn fun _ _ hc => { hc with types := hc.types.insert name ht }

theorem declareFunction (hn : M.scopes n n') (s : Signature) {o o' : Overload}
    (ho : o.ret = o'.ret) : M.Holds (w.declareFunction n s o) (w'.declareFunction n' s o') :=
  h.modify hn fun _ _ hc => { hc with functions := hc.functions.insert s ho }

theorem path (hn : M.scopes n n') :
    List.Forall₂ M.scopes (w.scopes.path n) (w'.scopes.path n') :=
  .cons hn (h.scopes n n' hn).enclosing

/-- **A new scope on each side.** -/
theorem openChild (hn : M.scopes n n') :
    (M.withScopes w w').Holds (w.openChild n) (w'.openChild n') where
  types := h.types
  scopes m m' hm := by
    obtain hm | ⟨rfl, rfl⟩ := hm
    · change ((w.scopes.child n).get m).Alike _ _ _ ((w'.scopes.child n').get m')
      rw [Scopes.get_child_of_lt (h.scopes_lt m m' hm).1,
        Scopes.get_child_of_lt (h.scopes_lt m m' hm).2]
      exact (h.scopes m m' hm).mono le_withScopes fun _ _ => id
    · change ((w.scopes.child n).get w.scopes.next).Alike _ _ _
        ((w'.scopes.child n').get w'.scopes.next)
      rw [Scopes.get_child_self, Scopes.get_child_self]
      exact ⟨(h.path hn).imp fun _ _ => .inl, .nil, .nil, .nil⟩
  scopes_lt m m' hm := by
    change m < (w.scopes.child n).next ∧ m' < (w'.scopes.child n').next
    rw [Scopes.child, Scopes.child, Scopes.next_openScope, Scopes.next_openScope]
    obtain hm | ⟨rfl, rfl⟩ := hm
    · exact (h.scopes_lt m m' hm).imp Nat.lt_succ_of_lt Nat.lt_succ_of_lt
    · exact ⟨Nat.lt_succ_self _, Nat.lt_succ_self _⟩
  oneToOne m m' k k' hm hk := by
    obtain hm | ⟨rfl, rfl⟩ := hm <;> obtain hk | ⟨rfl, rfl⟩ := hk
    · exact h.oneToOne m m' k k' hm hk
    · have hlt := h.scopes_lt m m' hm
      exact iff_of_false (Nat.ne_of_lt hlt.1) (Nat.ne_of_lt hlt.2)
    · have hlt := h.scopes_lt k k' hk
      exact iff_of_false (Nat.ne_of_gt hlt.1) (Nat.ne_of_gt hlt.2)
    · exact iff_of_true rfl rfl

theorem addType {d e : Descriptor} (hd : d.Alike M.types e) :
    (M.withTypes w w').Holds (w.addType d) (w'.addType e) where
  types := h.types.add hd
  scopes m n hm := (h.scopes m n hm).mono le_withTypes fun _ _ hb => hb.add d e
  scopes_lt := h.scopes_lt
  oneToOne := h.oneToOne

/-- **A new type on each side, under the same name.** -/
theorem define (hn : M.scopes n n') {d e : Descriptor} (hd : d.Alike M.types e) (name : String) :
    (M.withTypes w w').Holds ((w.addType d).declareType n name w.types.next)
      ((w'.addType e).declareType n' name w'.types.next) :=
  (h.addType hd).declareType hn name (.inr ⟨rfl, rfl⟩)

/-! ### Look-ups -/

omit h in
theorem lookup_alike {κ α : Type} [DecidableEq κ] {table : Scope → Table κ α} {R : α → α → Prop}
    {s s' : Scopes} (hpath : List.Forall₂ M.scopes (s.path n) (s'.path n'))
    (htable : ∀ m m', M.scopes m m' → Table.Alike R (table (s.get m)) (table (s'.get m')))
    (key : κ) : Option.Rel R (Scopes.lookup table s n key) (Scopes.lookup table s' n' key) := by
  unfold Scopes.lookup
  generalize s.path n = path, s'.path n' = path' at hpath
  induction hpath with
  | nil => exact .none
  | cons hm _ ih =>
    rw [List.findSome?_cons, List.findSome?_cons]
    have hfind := htable _ _ hm key
    generalize (table (s.get _)).find? key = a, (table (s'.get _)).find? key = b at hfind
    cases hfind with
    | some hab => exact .some hab
    | none => exact ih

theorem findVariable (hn : M.scopes n n') (name : String) :
    ResultAlike (Binding.Alike w.types w'.types) (w.scopes.findVariable n name)
      (w'.scopes.findVariable n' name) := by
  have hfind : Option.Rel _ (w.scopes.lookupVariable n name) (w'.scopes.lookupVariable n' name) :=
    lookup_alike (h.path hn) (fun m m' hm => (h.scopes m m' hm).vars) name
  unfold Scopes.findVariable
  generalize w.scopes.lookupVariable n name = b, w'.scopes.lookupVariable n' name = b' at hfind
  cases hfind with
  | some hb => exact .ok hb
  | none => exact .error _

theorem lookupType (hn : M.scopes n n') (name : String) :
    Option.Rel M.types (w.scopes.lookupType n name) (w'.scopes.lookupType n' name) :=
  lookup_alike (h.path hn) (fun m m' hm => (h.scopes m m' hm).types) name

theorem findType (hn : M.scopes n n') (name : String) :
    ResultAlike M.types (w.scopes.findType n name) (w'.scopes.findType n' name) := by
  have hfind := h.lookupType hn name
  unfold Scopes.findType
  generalize w.scopes.lookupType n name = t, w'.scopes.lookupType n' name = u at hfind
  cases hfind with
  | some ht => exact .ok ht
  | none => exact .error _

theorem findFunction (hn : M.scopes n n') (s : Signature) :
    ResultAlike (fun o o' => o.ret = o'.ret) (w.scopes.findFunction n s)
      (w'.scopes.findFunction n' s) := by
  have hfind : Option.Rel _ (w.scopes.lookupFunction n s) (w'.scopes.lookupFunction n' s) :=
    lookup_alike (h.path hn) (fun m m' hm => (h.scopes m m' hm).functions) s
  unfold Scopes.findFunction
  generalize w.scopes.lookupFunction n s = o, w'.scopes.lookupFunction n' s = o' at hfind
  cases hfind with
  | some ho => exact .ok ho
  | none => exact .error _

theorem resolveName (hn : M.scopes n n') (name : String) :
    w.resolveName n name = w'.resolveName n' name := by
  have hfind := h.findType hn name
  unfold World.resolveName
  generalize w.scopes.findType n name = r, w'.scopes.findType n' name = r' at hfind
  cases hfind with
  | ok ht => exact congrArg Except.ok (h.types.name ht)
  | error => rfl

theorem typeNamed (hn : M.scopes n n') (defining : Option String) (name : String) :
    w.typeNamed n defining name = w'.typeNamed n' defining name := by
  rw [World.typeNamed, World.typeNamed, h.resolveName hn]

theorem findMethod {t u : TypeId} (ht : M.types t u) (s : Signature) :
    ResultAlike (Option.Rel fun m m' : MethodEntry => m.overload.ret = m'.overload.ret)
      (w.types.findMethod t s) (w'.types.findMethod u s) := by
  exact (ResultAlike.of_map_eq (h.types.findMethod s ht)).mono fun _ _ => Option.rel_iff_map_eq.2

/-- **What an operator stands for returns the same type.** -/
theorem resolveOperator (hn : M.scopes n n') {t u : TypeId} (ht : M.types t u)
    (method function : Signature) :
    ResultAlike (fun r r' => r.overload.ret = r'.overload.ret)
      (w.resolveOperator n t method function) (w'.resolveOperator n' u method function) := by
  have hmethod := h.findMethod ht method
  have hfunction := h.findFunction hn function
  unfold World.resolveOperator
  generalize w.types.findMethod t method = r, w'.types.findMethod u method = r' at hmethod
  generalize w.scopes.findFunction n function = o, w'.scopes.findFunction n' function = o'
    at hfunction
  cases hmethod with
  | error c => exact .error c
  | ok hm =>
    cases hm with
    | some hret => exact .ok hret
    | none =>
      cases hfunction with
      | ok ho => exact .ok ho
      | error c => exact .error c

theorem resolveBinary (hn : M.scopes n n') {t u : TypeId} (ht : M.types t u) (op : BinaryOp)
    (right : String) :
    ResultAlike (fun r r' => r.overload.ret = r'.overload.ret) (w.resolveBinary n op t right)
      (w'.resolveBinary n' op u right) := by
  rw [World.resolveBinary, World.resolveBinary, h.types.name ht]
  exact h.resolveOperator hn ht _ _

theorem resolveUnary (hn : M.scopes n n') {t u : TypeId} (ht : M.types t u) (op : UnaryOp) :
    ResultAlike (fun r r' => r.overload.ret = r'.overload.ret) (w.resolveUnary n op t)
      (w'.resolveUnary n' op u) := by
  rw [World.resolveUnary, World.resolveUnary, h.types.name ht]
  exact h.resolveOperator hn ht _ _

theorem resolveMethod {t u : TypeId} (ht : M.types t u) (method : String) (args : List String) :
    ResultAlike (fun r r' => r.overload.ret = r'.overload.ret) (w.resolveMethod t method args)
      (w'.resolveMethod u method args) := by
  have hmethod := h.findMethod ht (.method method args)
  unfold World.resolveMethod
  rw [h.types.name ht]
  dsimp only
  generalize w.types.findMethod t _ = r, w'.types.findMethod u _ = r' at hmethod
  cases hmethod with
  | error c => exact .error c
  | ok hm =>
    cases hm with
    | some hret => exact .ok hret
    | none => exact .error _

/-- **What a plain call stands for.** -/
theorem resolveCall (hn : M.scopes n n') (callee : String) (args : List String) :
    ResultAlike (Target.Alike M) (w.resolveCall n callee args) (w'.resolveCall n' callee args) := by
  have htype := h.lookupType hn callee
  have hfunction := h.findFunction hn (.function callee args)
  unfold World.resolveCall
  generalize w.scopes.lookupType n callee = t, w'.scopes.lookupType n' callee = u at htype
  cases htype with
  | none =>
    generalize w.scopes.findFunction n _ = o, w'.scopes.findFunction n' _ = o' at hfunction
    cases hfunction with
    | ok ho => exact .ok (.function ho)
    | error c => exact .error c
  | some ht =>
    dsimp only
    split
    · exact .ok (.construct ht)
    · have hinit := h.types.ownMethod? (.constructor args) ht
      rw [h.types.name ht]
      generalize w.types.ownMethod? _ _ = o, w'.types.ownMethod? _ _ = o' at hinit
      cases hinit with
      | some ho => exact .ok (.constructWith ho)
      | none => exact .error _

theorem returnType {target target' : Target} (ht : target.Alike M target') :
    w.returnType target = w'.returnType target' := by
  cases ht with
  | function ho => exact ho
  | construct ht => exact h.types.name ht
  | constructWith ho => exact ho

end Matching.Holds

end Nominal
