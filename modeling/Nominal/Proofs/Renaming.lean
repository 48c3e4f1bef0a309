import Mathlib.Data.List.Basic
import Nominal.Execution
import Nominal.Proofs.Inheritance

/-!
# Renamed scopes and types

Scopes and types are numbered in the order in which they come into being. If a program runs a second
time, or after others, what it adds gets larger numbers. So all numbers from a bound on are raised,
in everything that a world holds, and what is looked up in renamed types is what was looked up
before, renamed.

* `shift`, `Renaming`: numbers from a bound on are raised.
* `Renaming.value`, `Renaming.overload`, `Renaming.descriptor`: renamed parts of a world.
* `Renaming.CopiesTypes`: types that are others renamed.
* **`Renaming.CopiesTypes.findMethod`**, **`Renaming.CopiesTypes.blank`**: methods and blank
  instances of renamed types.
-/

namespace Nominal

/-- The numbers below a bound stay, the others are raised by an offset. -/
def shift (bound offset n : Nat) : Nat := if n < bound then n else n + offset

section Shift

variable {bound offset m n : Nat}

theorem shift_of_lt (h : n < bound) : shift bound offset n = n := if_pos h

theorem shift_of_le (h : bound ≤ n) : shift bound offset n = n + offset := if_neg (not_lt.2 h)

theorem shift_inj : shift bound offset m = shift bound offset n ↔ m = n := by
  unfold shift
  constructor
  · intro h
    split at h <;> split at h <;> omega
  · rintro rfl
    rfl

theorem shift_lt_iff {k : Nat} (hk : bound ≤ k) : shift bound offset n < k + offset ↔ n < k := by
  unfold shift
  split <;> omega

end Shift

/-- Scopes and types from a bound on get larger numbers. -/
structure Renaming where
  scopes : Nat
  /-- By how much the other scopes are raised. -/
  scopeOffset : Nat
  types : Nat
  /-- By how much the other types are raised. -/
  typeOffset : Nat

namespace Renaming

variable (ρ : Renaming)

/-! ## Renamed parts of a world -/

/-- A renamed scope. -/
def scope (n : ScopeId) : ScopeId := shift ρ.scopes ρ.scopeOffset n

/-- A renamed type. -/
def type (t : TypeId) : TypeId := shift ρ.types ρ.typeOffset t

mutual

/-- A renamed value. -/
def value (v : Value) : Value :=
  match v with
  | .plain t l => .plain (ρ.type t) l
  | .object t attributes => .object (ρ.type t) (values attributes)

/-- Renamed attributes of an object. -/
def values (attributes : List (String × Value)) : List (String × Value) :=
  match attributes with
  | [] => []
  | (name, v) :: rest => (name, value v) :: values rest

end

/-- A renamed binding. -/
def binding : Binding → Binding
  | .static type => .static type
  | .value v => .value (ρ.value v)

/-- A renamed callable: what a closure captures is renamed. -/
def callable : Callable → Callable
  | .closure params body n => .closure params body (ρ.scope n)
  | c => c

/-- A renamed entry of a function or method table. -/
def overload (o : Overload) : Overload := ⟨o.ret, ρ.callable o.callable⟩

/-- A renamed attribute. -/
def field (a : Attribute) : Attribute := ⟨a.type, a.default.map ρ.value⟩

/-- A renamed type with all that belongs to it. -/
def descriptor (d : Descriptor) : Descriptor where
  name := d.name
  primitive := d.primitive
  parents := d.parents.map ρ.type
  attributes := d.attributes.map fun (x, a) => (x, ρ.field a)
  methods := d.methods.map fun (s, o) => (s, ρ.overload o)

/-- A renamed method with its owner. -/
def hit (m : TypeId × Overload) : TypeId × Overload := (ρ.type m.1, ρ.overload m.2)

/-- A renamed method that was found. -/
def method (m : MethodEntry) : MethodEntry := ⟨m.inheritedFrom.map ρ.type, ρ.overload m.overload⟩

/-- A renamed end of a statement. -/
def flow : Flow → Flow
  | .returns v => .returns (v.map ρ.value)
  | f => f

variable {ρ}

theorem values_eq (l : List (String × Value)) :
    ρ.values l = l.map fun (x, v) => (x, ρ.value v) := by
  induction l with
  | nil => rfl
  | cons e l ih => rw [values, List.map_cons, ih]

@[simp] theorem type_value (v : Value) : (ρ.value v).type = ρ.type v.type := by
  cases v <;> rfl

theorem viewAs_value (t : TypeId) (v : Value) :
    (ρ.value v).viewAs (ρ.type t) = ρ.value (v.viewAs t) := by
  cases v <;> rfl

theorem attr?_value (name : String) (v : Value) :
    (ρ.value v).attr? name = (v.attr? name).map ρ.value := by
  cases v with
  | plain => rfl
  | object t attributes =>
    change Table.find? (ρ.values attributes) name = (Table.find? attributes name).map ρ.value
    rw [values_eq, Table.find?_map]

@[simp] theorem datum?_value (p : Primitive) (v : Value) : (ρ.value v).datum? p = v.datum? p := by
  cases v <;> rfl

/-! ## Numbers that stay and numbers that are raised -/

theorem scope_inj {m n : ScopeId} : ρ.scope m = ρ.scope n ↔ m = n := shift_inj

theorem type_inj {s t : TypeId} : ρ.type s = ρ.type t ↔ s = t := shift_inj

theorem scope_of_lt {n : ScopeId} (h : n < ρ.scopes) : ρ.scope n = n := shift_of_lt h

theorem type_of_lt {t : TypeId} (h : t < ρ.types) : ρ.type t = t := shift_of_lt h

theorem scope_of_le {n : ScopeId} (h : ρ.scopes ≤ n) : ρ.scope n = n + ρ.scopeOffset :=
  shift_of_le h

theorem type_of_le {t : TypeId} (h : ρ.types ≤ t) : ρ.type t = t + ρ.typeOffset := shift_of_le h

theorem map_eq_self {α : Type} {f : α → α} {l : List α} (h : ∀ a ∈ l, f a = a) : l.map f = l := by
  rw [List.map_congr_left h, List.map_id']

/-! ## Renamed types -/

/-- Types that are others renamed, with some more between the first ones and the rest. -/
structure CopiesTypes (ρ : Renaming) (ts ts' : Types) : Prop where
  bound : ρ.types ≤ ts.next
  next : ts'.next = ts.next + ρ.typeOffset
  get : ∀ t, ts'.get (ρ.type t) = ρ.descriptor (ts.get t)

end Renaming

/-! ### The depth of a search -/

namespace Types.ParentsOlder

variable {ts : Types} {t : TypeId} {s : Signature} {depth depth' : Nat} (h : ts.ParentsOlder)

include h

theorem defaultsWithin_stable (hd : t < depth) (hd' : t < depth') :
    ts.defaultsWithin depth t = ts.defaultsWithin depth' t := by
  induction t using Nat.strongRecOn generalizing depth depth' with
  | ind t ih =>
    obtain ⟨k, rfl⟩ := Nat.exists_eq_add_of_lt hd
    obtain ⟨l, rfl⟩ := Nat.exists_eq_add_of_lt hd'
    rw [Types.defaultsWithin, Types.defaultsWithin]
    congr 1
    refine List.foldl_ext _ _ _ fun attrs p hp => ?_
    rw [ih p (h t p hp) (lt_of_lt_of_le (h t p hp) (Nat.le_add_right t k))
      (lt_of_lt_of_le (h t p hp) (Nat.le_add_right t l))]

/-- The default attributes of a type, from any depth that no type exceeds. -/
theorem defaultsWithin_of_le (hd : ts.next ≤ depth) :
    ts.defaultsWithin depth t = ts.defaults t := by
  by_cases ht : t < ts.next
  · exact h.defaultsWithin_stable (lt_of_lt_of_le ht hd) ht
  · -- there is no such type, and so it inherits nothing
    have hnone (depth : Nat) : ts.defaultsWithin depth t = [] := by
      cases depth with
      | zero => rfl
      | succ depth => rw [Types.defaultsWithin, Types.get_of_le (not_lt.1 ht)]; rfl
    rw [Types.defaults, hnone, hnone]

theorem inheritedWithin_of_le (hd : ts.next ≤ depth) (visited : List String) :
    ts.inheritedWithin s depth t visited = ts.inheritedWithin s ts.next t visited := by
  by_cases ht : t < ts.next
  · exact h.inheritedWithin_stable (lt_of_lt_of_le ht hd) ht visited
  · have hnone (depth : Nat) : ts.inheritedWithin s depth t visited = .ok (none, visited) := by
      cases depth with
      | zero => rfl
      | succ depth => rw [Types.inheritedWithin, Types.get_of_le (not_lt.1 ht)]; rfl
    rw [hnone, hnone]

end Types.ParentsOlder

/-! ### What is looked up in renamed types -/

namespace Renaming.CopiesTypes

variable {ρ : Renaming} {ts ts' : Types} {t : TypeId} {s : Signature} (h : ρ.CopiesTypes ts ts')

include h

theorem next_le : ts.next ≤ ts'.next := h.next ▸ Nat.le_add_right _ _

theorem name (t : TypeId) : ts'.name (ρ.type t) = ts.name t := by
  rw [Types.name, h.get]
  rfl

theorem parents (t : TypeId) : (ts'.get (ρ.type t)).parents = (ts.get t).parents.map ρ.type := by
  rw [h.get]
  rfl

theorem ownMethod? (t : TypeId) (s : Signature) :
    ts'.ownMethod? (ρ.type t) s = (ts.ownMethod? t s).map ρ.overload := by
  rw [Types.ownMethod?, h.get]
  exact Table.find?_map (ts.get t).methods ρ.overload s

omit h in
theorem ownDefaults_descriptor (d : Descriptor) :
    Types.ownDefaults (ρ.descriptor d) = ρ.values (Types.ownDefaults d) := by
  obtain ⟨name, primitive, parents, attributes, methods⟩ := d
  simp only [descriptor, Types.ownDefaults, values_eq]
  induction attributes with
  | nil => rfl
  | cons e rest ih =>
    obtain ⟨x, ⟨type, default⟩⟩ := e
    rw [List.map_cons]
    cases default with
    | none => exact ih
    | some v => exact congrArg (List.cons (x, ρ.value v)) ih

omit h in
theorem values_union (t u : Table String Value) :
    ρ.values (Table.union t u) = Table.union (ρ.values t) (ρ.values u) := by
  induction u generalizing t with
  | nil => rfl
  | cons e u ih =>
    obtain ⟨x, v⟩ := e
    rw [Table.union_cons, ih, values, Table.union_cons]
    congr 1
    rw [values_eq, Table.map_insert, values_eq]

theorem defaultsWithin (depth : Nat) (t : TypeId) :
    ts'.defaultsWithin depth (ρ.type t) = ρ.values (ts.defaultsWithin depth t) := by
  induction depth generalizing t with
  | zero => rfl
  | succ depth ih =>
    have hfold (parents : List TypeId) (table : Table String Value) :
        (parents.map ρ.type).foldl
            (fun attrs p => Table.union attrs (ts'.defaultsWithin depth p)) (ρ.values table) =
          ρ.values (parents.foldl
            (fun attrs p => Table.union attrs (ts.defaultsWithin depth p)) table) := by
      induction parents generalizing table with
      | nil => rfl
      | cons p rest ihp => rw [List.map_cons, List.foldl_cons, ih, ← values_union, ihp]; rfl
    rw [Types.defaultsWithin, Types.defaultsWithin, h.parents, h.get, ownDefaults_descriptor,
      values_union, ← hfold]
    rfl

/-- **Blank instances of renamed types are renamed blank instances.** -/
theorem blank (holder : ts.ParentsOlder) (t : TypeId) :
    ts'.blank (ρ.type t) = ρ.value (ts.blank t) := by
  have hnext : ts.next ≤ ts'.entries.size := h.next_le
  rw [Types.blank, Types.defaults, h.defaultsWithin, holder.defaultsWithin_of_le hnext]
  rfl

theorem resemble (s : Signature) : ts.Resemble ts' s ρ.hit id fun t t' => ρ.type t = t' where
  owner hit hit' heq := by
    obtain rfl : ρ.hit hit = hit' := heq
    exact (h.name hit.1).symm
  name t t' ht := by rw [← ht, h.name]
  parents t t' ht := by
    rw [← ht, h.parents]
    exact List.forall₂_map_right_iff.2 (List.forall₂_same.2 fun _ _ => rfl)
  own t t' ht := by
    rw [← ht, h.ownMethod?]
    cases ts.ownMethod? t s <;> rfl

/-- The search among types and the search among renamed types go the same way. -/
theorem inheritedWithin (depth : Nat) (t : TypeId) (visited : List String) :
    (ts.inheritedWithin s depth t visited).map (Prod.map (Option.map ρ.hit) id) =
      ts'.inheritedWithin s depth (ρ.type t) visited := by
  rw [(h.resemble s).inheritedWithin depth rfl visited]
  rcases ts'.inheritedWithin s depth (ρ.type t) visited with c | ⟨_ | _, visited⟩ <;> rfl

/-- **Methods of renamed types are renamed methods.** -/
theorem findMethod (holder : ts.ParentsOlder) (t : TypeId) (s : Signature) :
    ts'.findMethod (ρ.type t) s = (ts.findMethod t s).map (Option.map ρ.method) := by
  have hnext : ts.next ≤ ts'.entries.size := h.next_le
  unfold Types.findMethod
  rw [h.ownMethod?]
  cases ts.ownMethod? t s with
  | some o => rfl
  | none =>
    change (ts'.inheritedWithin s ts'.entries.size (ρ.type t) [ts'.name (ρ.type t)]).map _ =
      ((ts.inheritedWithin s ts.next t [ts.name t]).map _).map _
    rw [h.name, ← h.inheritedWithin, holder.inheritedWithin_of_le hnext]
    rcases ts.inheritedWithin s ts.next t [ts.name t] with c | ⟨_ | _, visited⟩ <;> rfl

end Renaming.CopiesTypes

end Nominal
