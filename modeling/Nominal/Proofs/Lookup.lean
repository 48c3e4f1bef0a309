import Mathlib.Data.Nat.Basic
import Nominal.World

/-!
# Looking outwards through scopes

Scopes are nested: the scopes around a scope are older than it, and they are one scope and the
scopes around that one. A look-up therefore looks into the scope itself and then goes on from the
scope around it.

* `Scopes.Nested`: how scopes stand in each other.
* `Scopes.lookup_inside`, `Scopes.lookup_outermost`: a look-up, one scope at a time.
* **`Scopes.lookup_child`**: a new scope sees what is seen around it.
* **`Scopes.lookup_modify`**, `Scopes.lookup_modify_of_eq`: look-ups after a declaration.
-/

namespace Nominal

namespace Scopes

variable {κ α : Type} [DecidableEq κ] {table : Scope → Table κ α} {s : Scopes} {n m : ScopeId}

/-- A scope stands in no other one, or else in an older one and in all that this one stands in. -/
def Nested (s : Scopes) : Prop :=
  ∀ n, (s.get n).enclosing = [] ∨ ∃ m < n, (s.get n).enclosing = s.path m

theorem Nested.le_of_mem_path (h : s.Nested) : ∀ n, ∀ m ∈ s.path n, m ≤ n := by
  intro n
  induction n using Nat.strongRecOn with
  | ind n ih =>
    intro m hm
    obtain rfl | hm := List.mem_cons.1 hm
    · exact le_refl m
    · obtain h | ⟨k, hk, h⟩ := h n
      · rw [h] at hm
        cases hm
      · rw [h] at hm
        exact le_trans (ih k hk m hm) (le_of_lt hk)

theorem Nested.lt_of_mem_enclosing (h : s.Nested) (hm : m ∈ (s.get n).enclosing) : m < n := by
  obtain h' | ⟨k, hk, h'⟩ := h n
  · rw [h'] at hm
    cases hm
  · rw [h'] at hm
    exact lt_of_le_of_lt (h.le_of_mem_path k m hm) hk

/-! ### One scope at a time -/

theorem lookup_eq (table : Scope → Table κ α) (s : Scopes) (n : ScopeId) (key : κ) :
    s.lookup table n key = ((table (s.get n)).find? key).or
      ((s.get n).enclosing.findSome? fun m => (table (s.get m)).find? key) := by
  rw [lookup, path, List.findSome?_cons]
  cases (table (s.get n)).find? key <;> rfl

theorem lookup_outermost (table : Scope → Table κ α) (h : (s.get n).enclosing = []) (key : κ) :
    s.lookup table n key = (table (s.get n)).find? key := by
  rw [lookup_eq, h]
  exact Option.or_none

theorem lookup_inside (table : Scope → Table κ α) (h : (s.get n).enclosing = s.path m) (key : κ) :
    s.lookup table n key = ((table (s.get n)).find? key).or (s.lookup table m key) := by
  rw [lookup_eq, h]
  rfl

/-- What a look-up finds is an entry of one of the tables on its way. -/
theorem exists_of_lookup {key : κ} {a : α} (h : s.lookup table n key = some a) :
    ∃ m ∈ s.path n, (table (s.get m)).find? key = some a :=
  List.exists_of_findSome?_eq_some h

theorem findSome?_congr {f g : ScopeId → Option α} {l : List ScopeId} (h : ∀ m ∈ l, f m = g m) :
    l.findSome? f = l.findSome? g := by
  induction l with
  | nil => rfl
  | cons m l ih =>
    rw [List.findSome?_cons, List.findSome?_cons, h m List.mem_cons_self,
      ih fun k hk => h k (List.mem_cons_of_mem m hk)]

/-- Scopes with the same entries of a key on the way give the same answer. -/
theorem lookup_congr {s' : Scopes} {key : κ} (hp : s'.path n = s.path n)
    (ht : ∀ m ∈ s.path n, (table (s'.get m)).find? key = (table (s.get m)).find? key) :
    s'.lookup table n key = s.lookup table n key := by
  unfold lookup
  rw [hp]
  exact findSome?_congr ht

/-! ### New scopes -/

theorem get_of_le (h : s.next ≤ n) : s.get n = .empty [] := by
  rw [get_eq, Array.getElem?_eq_none h]
  rfl

theorem get_child_of_lt (h : m < s.next) : (s.child n).get m = s.get m := by
  rw [child, get_openScope, if_neg (Nat.ne_of_lt h)]

theorem path_child_of_lt (h : m < s.next) : (s.child n).path m = s.path m := by
  rw [path, path, get_child_of_lt h]

theorem get_child_self : (s.child n).get s.next = .empty (s.path n) := by
  rw [child, get_openScope, if_pos rfl]

theorem nested_child (h : s.Nested) (hn : n < s.next) : (s.child n).Nested := by
  intro m
  by_cases hm : m = s.next
  · subst hm
    refine .inr ⟨n, hn, ?_⟩
    rw [get_child_self, path_child_of_lt hn]
    rfl
  · have hget : (s.child n).get m = s.get m := by rw [child, get_openScope, if_neg hm]
    rw [hget]
    refine (h m).imp id ?_
    rintro ⟨k, hk, he⟩
    by_cases hk' : k < s.next
    · exact ⟨k, hk, by rw [he, path_child_of_lt hk']⟩
    · -- a scope that does not exist stands in no other
      rw [get_of_le (le_trans (not_lt.1 hk') (le_of_lt hk))] at he
      cases he

theorem lookup_child_of_lt (table : Scope → Table κ α) (h : s.Nested) (hm : m < s.next) (key : κ) :
    (s.child n).lookup table m key = s.lookup table m key := by
  refine lookup_congr (path_child_of_lt hm) fun k hk => ?_
  rw [get_child_of_lt (lt_of_le_of_lt (h.le_of_mem_path m k hk) hm)]

/-- **A new scope sees what is seen around it.** -/
theorem lookup_child (table : Scope → Table κ α) (ht : ∀ e, table (.empty e) = [])
    (h : s.Nested) (hn : n < s.next) (key : κ) :
    (s.child n).lookup table s.next key = s.lookup table n key := by
  have he : ((s.child n).get s.next).enclosing = (s.child n).path n := by
    rw [get_child_self, path_child_of_lt hn]
    rfl
  rw [lookup_inside table he, get_child_self, ht, lookup_child_of_lt table h hn]
  exact Option.none_or

/-! ### Declarations -/

theorem nested_modify (h : s.Nested) {f : Scope → Scope} (hf : ∀ c, (f c).enclosing = c.enclosing) :
    (s.modify n f).Nested := by
  intro m
  have he : ((s.modify n f).get m).enclosing = (s.get m).enclosing :=
    congrArg List.tail (path_modify s n hf m)
  rw [he]
  refine (h m).imp id ?_
  rintro ⟨k, hk, hm⟩
  exact ⟨k, hk, by rw [hm, path_modify s n hf]⟩

/-- A declaration does not concern other keys, nor the other tables. -/
theorem lookup_modify_of_eq (table : Scope → Table κ α) (f : Scope → Scope)
    (hf : ∀ c, (f c).enclosing = c.enclosing) {key : κ}
    (ht : ∀ c, (table (f c)).find? key = (table c).find? key) :
    (s.modify n f).lookup table m key = s.lookup table m key := by
  refine lookup_congr (path_modify s n hf m) fun k _ => ?_
  rw [get_modify]
  split
  · exact ht _
  · rfl

/-- **After a declaration its own scope sees the new entry of its table first.** -/
theorem lookup_modify (table : Scope → Table κ α) (h : s.Nested) (hn : n < s.next)
    (f : Scope → Scope)
    (hf : ∀ c, (f c).enclosing = c.enclosing) {key : κ} {a : α}
    (ht : ∀ c, table (f c) = (table c).insert key a) (k : κ) :
    (s.modify n f).lookup table n k = if key = k then some a else s.lookup table n k := by
  have henclosing : ((s.modify n f).get n).enclosing = (s.get n).enclosing :=
    congrArg List.tail (path_modify s n hf n)
  have hself : table ((s.modify n f).get n) = (table (s.get n)).insert key a := by
    rw [get_modify, if_pos ⟨rfl, hn⟩, ht]
  have hothers : (s.get n).enclosing.findSome? (fun m => (table ((s.modify n f).get m)).find? k) =
      (s.get n).enclosing.findSome? fun m => (table (s.get m)).find? k := by
    apply findSome?_congr
    intro m hm
    rw [get_modify, if_neg fun hnm => ne_of_lt (h.lt_of_mem_enclosing hm) hnm.1.symm]
  rw [lookup_eq, lookup_eq, henclosing, hself, hothers, Table.find?_insert]
  split
  · exact Option.some_or
  · rfl

/-! ### The three tables -/

section Tables

variable {name : String} {b : Binding} {t : TypeId} {f : Signature} {o : Overload}

theorem findType_eq_ok_iff : s.findType n name = .ok t ↔ s.lookupType n name = some t := by
  unfold findType
  cases s.lookupType n name <;> simp

@[simp] theorem lookupType_declareVariable (x : String) :
    (s.declareVariable n name b).lookupType m x = s.lookupType m x :=
  lookup_modify_of_eq Scope.types (fun c => { c with vars := c.vars.insert name b })
    (fun _ => rfl) (fun _ => rfl)

@[simp] theorem lookupFunction_declareVariable (x : Signature) :
    (s.declareVariable n name b).lookupFunction m x = s.lookupFunction m x :=
  lookup_modify_of_eq Scope.functions (fun c => { c with vars := c.vars.insert name b })
    (fun _ => rfl) (fun _ => rfl)

@[simp] theorem lookupVariable_declareType (x : String) :
    (s.declareType n name t).lookupVariable m x = s.lookupVariable m x :=
  lookup_modify_of_eq Scope.vars (fun c => { c with types := c.types.insert name t })
    (fun _ => rfl) (fun _ => rfl)

@[simp] theorem lookupFunction_declareType (x : Signature) :
    (s.declareType n name t).lookupFunction m x = s.lookupFunction m x :=
  lookup_modify_of_eq Scope.functions (fun c => { c with types := c.types.insert name t })
    (fun _ => rfl) (fun _ => rfl)

@[simp] theorem lookupVariable_declareFunction (x : String) :
    (s.declareFunction n f o).lookupVariable m x = s.lookupVariable m x :=
  lookup_modify_of_eq Scope.vars (fun c => { c with functions := c.functions.insert f o })
    (fun _ => rfl) (fun _ => rfl)

@[simp] theorem lookupType_declareFunction (x : String) :
    (s.declareFunction n f o).lookupType m x = s.lookupType m x :=
  lookup_modify_of_eq Scope.types (fun c => { c with functions := c.functions.insert f o })
    (fun _ => rfl) (fun _ => rfl)

theorem lookupType_declareType_of_ne {x : String} (hx : name ≠ x) :
    (s.declareType n name t).lookupType m x = s.lookupType m x :=
  lookup_modify_of_eq Scope.types (fun c => { c with types := c.types.insert name t })
    (fun _ => rfl) fun c => Table.find?_insert_of_ne c.types hx t

variable (h : s.Nested) (hn : n < s.next)

include h hn

theorem lookupVariable_declareVariable (x : String) :
    (s.declareVariable n name b).lookupVariable n x =
      if name = x then some b else s.lookupVariable n x :=
  lookup_modify Scope.vars h hn (fun c => { c with vars := c.vars.insert name b })
    (fun _ => rfl) (fun _ => rfl) x

theorem lookupType_declareType (x : String) :
    (s.declareType n name t).lookupType n x =
      if name = x then some t else s.lookupType n x :=
  lookup_modify Scope.types h hn (fun c => { c with types := c.types.insert name t })
    (fun _ => rfl) (fun _ => rfl) x

theorem lookupFunction_declareFunction (x : Signature) :
    (s.declareFunction n f o).lookupFunction n x =
      if f = x then some o else s.lookupFunction n x :=
  lookup_modify Scope.functions h hn (fun c => { c with functions := c.functions.insert f o })
    (fun _ => rfl) (fun _ => rfl) x

theorem lookupVariable_child (x : String) :
    (s.child n).lookupVariable s.next x = s.lookupVariable n x :=
  lookup_child Scope.vars (fun _ => rfl) h hn x

theorem lookupType_child (x : String) :
    (s.child n).lookupType s.next x = s.lookupType n x :=
  lookup_child Scope.types (fun _ => rfl) h hn x

theorem lookupFunction_child (x : Signature) :
    (s.child n).lookupFunction s.next x = s.lookupFunction n x :=
  lookup_child Scope.functions (fun _ => rfl) h hn x

end Tables

end Scopes

end Nominal
