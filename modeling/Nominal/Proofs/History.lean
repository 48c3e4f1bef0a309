import Nominal.Proofs.Lookup

/-!
# The history of scopes

Scopes are reached through handles. A handle is new, for a new scope, or copied from another handle,
and everything that is declared through one handle is seen through all handles of the scope. What a
look-up finds is told by the operations alone, without the scopes that they have changed.

* `Declaration`, `Shelf`: what can be declared, and the tables that declarations go into.
* `History`: operations on handles that exist.
* `History.build`: the scopes that the operations make, and the scope of each handle.
* `History.origin`, `History.outward`, `History.latest?`, `History.home?`: the scope of a handle,
  the way outwards, the latest declaration of a key and the scope where a look-up ends, all told by
  the operations.
* **`History.build_told`**: the scopes are as the operations tell.
* **`lookups_follow_history`**: what look-ups find, and that nothing else changes it.
-/

namespace Nominal

/-! ## Declarations -/

/-- A declaration, for one of the three tables of a scope. -/
inductive Declaration where
  | variable (name : String) (b : Binding)
  | type (name : String) (t : TypeId)
  | function (signature : Signature) (o : Overload)

namespace Declaration

/-- The scopes after a declaration in scope `n`. -/
def declare (d : Declaration) (s : Scopes) (n : ScopeId) : Scopes :=
  match d with
  | .variable name b => s.declareVariable n name b
  | .type name t => s.declareType n name t
  | .function signature o => s.declareFunction n signature o

/-- A scope after a declaration in it. -/
def into (d : Declaration) (c : Scope) : Scope :=
  match d with
  | .variable name b => { c with vars := c.vars.insert name b }
  | .type name t => { c with types := c.types.insert name t }
  | .function signature o => { c with functions := c.functions.insert signature o }

theorem declare_eq (d : Declaration) (s : Scopes) (n : ScopeId) :
    d.declare s n = s.modify n d.into := by
  cases d <;> rfl

theorem into_enclosing (d : Declaration) (c : Scope) : (d.into c).enclosing = c.enclosing := by
  cases d <;> rfl

/-- The entry of a declaration, if it declares a variable. -/
def asVariable : Declaration → Option (String × Binding)
  | .variable name b => some (name, b)
  | _ => none

/-- The entry of a declaration, if it declares a type. -/
def asType : Declaration → Option (String × TypeId)
  | .type name t => some (name, t)
  | _ => none

/-- The entry of a declaration, if it declares a function. -/
def asFunction : Declaration → Option (Signature × Overload)
  | .function signature o => some (signature, o)
  | _ => none

end Declaration

/-- One of the tables of a scope, and the entries that declarations make in it. -/
structure Shelf (κ α : Type) [DecidableEq κ] where
  table : Scope → Table κ α
  entry? : Declaration → Option (κ × α)
  table_empty : ∀ enclosing, table (.empty enclosing) = []
  table_into : ∀ d c, table (d.into c) =
    match entry? d with
    | some (key, a) => (table c).insert key a
    | none => table c

namespace Shelf

/-- The variables. -/
def vars : Shelf String Binding :=
  ⟨Scope.vars, Declaration.asVariable, fun _ => rfl, fun d _ => by cases d <;> rfl⟩

/-- The types. -/
def types : Shelf String TypeId :=
  ⟨Scope.types, Declaration.asType, fun _ => rfl, fun d _ => by cases d <;> rfl⟩

/-- The functions. -/
def functions : Shelf Signature Overload :=
  ⟨Scope.functions, Declaration.asFunction, fun _ => rfl, fun d _ => by cases d <;> rfl⟩

variable {κ α : Type} [DecidableEq κ]

theorem find?_into (F : Shelf κ α) (d : Declaration) (c : Scope) (key : κ) :
    (F.table (d.into c)).find? key =
      match F.entry? d with
      | some (k, a) => if k = key then some a else (F.table c).find? key
      | none => (F.table c).find? key := by
  rw [F.table_into]
  cases F.entry? d with
  | none => rfl
  | some e => exact Table.find?_insert (F.table c) e.1 key e.2

end Shelf

/-! ## Histories -/

/-- A sequence of operations after which there are `n` handles, numbered from zero. The operations
only use handles that exist. -/
inductive History : (n : Nat) → Type where
  | start : History 0
  | root {n : Nat} (H : History n) : History (n + 1)
  | child {n : Nat} (H : History n) (h : Fin n) : History (n + 1)
  | clone {n : Nat} (H : History n) (h : Fin n) : History (n + 1)
  | declare {n : Nat} (H : History n) (h : Fin n) (d : Declaration) : History n

/-- Scopes, and the scope of each handle. -/
structure Handles where
  scopes : Scopes
  scope : Nat → ScopeId

/-- Whether two handles stand for the same scope. -/
def Handles.sameScope (K : Handles) (g h : Nat) : Bool := K.scope g == K.scope h

namespace History

variable {n : Nat} {κ α : Type} [DecidableEq κ]

/-- The scopes that the operations make. -/
def build : {n : Nat} → History n → Handles
  | _, start => ⟨⟨#[]⟩, fun _ => 0⟩
  | _, @root n H =>
    ⟨H.build.scopes.root, fun i => if i = n then H.build.scopes.next else H.build.scope i⟩
  | _, @child n H h =>
    ⟨H.build.scopes.child (H.build.scope h),
      fun i => if i = n then H.build.scopes.next else H.build.scope i⟩
  | _, @clone n H h =>
    ⟨H.build.scopes, fun i => if i = n then H.build.scope h else H.build.scope i⟩
  | _, declare H h d => ⟨d.declare H.build.scopes (H.build.scope h), H.build.scope⟩

/-- The handle that was new for the scope of handle `i`: that one itself, or the one that it is a
copy of, or a copy of a copy, and so on. -/
def origin : {n : Nat} → History n → (i : Nat) → Nat
  | _, start, i => i
  | _, root H, i => H.origin i
  | _, child H _, i => H.origin i
  | _, @clone n H h, i => if i = n then H.origin h else H.origin i
  | _, declare H _ _, i => H.origin i

/-- The way from the scope of handle `i` outwards, each scope by its first handle. -/
def outward : {n : Nat} → History n → (i : Nat) → List Nat
  | _, start, _ => []
  | _, @root n H, i => if i = n then [n] else H.outward i
  | _, @child n H h, i => if i = n then n :: H.outward (H.origin h) else H.outward i
  | _, clone H _, i => H.outward i
  | _, declare H _ _, i => H.outward i

/-- The latest declaration of a key through any handle of the scope that was new with handle `i`. -/
def latest? (F : Shelf κ α) : {n : Nat} → History n → (i : Nat) → (key : κ) → Option α
  | _, start, _, _ => none
  | _, root H, i, key => H.latest? F i key
  | _, child H _, i, key => H.latest? F i key
  | _, clone H _, i, key => H.latest? F i key
  | _, declare H h d, i, key =>
    match F.entry? d with
    | some (k, a) => if k = key ∧ H.origin h = i then some a else H.latest? F i key
    | none => H.latest? F i key

/-- The first scope on the way outwards from that of handle `i` in which a key was ever declared. -/
def home? (F : Shelf κ α) (H : History n) (i : Nat) (key : κ) : Option Nat :=
  (H.outward (H.origin i)).find? fun j => (H.latest? F j key).isSome

/-- The latest declaration there. -/
def answer? (F : Shelf κ α) (H : History n) (i : Nat) (key : κ) : Option α :=
  (H.home? F i key).bind fun j => H.latest? F j key

/-! ## The scopes are as the operations tell -/

/-- What the operations tell about the scopes. -/
structure Told (F : Shelf κ α) (H : History n) : Prop where
  scope_lt : ∀ i < n, H.build.scope i < H.build.scopes.next
  origin_lt : ∀ i < n, H.origin i < n
  scope_origin : ∀ i < n, H.build.scope (H.origin i) = H.build.scope i
  origin_eq : ∀ i < n, ∀ j < n, H.build.scope i = H.build.scope j → H.origin i = H.origin j
  outward_lt : ∀ i < n, ∀ j ∈ H.outward (H.origin i), j < n ∧ H.origin j = j
  path_eq : ∀ i < n,
    H.build.scopes.path (H.build.scope i) = (H.outward (H.origin i)).map H.build.scope
  find_eq : ∀ i < n, ∀ key, (F.table (H.build.scopes.get (H.build.scope i))).find? key =
    H.latest? F (H.origin i) key
  /-- Handles that do not exist are their own, and nothing was declared through them. -/
  origin_of_le : ∀ i, n ≤ i → H.origin i = i
  latest_of_le : ∀ i, n ≤ i → ∀ key, H.latest? F i key = none

namespace Told

variable {F : Shelf κ α} {H : History n}

theorem start : History.start.Told F where
  scope_lt := by simp
  origin_lt := by simp
  scope_origin := by simp
  origin_eq := by simp
  outward_lt := by simp
  path_eq := by simp
  find_eq := by simp
  origin_of_le := by simp [origin]
  latest_of_le := by simp [latest?]

/-- A new scope comes with a new handle, and what stood before is as it was. -/
theorem opened {K : History (n + 1)} (around : List ScopeId) (way : List Nat) (t : H.Told F)
    (hscopes : K.build.scopes = H.build.scopes.openScope around)
    (hscope : ∀ i, K.build.scope i = if i = n then H.build.scopes.next else H.build.scope i)
    (horigin : ∀ i, K.origin i = H.origin i)
    (houtward : ∀ i, K.outward i = if i = n then n :: way else H.outward i)
    (hlatest : ∀ i key, K.latest? F i key = H.latest? F i key)
    (hway : ∀ j ∈ way, j < n ∧ H.origin j = j) (haround : around = way.map H.build.scope) :
    K.Told F := by
  have hnew : K.build.scope n = H.build.scopes.next := by simp [hscope]
  have hold {i : Nat} (hi : i < n) : K.build.scope i = H.build.scope i := by
    simp [hscope, Nat.ne_of_lt hi]
  have hown : H.origin n = n := t.origin_of_le n (le_refl n)
  have hget {i : Nat} (hi : i < n) :
      K.build.scopes.get (H.build.scope i) = H.build.scopes.get (H.build.scope i) := by
    rw [hscopes, Scopes.get_openScope, if_neg (Nat.ne_of_lt (t.scope_lt i hi))]
  have hmap {l : List Nat} (hl : ∀ j ∈ l, j < n) : l.map K.build.scope = l.map H.build.scope :=
    List.map_congr_left fun j hj => hold (hl j hj)
  have hnext : K.build.scopes.next = H.build.scopes.next + 1 := by
    rw [hscopes, Scopes.next_openScope]
  -- the scope of an old handle is not the new one
  have hne {i : Nat} (hi : i < n) : H.build.scope i ≠ H.build.scopes.next :=
    Nat.ne_of_lt (t.scope_lt i hi)
  have houtward' {i : Nat} (hi : i < n) : K.outward (K.origin i) = H.outward (H.origin i) := by
    rw [horigin, houtward, if_neg (Nat.ne_of_lt (t.origin_lt i hi))]
  have hcases {i : Nat} (hi : i < n + 1) : i < n ∨ i = n := by omega
  constructor
  case scope_lt =>
    intro i hi
    obtain hi | rfl := hcases hi
    · rw [hold hi, hnext]
      exact Nat.lt_succ_of_lt (t.scope_lt i hi)
    · rw [hnew, hnext]
      exact Nat.lt_succ_self _
  case origin_lt =>
    intro i hi
    rw [horigin]
    obtain hi | rfl := hcases hi
    · exact Nat.lt_succ_of_lt (t.origin_lt i hi)
    · rw [hown]
      exact Nat.lt_succ_self i
  case scope_origin =>
    intro i hi
    rw [horigin]
    obtain hi | rfl := hcases hi
    · rw [hold hi, hold (t.origin_lt i hi), t.scope_origin i hi]
    · rw [hown]
  case origin_eq =>
    intro i hi j hj heq
    rw [horigin, horigin]
    obtain hi | rfl := hcases hi <;> obtain hj | rfl := hcases hj
    · rw [hold hi, hold hj] at heq
      exact t.origin_eq i hi j hj heq
    · rw [hold hi, hnew] at heq
      exact absurd heq (hne hi)
    · rw [hold hj, hnew] at heq
      exact absurd heq.symm (hne hj)
    · rfl
  case outward_lt =>
    intro i hi j hj
    rw [horigin]
    obtain hi | rfl := hcases hi
    · rw [houtward' hi] at hj
      obtain ⟨hlt, hj⟩ := t.outward_lt i hi j hj
      exact ⟨Nat.lt_succ_of_lt hlt, hj⟩
    · rw [horigin, hown, houtward, if_pos rfl] at hj
      obtain rfl | hj := List.mem_cons.1 hj
      · exact ⟨Nat.lt_succ_self j, hown⟩
      · exact ⟨Nat.lt_succ_of_lt (hway j hj).1, (hway j hj).2⟩
  case path_eq =>
    intro i hi
    obtain hi | rfl := hcases hi
    · rw [houtward' hi, hmap fun j hj => (t.outward_lt i hi j hj).1, ← t.path_eq i hi, hold hi,
        Scopes.path, hget hi, Scopes.path]
    · rw [horigin, hown, houtward, if_pos rfl, List.map_cons, hmap fun j hj => (hway j hj).1, hnew,
        ← haround, Scopes.path, hscopes, Scopes.get_openScope, if_pos rfl]
      rfl
  case find_eq =>
    intro i hi key
    rw [horigin, hlatest]
    obtain hi | rfl := hcases hi
    · rw [hold hi, hget hi, t.find_eq i hi]
    · rw [hnew, hscopes, Scopes.get_openScope, if_pos rfl, F.table_empty, hown,
        t.latest_of_le i (le_refl i)]
      rfl
  case origin_of_le =>
    intro i hi
    rw [horigin, t.origin_of_le i (by omega)]
  case latest_of_le =>
    intro i hi key
    rw [hlatest, t.latest_of_le i (by omega)]

theorem root (t : H.Told F) : H.root.Told F :=
  opened [] [] t rfl (fun _ => rfl) (fun _ => rfl) (fun _ => rfl)
    (fun _ _ => rfl) (by simp) rfl

theorem child (t : H.Told F) (h : Fin n) : (H.child h).Told F :=
  opened _ _ t rfl (fun _ => rfl) (fun _ => rfl) (fun _ => rfl) (fun _ _ => rfl)
    (t.outward_lt h h.isLt) (t.path_eq h h.isLt)

/-- A copy of a handle stands for the scope of that handle. -/
theorem clone (t : H.Told F) (h : Fin n) : (H.clone h).Told F := by
  -- what is asked of the copy is asked of handle `h`
  let twin (i : Nat) : Nat := if i = n then h else i
  have hscope (i : Nat) : (H.clone h).build.scope i = H.build.scope (twin i) := by
    simp only [build, twin]
    split <;> rfl
  have horigin (i : Nat) : (H.clone h).origin i = H.origin (twin i) := by
    simp only [origin, twin]
    split <;> rfl
  have hlt {i : Nat} (hi : i < n + 1) : twin i < n := by
    have := h.isLt
    simp only [twin]
    split <;> omega
  have htwin {i : Nat} (hi : i < n) : twin i = i := if_neg (Nat.ne_of_lt hi)
  have hold {i : Nat} (hi : i < n) : (H.clone h).build.scope i = H.build.scope i := by
    rw [hscope, htwin hi]
  constructor
  case scope_lt =>
    intro i hi
    rw [hscope]
    exact t.scope_lt _ (hlt hi)
  case origin_lt =>
    intro i hi
    rw [horigin]
    exact Nat.lt_succ_of_lt (t.origin_lt _ (hlt hi))
  case scope_origin =>
    intro i hi
    rw [horigin, hold (t.origin_lt _ (hlt hi)), hscope]
    exact t.scope_origin _ (hlt hi)
  case origin_eq =>
    intro i hi j hj heq
    rw [hscope, hscope] at heq
    rw [horigin, horigin]
    exact t.origin_eq _ (hlt hi) _ (hlt hj) heq
  case outward_lt =>
    intro i hi j hj
    rw [horigin] at hj
    obtain ⟨hj', hown⟩ := t.outward_lt _ (hlt hi) j hj
    rw [horigin, htwin hj']
    exact ⟨Nat.lt_succ_of_lt hj', hown⟩
  case path_eq =>
    intro i hi
    have hway : ((H.clone h).outward (H.origin (twin i))).map (H.clone h).build.scope =
        (H.outward (H.origin (twin i))).map H.build.scope :=
      List.map_congr_left fun j hj => hold (t.outward_lt _ (hlt hi) j hj).1
    rw [hscope, horigin, hway]
    exact t.path_eq _ (hlt hi)
  case find_eq =>
    intro i hi key
    rw [hscope, horigin]
    exact t.find_eq _ (hlt hi) key
  case origin_of_le =>
    intro i hi
    rw [horigin, show twin i = i from if_neg (by omega), t.origin_of_le i (by omega)]
  case latest_of_le =>
    intro i hi key
    exact t.latest_of_le i (by omega) key

theorem declare (t : H.Told F) (h : Fin n) (d : Declaration) : (H.declare h d).Told F := by
  have hscopes : (H.declare h d).build.scopes =
      H.build.scopes.modify (H.build.scope h) d.into := d.declare_eq _ _
  constructor
  case scope_lt =>
    intro i hi
    rw [hscopes, Scopes.next_modify]
    exact t.scope_lt i hi
  case origin_lt => exact t.origin_lt
  case scope_origin => exact t.scope_origin
  case origin_eq => exact t.origin_eq
  case outward_lt => exact t.outward_lt
  case path_eq =>
    intro i hi
    rw [hscopes, Scopes.path_modify _ _ d.into_enclosing]
    exact t.path_eq i hi
  case find_eq =>
    intro i hi key
    have hsame : H.build.scope h = H.build.scope i ↔ H.origin h = H.origin i := by
      refine ⟨t.origin_eq h h.isLt i hi, fun heq => ?_⟩
      rw [← t.scope_origin h h.isLt, heq, t.scope_origin i hi]
    have hfind := t.find_eq i hi key
    change (F.table ((H.declare h d).build.scopes.get (H.build.scope i))).find? key =
      (H.declare h d).latest? F (H.origin i) key
    rw [hscopes, Scopes.get_modify, latest?]
    by_cases horigin : H.origin h = H.origin i
    · rw [if_pos ⟨hsame.2 horigin, t.scope_lt h h.isLt⟩, F.find?_into, hfind]
      simp only [horigin, and_true]
    · rw [if_neg fun hscope => horigin (hsame.1 hscope.1), hfind]
      simp only [horigin, and_false, if_false]
      split <;> rfl
  case origin_of_le => exact t.origin_of_le
  case latest_of_le =>
    intro i hi key
    have hne : H.origin h ≠ i := by
      have := t.origin_lt h h.isLt
      omega
    have hnone := t.latest_of_le i hi key
    simp only [latest?]
    split <;> simp [hne, hnone]

end Told

/-- **The scopes are as the operations tell.** -/
theorem build_told (F : Shelf κ α) (H : History n) : H.Told F := by
  induction H with
  | start => exact .start
  | root H ih => exact ih.root
  | child H h ih => exact ih.child h
  | clone H h ih => exact ih.clone h
  | declare H h d ih => exact ih.declare h d

/-! ## Look-ups -/

theorem find?_bind {β γ : Type} (f : β → Option γ) (l : List β) :
    ((l.find? fun b => (f b).isSome).bind f) = l.findSome? f := by
  induction l with
  | nil => rfl
  | cons b l ih =>
    rw [List.find?_cons, List.findSome?_cons]
    cases hb : f b with
    | none => simpa using ih
    | some c => simpa using hb

theorem answer?_eq (F : Shelf κ α) (H : History n) (i : Nat) (key : κ) :
    H.answer? F i key = (H.outward (H.origin i)).findSome? fun j => H.latest? F j key :=
  find?_bind _ _

/-- A look-up finds the latest declaration in the first scope where there is one. -/
theorem lookup_eq (F : Shelf κ α) (H : History n) (h : Fin n) (key : κ) :
    H.build.scopes.lookup F.table (H.build.scope h) key = H.answer? F h key := by
  have t := build_told F H
  rw [answer?_eq, Scopes.lookup, t.path_eq h h.isLt, List.findSome?_map]
  apply Scopes.findSome?_congr
  intro j hj
  obtain ⟨hlt, hown⟩ := t.outward_lt h h.isLt j hj
  rw [Function.comp_apply, t.find_eq j hlt, hown]

/-- An answer does not change with what lies behind the place where it is found. -/
theorem findSome?_eq_of_find? {β γ : Type} [DecidableEq β] {f g : β → Option γ} {x : β} {l : List β}
    (hsame : ∀ b, b ≠ x → g b = f b) (hx : (g x).isSome)
    (hhome : (l.find? fun b => (g b).isSome) ≠ some x) : l.findSome? g = l.findSome? f := by
  induction l with
  | nil => rfl
  | cons b l ih =>
    have hb : b ≠ x := by
      rintro rfl
      simp [hx] at hhome
    rw [List.findSome?_cons, List.findSome?_cons, hsame b hb]
    cases hf : f b with
    | some c => rfl
    | none =>
      apply ih
      rwa [List.find?_cons_of_neg (by simp [hsame b hb, hf])] at hhome

/-- A declaration of another key, in another table, or elsewhere than where the look-up ends does
not change the answer. -/
theorem answer?_declare (F : Shelf κ α) (H : History n) (g : Fin n) (d : Declaration) (i : Nat)
    (key : κ)
    (h : ∀ a, F.entry? d = some (key, a) → (H.declare g d).home? F i key ≠ some (H.origin g)) :
    (H.declare g d).answer? F i key = H.answer? F i key := by
  rw [answer?_eq, answer?_eq]
  by_cases hkey : ∃ a, F.entry? d = some (key, a)
  · obtain ⟨a, ha⟩ := hkey
    refine findSome?_eq_of_find? (x := H.origin g) (fun j hj => ?_) ?_ (h a ha)
    · simp [latest?, ha, Ne.symm hj]
    · simp [latest?, ha]
  · apply Scopes.findSome?_congr
    intro j _
    simp only [latest?]
    split
    · next k a ha =>
      have hk : k ≠ key := by
        rintro rfl
        exact hkey ⟨a, ha⟩
      simp [hk]
    · rfl

/-- What look-ups in one table find. -/
structure Answers (H : History n) (F : Shelf κ α) (lookup : Scopes → ScopeId → κ → Option α)
    (find : Scopes → ScopeId → κ → Except Cause α) (undefined : κ → Cause) : Prop where
  /-- The latest declaration in the first scope on the way outwards where the key was ever
  declared, through any handle, and nothing if there is no such scope. -/
  lookup_eq : ∀ (h : Fin n) (key : κ),
    lookup H.build.scopes (H.build.scope h) key =
      (H.home? F h key).bind fun i => H.latest? F i key
  find_eq : ∀ (h : Fin n) (key : κ),
    find H.build.scopes (H.build.scope h) key =
      match (H.home? F h key).bind fun i => H.latest? F i key with
      | some a => .ok a
      | none => .error (undefined key)
  unaffected : ∀ (h g : Fin n) (d : Declaration) (key : κ),
    (∀ a, F.entry? d = some (key, a) → (H.declare g d).home? F h key ≠ some (H.origin g)) →
      lookup (H.declare g d).build.scopes ((H.declare g d).build.scope h) key =
        lookup H.build.scopes (H.build.scope h) key

theorem answers (H : History n) (F : Shelf κ α) {lookup : Scopes → ScopeId → κ → Option α}
    {find : Scopes → ScopeId → κ → Except Cause α} {undefined : κ → Cause}
    (hlookup : lookup = Scopes.lookup F.table)
    (hfind : ∀ s i key, find s i key = match lookup s i key with
      | some a => .ok a
      | none => .error (undefined key)) : H.Answers F lookup find undefined := by
  subst hlookup
  refine ⟨H.lookup_eq F, fun h key => ?_, fun h g d key hother => ?_⟩
  · rw [hfind, H.lookup_eq F]
    rfl
  · rw [lookup_eq, lookup_eq, answer?_declare F H g d h key hother]

end History

/-- **Look-ups are told by the history.** A look-up through a handle finds the latest declaration in
the first scope on its way outwards where there is one, in each of the three tables apart from the
others; two handles stand for one scope if and only if they are copies of one handle. -/
theorem lookups_follow_history {n : Nat} (H : History n) :
    H.Answers .vars Scopes.lookupVariable Scopes.findVariable .undefinedVariable ∧
      H.Answers .types Scopes.lookupType Scopes.findType .undefinedType ∧
      H.Answers .functions Scopes.lookupFunction Scopes.findFunction .undefinedFunction ∧
      ∀ g h : Fin n, H.build.sameScope g h = true ↔ H.origin g = H.origin h := by
  refine ⟨H.answers .vars rfl fun s i key => ?_, H.answers .types rfl fun s i key => ?_,
    H.answers .functions rfl fun s i key => ?_, fun g h => ?_⟩
  · rw [Scopes.findVariable]
    cases s.lookupVariable i key <;> rfl
  · rw [Scopes.findType]
    cases s.lookupType i key <;> rfl
  · rw [Scopes.findFunction]
    cases s.lookupFunction i key <;> rfl
  · have t := H.build_told .vars
    rw [Handles.sameScope, beq_iff_eq]
    refine ⟨t.origin_eq g g.isLt h h.isLt, fun heq => ?_⟩
    rw [← t.scope_origin g g.isLt, heq, t.scope_origin h h.isLt]

/-- A root, a scope in it and a copy of the inner handle. A name is declared in the root and then,
through the copy, inside. -/
def History.shadowing : History 3 :=
  .declare (.clone (.child (.declare (.root .start) 0 (.variable "x" (.static "Int"))) 0) 1) 2
    (.variable "x" (.static "Bool"))

/-- The inner handle sees what was declared through its copy, and a new declaration in the root does
not change that. -/
theorem lookups_follow_history_shadowing :
    let H := History.shadowing
    let K := H.declare 0 (.variable "x" (.static "Text"))
    Scopes.findVariable H.build.scopes (H.build.scope 1) "x" = .ok (.static "Bool") ∧
      Scopes.findVariable H.build.scopes (H.build.scope 0) "x" = .ok (.static "Int") ∧
      Scopes.findFunction H.build.scopes (H.build.scope 1) (.function "x" []) =
        .error (.undefinedFunction (.function "x" [])) ∧
      Scopes.lookupVariable K.build.scopes (K.build.scope 1) "x" = some (.static "Bool") ∧
      H.build.sameScope 1 2 = true ∧ H.build.sameScope 0 2 = false := by
  intro H K
  obtain ⟨hvariables, -, hfunctions, hsame⟩ := lookups_follow_history H
  refine ⟨hvariables.find_eq 1 "x", hvariables.find_eq 0 "x", hfunctions.find_eq 1 _, ?_, ?_, ?_⟩
  · have hother : K.home? .vars 1 "x" ≠ some (H.origin 0) := by decide
    exact (hvariables.unaffected 1 0 _ "x" fun _ _ => hother).trans (hvariables.lookup_eq 1 "x")
  · exact (hsame 1 2).2 rfl
  · exact Bool.eq_false_iff.2 fun h => absurd ((hsame 0 2).1 h) (by decide)

end Nominal
