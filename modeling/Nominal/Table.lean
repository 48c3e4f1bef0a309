/-!
# Finite maps

* `Table`: a finite map as the list of its entries, in the order of their first insertion.
* `Table.find?`, `Table.insert`, `Table.union`: look-up, and insertion that replaces.
* **`Table.find?_insert`**, **`Table.find?_union`**: what a look-up finds afterwards.
* **`Table.nodup_keys_insert`**: no key occurs twice.
-/

namespace Nominal

/-- A finite map as the list of its entries. -/
abbrev Table (κ α : Type) : Type := List (κ × α)

namespace Table

variable {κ α : Type}

/-- The keys, in the order of their first insertion. -/
def keys (t : Table κ α) : List κ := t.map Prod.fst

@[simp] theorem keys_nil : keys ([] : Table κ α) = [] := rfl

@[simp] theorem keys_cons (e : κ × α) (t : Table κ α) : keys (e :: t) = e.1 :: keys t := rfl

variable [DecidableEq κ]

/-- The entry of a key. -/
def find? : Table κ α → κ → Option α
  | [], _ => none
  | (k, a) :: t, key => if k = key then some a else find? t key

/-- The table with one more entry, or with the entry of that key replaced. -/
def insert : Table κ α → κ → α → Table κ α
  | [], key, value => [(key, value)]
  | (k, a) :: t, key, value =>
    if k = key then (key, value) :: t else (k, a) :: insert t key value

/-- The entries of both tables; where both have a key the second one wins. -/
def union (t u : Table κ α) : Table κ α := u.foldl (fun t e => insert t e.1 e.2) t

@[simp] theorem find?_nil (key : κ) : find? ([] : Table κ α) key = none := rfl

theorem find?_cons (k : κ) (a : α) (t : Table κ α) (key : κ) :
    find? ((k, a) :: t) key = if k = key then some a else find? t key := rfl

theorem find?_insert (t : Table κ α) (key k : κ) (value : α) :
    find? (insert t key value) k = if key = k then some value else find? t k := by
  induction t with
  | nil => rfl
  | cons e t ih =>
    by_cases he : e.1 = key <;> by_cases hk : e.1 = k <;> grind [find?, insert]

@[simp] theorem find?_insert_self (t : Table κ α) (key : κ) (value : α) :
    find? (insert t key value) key = some value := by
  rw [find?_insert, if_pos rfl]

theorem find?_insert_of_ne (t : Table κ α) {key k : κ} (h : key ≠ k) (value : α) :
    find? (insert t key value) k = find? t k := by
  rw [find?_insert, if_neg h]

theorem mem_keys_iff (t : Table κ α) (key : κ) : key ∈ keys t ↔ (find? t key).isSome := by
  induction t with
  | nil => simp
  | cons e t ih =>
    by_cases h : e.1 = key
    · simp [find?, h]
    · simp [find?, h, ih, Ne.symm h]

theorem find?_eq_none_iff (t : Table κ α) (key : κ) : find? t key = none ↔ key ∉ keys t := by
  rw [mem_keys_iff, Option.not_isSome_iff_eq_none]

theorem keys_insert (t : Table κ α) (key : κ) (value : α) :
    keys (insert t key value) = if key ∈ keys t then keys t else keys t ++ [key] := by
  induction t with
  | nil => rfl
  | cons e t ih =>
    by_cases h : e.1 = key
    · simp [insert, h]
    · by_cases hm : key ∈ keys t
      · simp [insert, h, ih, hm]
      · simp [insert, h, ih, hm, Ne.symm h]

theorem nodup_keys_insert {t : Table κ α} (h : (keys t).Nodup) (key : κ) (value : α) :
    (keys (insert t key value)).Nodup := by
  rw [keys_insert]
  split
  · exact h
  · next hm =>
    refine List.nodup_append.2 ⟨h, by simp, ?_⟩
    intro a ha b hb heq
    rw [List.mem_singleton] at hb
    exact hm (hb ▸ heq ▸ ha)

@[simp] theorem union_nil (t : Table κ α) : union t [] = t := rfl

theorem union_cons (t : Table κ α) (k : κ) (a : α) (u : Table κ α) :
    union t ((k, a) :: u) = union (insert t k a) u := rfl

/-- A look-up in a union looks into the second table first, provided that it has no key twice. -/
theorem find?_union (t u : Table κ α) (hu : (keys u).Nodup) (key : κ) :
    find? (union t u) key = (find? u key).or (find? t key) := by
  induction u generalizing t with
  | nil => simp
  | cons e u ih =>
    obtain ⟨k, a⟩ := e
    rw [keys_cons, List.nodup_cons] at hu
    rw [union_cons, ih _ hu.2, find?_insert, find?_cons]
    by_cases h : k = key
    · subst h
      rw [(find?_eq_none_iff u k).2 hu.1]
      simp
    · simp [h]

theorem nodup_keys_union {t : Table κ α} (h : (keys t).Nodup) (u : Table κ α) :
    (keys (union t u)).Nodup := by
  induction u generalizing t with
  | nil => exact h
  | cons e u ih => exact ih (nodup_keys_insert h e.1 e.2)

end Table

end Nominal
