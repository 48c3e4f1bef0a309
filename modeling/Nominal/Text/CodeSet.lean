/-!
# Sets of characters

A set of characters is a list of ranges of code points in ascending order, as the tables of a
character property give them.

* `CodeSet`, `CodeSet.contains`: a set, and the test for a member.
* **`CodeSet.contains_iff`**: the members are the characters of all ranges.
-/

namespace Nominal.Text

/-- Whether ranges, each given by its first and its last code point, begin at `n` or later and
ascend. -/
def ascendingFrom : Nat → List (Nat × Nat) → Bool
  | _, [] => true
  | n, (first, last) :: rest => n ≤ first && first ≤ last && ascendingFrom (last + 1) rest

/-- Whether a code point is in one of the ranges. The first range that does not end before it
decides. -/
def inAscending : List (Nat × Nat) → Nat → Bool
  | [], _ => false
  | (first, last) :: rest, n => if n ≤ last then first ≤ n else inAscending rest n

theorem le_first {n : Nat} {ranges : List (Nat × Nat)} (h : ascendingFrom n ranges = true) :
    ∀ r ∈ ranges, n ≤ r.1 := by
  induction ranges generalizing n with
  | nil => simp
  | cons r rest ih =>
    simp only [ascendingFrom, Bool.and_eq_true, decide_eq_true_eq] at h
    obtain ⟨⟨hn, hr⟩, hrest⟩ := h
    intro s hs
    rcases List.mem_cons.mp hs with rfl | hs
    · exact hn
    · have := ih hrest s hs
      omega

theorem inAscending_iff {m : Nat} {ranges : List (Nat × Nat)}
    (h : ascendingFrom m ranges = true) (n : Nat) :
    inAscending ranges n = true ↔ ∃ r ∈ ranges, r.1 ≤ n ∧ n ≤ r.2 := by
  induction ranges generalizing m with
  | nil => simp [inAscending]
  | cons r rest ih =>
    simp only [ascendingFrom, Bool.and_eq_true, decide_eq_true_eq] at h
    rw [inAscending]
    split
    case isTrue hn =>
      have later : ∀ s ∈ rest, n < s.1 := fun s hs => by
        have := le_first h.2 s hs
        omega
      constructor
      · exact fun hr => ⟨r, List.mem_cons_self, by simpa using hr, hn⟩
      · rintro ⟨s, hs, hfirst, -⟩
        rcases List.mem_cons.mp hs with rfl | hs
        · simpa using hfirst
        · have := later s hs
          omega
    case isFalse hn =>
      rw [ih h.2]
      constructor
      · rintro ⟨s, hs, hsn⟩
        exact ⟨s, List.mem_cons_of_mem _ hs, hsn⟩
      · rintro ⟨s, hs, hsn⟩
        rcases List.mem_cons.mp hs with rfl | hs
        · exact absurd hsn.2 hn
        · exact ⟨s, hs, hsn⟩

/-- A set of characters. -/
structure CodeSet where
  /-- The first and the last code point of each range. -/
  ranges : List (Nat × Nat)
  ascending : ascendingFrom 0 ranges = true

/-- Whether a character is in a set. -/
def CodeSet.contains (s : CodeSet) (c : Char) : Bool := inAscending s.ranges c.toNat

/-- The members of a set are the characters of all its ranges. -/
theorem CodeSet.contains_iff (s : CodeSet) (c : Char) :
    s.contains c = true ↔ ∃ r ∈ s.ranges, r.1 ≤ c.toNat ∧ c.toNat ≤ r.2 :=
  inAscending_iff s.ascending c.toNat

end Nominal.Text
