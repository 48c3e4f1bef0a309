import Mathlib.Data.List.DropRight
import Nominal.Proofs.Partition
import Nominal.Proofs.StringBodies

/-!
# Lines and columns by counting

The lines of a source give a position to every boundary between two of its characters. It is found
by a search for the line and by counting bytes, and it is the position that is counted off: the line
feeds before the boundary, and the characters behind the last one of them. So positions ascend with
the boundaries, as long as no number is beyond the limit.

* `Position.counted`: the position behind a text, by counting.
* `Position.after_start`: reading a text character by character counts.
* `textBefore`, `positionOf`: the text before a boundary, and its position.
* **`CountsPlaces`**, **`counts_places`**: the positions of all boundaries of a source.
-/

namespace Nominal

namespace Position

variable {p q : Position}

/-- The position behind a text: one more than its line feeds, and one more than the characters behind
the last of them. -/
def counted (before : List Char) : Position :=
  ⟨1 + before.count '\n', 1 + (before.rtakeWhile (· != '\n')).length⟩

/-- Reading a text from its start counts its line feeds and the characters of its last line. -/
theorem after_start (cs : List Char) : start.after cs = counted cs := by
  induction cs using List.reverseRecOn with
  | nil => rfl
  | append_singleton cs c ih =>
    rw [after_append, after_cons, after_nil, ih, advance, counted, counted, List.rtakeWhile_concat,
      List.count_append]
    by_cases hc : c = '\n'
    · simp [hc, Nat.add_assoc]
    · simp [hc, Nat.add_assoc]

/-- Neither the line nor the column is beyond the limit. -/
structure Within (p : Position) : Prop where
  line : p.line ≤ 2 ^ 32 - 1
  column : p.column ≤ 2 ^ 32 - 1

/-- The later position decides whether the order shows within the limit. -/
theorem Before.capped (h : p.Before q) (hq : q.Within) : p.capped.Before q.capped := by
  obtain ⟨hline, hcolumn⟩ := hq
  rw [before_iff] at h ⊢
  have hlimit : limit = 2 ^ 32 - 1 := rfl
  simp only [Position.capped, hlimit]
  omega

theorem Before.ne (h : p.Before q) : p ≠ q := by
  rintro rfl
  rw [before_iff] at h
  omega

end Position

/-! ## Boundaries of a source -/

section Boundaries

variable {s : String}

/-- The characters before a boundary. -/
def textBefore (p : s.Pos) : List Char := (s.sliceTo p).copy.toList

/-- The position that the lines of a source find for a boundary. -/
def positionOf (p : s.Pos) : Position := (Lines.ofText s.toList).position p.offset.byteIdx

theorem exists_split (p : s.Pos) :
    ∃ rest, s.toList = textBefore p ++ rest ∧ p.offset.byteIdx = Text.byteCount (textBefore p) := by
  obtain ⟨hsource, hoffset⟩ := p.splits
  refine ⟨(s.sliceFrom p).copy.toList, ?_, ?_⟩
  · rw [textBefore, ← String.toList_append, ← hsource]
  · rw [textBefore, ← Text.utf8ByteSize_eq, hoffset]
    rfl

theorem positionOf_eq (p : s.Pos) : positionOf p = (Position.counted (textBefore p)).capped := by
  obtain ⟨rest, hsource, hoffset⟩ := exists_split p
  rw [positionOf, hsource, hoffset, Lines.position_eq, Position.after_start]

theorem exists_between {p q : s.Pos} (h : p < q) :
    ∃ mid, mid ≠ [] ∧ textBefore q = textBefore p ++ mid := by
  obtain ⟨rest, hp, hoffset⟩ := exists_split p
  obtain ⟨rest', hq, hoffset'⟩ := exists_split q
  have hlt : Text.byteCount (textBefore p) < Text.byteCount (textBefore q) := by
    rw [← hoffset, ← hoffset']
    exact String.Pos.Raw.lt_iff.1 (String.Pos.lt_iff.1 h)
  obtain ⟨mid, hmid, -⟩ | ⟨mid, hmid, -⟩ := List.append_eq_append_iff.1 (hp.symm.trans hq)
  · refine ⟨mid, ?_, hmid⟩
    rintro rfl
    rw [hmid, List.append_nil] at hlt
    exact lt_irrefl _ hlt
  · rw [hmid, Text.byteCount_append] at hlt
    omega

theorem counted_before {p q : s.Pos} (h : p < q) :
    (Position.counted (textBefore p)).Before (Position.counted (textBefore q)) := by
  obtain ⟨mid, hmid, htext⟩ := exists_between h
  rw [← Position.after_start, ← Position.after_start, htext, Position.after_append]
  exact Position.before_after _ hmid

end Boundaries

/-- The positions of the boundaries of a source are counted off and kept within the limit. Within
it, they ascend and are distinct. -/
structure CountsPlaces (s : String) : Prop where
  counted : ∀ p : s.Pos, positionOf p =
    ⟨min (1 + (textBefore p).count '\n') (2 ^ 32 - 1),
      min (1 + ((textBefore p).rtakeWhile (· != '\n')).length) (2 ^ 32 - 1)⟩
  ascending : ∀ p q : s.Pos, p < q → (Position.counted (textBefore q)).Within →
    (positionOf p).Before (positionOf q)
  distinct : ∀ p q : s.Pos, p ≠ q → (Position.counted (textBefore p)).Within →
    (Position.counted (textBefore q)).Within → positionOf p ≠ positionOf q

/-- **The lines of a source count.** -/
theorem counts_places (s : String) : CountsPlaces s := by
  have hascending (p q : s.Pos) (h : p < q) (hq : (Position.counted (textBefore q)).Within) :
      (positionOf p).Before (positionOf q) := by
    rw [positionOf_eq, positionOf_eq]
    exact (counted_before h).capped hq
  refine ⟨positionOf_eq, hascending, fun p q hne hp hq => ?_⟩
  obtain hle | hle := Std.le_total (a := p) (b := q)
  · exact (hascending p q (Std.lt_of_le_of_ne hle hne) hq).ne
  · exact (hascending q p (Std.lt_of_le_of_ne hle hne.symm) hp).ne.symm

/-- Characters count, not bytes, and an empty line counts. -/
theorem counts_places_accent :
    let s := "é\n\nx"
    positionOf s.endPos = ⟨3, 2⟩ ∧ s.startPos < s.endPos ∧
      (positionOf s.startPos).Before (positionOf s.endPos) := by
  intro s
  have htext : textBefore s.endPos = ['é', '\n', '\n', 'x'] := by
    simp [textBefore, s]
  have hplace := (counts_places s).counted s.endPos
  have hlt : s.startPos < s.endPos := by decide
  have hwithin : (Position.counted (textBefore s.endPos)).Within := by
    rw [htext]
    exact ⟨by decide, by decide⟩
  refine ⟨?_, hlt, (counts_places s).ascending _ _ hlt hwithin⟩
  rw [hplace, htext]
  rfl

end Nominal
