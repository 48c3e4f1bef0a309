import Mathlib.Algebra.Group.Nat.Defs
import Mathlib.Data.Nat.Basic
import Mathlib.Data.List.Induction
import Nominal.Lexer

/-!
# Places in a text

The lexer finds positions by searching the starts of lines for a byte offset. What it finds is the
place that is reached by reading the characters before the offset one by one.

* `Position.after`: the place behind a text.
* `Position.Countable`: texts in which no place is beyond the limit.
* `Lines.lineOf_eq`: the search finds the last line that starts at or before an offset.
* **`Lines.position_eq`**: the position of a character is the place behind the characters before it.
* `tokensAt`: the tokens among pieces, each at its place.
* **`tokensFrom_eq`**: the lexer reports every token at its place.
-/

namespace Nominal

open Text (byteCount)

namespace Position

/-- The place behind a text that starts at `p`. -/
def after (p : Position) (cs : List Char) : Position := cs.foldl advance p

variable (p : Position)

@[simp] theorem after_nil : p.after [] = p := rfl

@[simp] theorem after_cons (c : Char) (cs : List Char) :
    p.after (c :: cs) = (p.advance c).after cs := rfl

@[simp] theorem after_append (cs ds : List Char) : p.after (cs ++ ds) = (p.after cs).after ds := by
  simp [after]

/-! ### Places within the limit -/

theorem after_line (cs : List Char) : (p.after cs).line = p.line + cs.count '\n' := by
  induction cs generalizing p with
  | nil => rfl
  | cons c cs ih =>
    rw [after_cons, ih, advance]
    split
    · next hc => rw [hc, List.count_cons_self, Nat.add_assoc, Nat.add_comm 1]
    · next hc => rw [List.count_cons_of_ne hc]

theorem exists_after_column (cs : List Char) :
    ∃ line, line <:+ cs ∧ '\n' ∉ line ∧ (start.after cs).column = line.length + 1 := by
  induction cs using List.reverseRecOn with
  | nil => exact ⟨[], List.suffix_rfl, List.not_mem_nil, rfl⟩
  | append_singleton cs c ih =>
    obtain ⟨line, hsuffix, hfeed, hcolumn⟩ := ih
    rw [after_append, after_cons, after_nil, advance]
    split
    · exact ⟨[], List.nil_suffix, List.not_mem_nil, rfl⟩
    · next hc =>
      obtain ⟨before, rfl⟩ := hsuffix
      refine ⟨line ++ [c], ⟨before, by rw [List.append_assoc]⟩, ?_, ?_⟩
      · simp [hfeed, Ne.symm hc]
      · rw [hcolumn, List.length_append, List.length_singleton]

/-- A text with fewer lines than the limit and with fewer characters on each of them. -/
def Countable (cs : List Char) : Prop :=
  cs.count '\n' + 1 < limit ∧ ∀ line, line <:+: cs → '\n' ∉ line → line.length < limit

/-- A short text has no long line. -/
theorem countable_of_length {cs : List Char} (h : cs.length + 1 < limit) : Countable cs :=
  ⟨lt_of_le_of_lt (Nat.succ_le_succ List.count_le_length) h, fun _ hin _ =>
    lt_of_le_of_lt hin.length_le (lt_trans (Nat.lt_succ_self _) h)⟩

theorem Countable.capped_after {cs before : List Char} (h : Countable cs) (hb : before <+: cs) :
    (start.after before).capped = start.after before := by
  obtain ⟨hlines, hcolumns⟩ := h
  obtain ⟨line, hsuffix, hfeed, hcolumn⟩ := exists_after_column before
  have hline : (start.after before).line ≤ limit := by
    have hcount : before.count '\n' ≤ cs.count '\n' := hb.sublist.count_le _
    have hone : start.line = 1 := rfl
    rw [after_line, hone]
    omega
  have hlength := hcolumns line (hsuffix.isInfix.trans hb.isInfix) hfeed
  rw [capped, min_eq_left hline, min_eq_left (hcolumn ▸ hlength)]

end Position

namespace Lines

/-! ### Starts of lines -/

/-- A line of a text within a longer one. -/
def extend (ds : List Char) (s : LineStart) : LineStart := ⟨s.offset, s.text ++ ds⟩

theorem later_append (offset : Nat) (cs ds : List Char) :
    later offset (cs ++ ds) =
      (later offset cs).map (extend ds) ++ later (offset + byteCount cs) ds := by
  induction cs generalizing offset with
  | nil => rfl
  | cons c cs ih =>
    rw [List.cons_append, later, later, ih, Text.byteCount_cons, Nat.add_assoc]
    split <;> rfl

theorem lt_of_mem_later {offset : Nat} {cs : List Char} {s : LineStart}
    (hs : s ∈ later offset cs) : offset < s.offset := by
  induction cs generalizing offset with
  | nil => cases hs
  | cons c cs ih =>
    have hlt : offset < offset + c.utf8Size := Nat.lt_add_of_pos_right c.utf8Size_pos
    rw [later] at hs
    split at hs
    · obtain rfl | hs := List.mem_cons.1 hs
      · exact hlt
      · exact lt_trans hlt (ih hs)
    · exact lt_trans hlt (ih hs)

theorem le_of_mem_later {offset : Nat} {cs : List Char} {s : LineStart}
    (hs : s ∈ later offset cs) : s.offset ≤ offset + byteCount cs := by
  induction cs generalizing offset with
  | nil => cases hs
  | cons c cs ih =>
    rw [Text.byteCount_cons, ← Nat.add_assoc]
    rw [later] at hs
    split at hs
    · obtain rfl | hs := List.mem_cons.1 hs
      · exact Nat.le_add_right _ _
      · exact ih hs
    · exact ih hs

/-- The last line of a text, of which `read` stands on a line already. It ends where the text ends,
and the place behind the text is the one behind its last character. -/
theorem exists_last_line (cs read : List Char) (offset line : Nat) :
    ∃ s : LineStart,
      (⟨offset, read ++ cs⟩ :: later (offset + byteCount read) cs)[
        (later (offset + byteCount read) cs).length]? = some s ∧
      s.offset + byteCount s.text = offset + byteCount (read ++ cs) ∧
      Position.after ⟨line, read.length + 1⟩ cs =
        ⟨line + (later (offset + byteCount read) cs).length, s.text.length + 1⟩ := by
  induction cs generalizing read offset line with
  | nil => exact ⟨⟨offset, read⟩, by simp [later], by simp, by simp [later]⟩
  | cons c cs ih =>
    by_cases hc : c = '\n'
    · -- a new line starts behind the line feed
      obtain ⟨s, hs, hoffset, hplace⟩ := ih [] (offset + byteCount read + c.utf8Size) (line + 1)
      simp only [Text.byteCount_nil, Nat.add_zero] at hs hplace
      refine ⟨s, ?_, ?_, ?_⟩
      · rw [later, if_pos hc, List.length_cons, List.getElem?_cons_succ]
        exact hs
      · rw [hoffset, List.nil_append, Text.byteCount_append, Text.byteCount_cons]
        omega
      · rw [Position.after_cons, Position.advance, if_pos hc, later, if_pos hc, List.length_cons]
        refine hplace.trans ?_
        rw [Nat.add_assoc, Nat.add_comm 1]
    · obtain ⟨s, hs, hoffset, hplace⟩ := ih (read ++ [c]) offset line
      have hread : offset + byteCount (read ++ [c]) = offset + byteCount read + c.utf8Size := by
        rw [Text.byteCount_append, Text.byteCount_cons, Text.byteCount_nil, Nat.add_zero,
          Nat.add_assoc]
      have happend : read ++ [c] ++ cs = read ++ c :: cs := by simp
      rw [hread, happend] at hs
      rw [happend] at hoffset
      rw [hread, List.length_append, List.length_singleton] at hplace
      refine ⟨s, ?_, hoffset, ?_⟩
      · rw [later, if_neg hc]
        exact hs
      · rw [Position.after_cons, Position.advance, if_neg hc, later, if_neg hc]
        exact hplace

/-! ### The search -/

/-- The search finds the last line that starts at or before an offset, if the lines that do are the
first `k + 1` ones. -/
theorem lineOf_eq {l : Lines} {offset k low high : Nat}
    (h : ∀ i, l.startsBy offset i = decide (i ≤ k)) (hlow : low ≤ k) (hhigh : k < high) :
    l.lineOf offset low high = k := by
  fun_induction lineOf l offset low high with
  | case1 low high hle => omega
  | case2 low high hle middle hstarts ih =>
    rw [h, decide_eq_true_eq] at hstarts
    exact ih hstarts hhigh
  | case3 low high hle middle hstarts ih =>
    rw [h, decide_eq_true_eq] at hstarts
    exact ih hlow (not_le.1 hstarts)

theorem charsWithin_append (cs ds : List Char) :
    charsWithin (cs ++ ds) (byteCount cs) = cs.length := by
  induction cs with
  | nil => cases ds <;> rfl
  | cons c cs ih =>
    have hpos : byteCount (c :: cs) ≠ 0 := by
      have := c.utf8Size_pos
      rw [Text.byteCount_cons]
      omega
    rw [List.cons_append, charsWithin, if_neg hpos, Text.byteCount_cons, Nat.add_sub_cancel_left,
      ih, List.length_cons]

/-- **The position of a character is the place behind the characters before it.** -/
theorem position_eq (cs ds : List Char) :
    (ofText (cs ++ ds)).position (byteCount cs) = (Position.start.after cs).capped := by
  obtain ⟨s, hs, hoffset, hplace⟩ := exists_last_line cs [] 0 1
  simp only [Text.byteCount_nil, Nat.add_zero, Nat.zero_add, List.nil_append] at hs hoffset hplace
  have hplace' : Position.start.after cs = ⟨1 + (later 0 cs).length, s.text.length + 1⟩ := hplace
  -- first the lines that start within `cs`, then those that start behind it
  have hget (i : Nat) : (ofText (cs ++ ds)).starts[i]? =
      ((⟨0, cs⟩ :: later 0 cs).map (extend ds) ++ later (byteCount cs) ds)[i]? := by
    rw [ofText, later_append, Nat.zero_add, List.getElem?_toArray]
    rfl
  have hlength : ((⟨0, cs⟩ :: later 0 cs).map (extend ds)).length = (later 0 cs).length + 1 := by
    rw [List.length_map, List.length_cons]
  have hstarts (i : Nat) :
      (ofText (cs ++ ds)).startsBy (byteCount cs) i = decide (i ≤ (later 0 cs).length) := by
    rw [startsBy, hget]
    by_cases hi : i ≤ (later 0 cs).length
    · have hlt : i < ((⟨0, cs⟩ :: later 0 cs).map (extend ds)).length :=
        hlength ▸ Nat.lt_succ_of_le hi
      have hle : (((⟨0, cs⟩ :: later 0 cs).map (extend ds))[i]).offset ≤ byteCount cs := by
        obtain ⟨t, ht, heq⟩ := List.mem_map.1 (List.getElem_mem hlt)
        rw [← heq]
        obtain rfl | ht := List.mem_cons.1 ht
        · exact Nat.zero_le _
        · have hle := le_of_mem_later (s := t) ht
          rwa [Nat.zero_add] at hle
      rw [List.getElem?_append_left hlt, List.getElem?_eq_getElem hlt]
      simp only [hle, hi, decide_true]
    · rw [List.getElem?_append_right (by omega), hlength, decide_eq_false hi]
      cases hr : (later (byteCount cs) ds)[i - ((later 0 cs).length + 1)]? with
      | none => rfl
      | some t => exact decide_eq_false (not_le.2 (lt_of_mem_later (List.mem_of_getElem? hr)))
  have hsize : (later 0 cs).length < (ofText (cs ++ ds)).starts.size := by
    have hsome := hget (later 0 cs).length
    rw [List.getElem?_append_left (hlength ▸ Nat.lt_succ_self _), List.getElem?_map, hs] at hsome
    exact (Array.getElem?_eq_some_iff.1 hsome).1
  have hline : (ofText (cs ++ ds)).starts[(later 0 cs).length]? = some (extend ds s) := by
    rw [hget, List.getElem?_append_left (hlength ▸ Nat.lt_succ_self _), List.getElem?_map, hs]
    rfl
  rw [position, lineOf_eq hstarts (Nat.zero_le _) hsize, hline, hplace', Nat.add_comm 1]
  have hcolumn : byteCount cs - (extend ds s).offset = byteCount s.text :=
    Nat.sub_eq_of_eq_add (by rw [Nat.add_comm]; exact hoffset.symm)
  dsimp only
  rw [hcolumn, extend, charsWithin_append]

end Lines

/-! ### Tokens at their places -/

/-- The tokens among pieces of a text that starts at `p`, each at its place, and the end of the
text. -/
def tokensAt (p : Position) : List Piece → List Token
  | [] => [⟨.eof, p⟩]
  | piece :: ps =>
    let rest := tokensAt (p.after piece.text) ps
    match piece.lexeme with
    | some l => ⟨l, p⟩ :: rest
    | none => rest

/-- A token as it is reported, its position within the limit. -/
def Token.capped (t : Token) : Token := ⟨t.lexeme, t.position.capped⟩

/-- **The lexer reports every token at its place.** -/
theorem tokensFrom_eq (cs : List Char) (ps : List Piece) :
    tokensFrom (Lines.ofText (cs ++ Piece.source ps)) (byteCount cs) ps =
      (tokensAt (Position.start.after cs) ps).map Token.capped := by
  induction ps generalizing cs with
  | nil => rw [tokensFrom, Lines.position_eq]; rfl
  | cons piece ps ih =>
    have hsource : cs ++ Piece.source (piece :: ps) = cs ++ piece.text ++ Piece.source ps := by
      rw [Piece.source_cons, List.append_assoc]
    have hrest := ih (cs ++ piece.text)
    rw [Text.byteCount_append, Position.after_append] at hrest
    rw [tokensFrom, tokensAt, hsource, Piece.size, hrest]
    cases piece.lexeme with
    | none => rfl
    | some l =>
      rw [List.append_assoc, Lines.position_eq]
      rfl

end Nominal
