import Mathlib
import Nominal.Proofs.Spelling

/-!
# Lexing undoes rendering

* `scan`: the tokens of a text that starts at a place, and its fault.
* `scan_gaps`, `scan_separator`: white space and comments only move the place.
* `next_spelling`: the piece at the head of a spelling and white space is that spelling.
* `scan_writing`: the tokens of a writing are scanned, each at its place.
* **`lex_writing`**: the lexer reads the tokens back from a writing.
-/

namespace Nominal

open Piece

/-- The tokens of a text that starts at `p`, up to its first fault. -/
def scan (p : Position) (cs : List Char) : List Token × Option LexFault :=
  (tokensAt p (split cs).1, (split cs).2)

variable {p : Position} {c : Char} {cs rest : List Char}

theorem scan_nil : scan p [] = ([⟨.eof, p⟩], none) := by rw [scan, split_nil]; rfl

theorem scan_skip {text : List Char} (h : next c cs = .ok (⟨text, none⟩, rest)) :
    scan p (c :: cs) = scan (p.after text) rest := by
  rw [scan, split_ok h]
  rfl

theorem scan_token {text : List Char} {l : Lexeme} (h : next c cs = .ok (⟨text, some l⟩, rest)) :
    scan p (c :: cs) =
      (⟨l, p⟩ :: (scan (p.after text) rest).1, (scan (p.after text) rest).2) := by
  rw [scan, split_ok h]
  rfl

/-! ### Between tokens -/

theorem next_blank (hc : isBlank c = true) :
    next c cs = .ok (⟨c :: cs.takeWhile isBlank, none⟩, cs.dropWhile isBlank) := by
  rw [next, if_pos hc]
  rfl

/-- A run of blanks is one piece, but it can be skipped blank by blank. -/
theorem scan_blank (hc : isBlank c = true) : scan p (c :: cs) = scan (p.advance c) cs := by
  rw [scan_skip (next_blank hc), Position.after_cons]
  cases cs with
  | nil => rfl
  | cons d ds =>
    cases hd : isBlank d with
    | true => rw [scan_skip (next_blank hd), List.takeWhile_cons_of_pos hd,
        List.dropWhile_cons_of_pos hd]
    | false =>
      have hd' : ¬ isBlank d = true := by rw [hd]; exact Bool.false_ne_true
      rw [List.takeWhile_cons_of_neg hd', List.dropWhile_cons_of_neg hd', Position.after_nil]

theorem Blank.isBlank_char (b : Blank) : isBlank b.char = true := by cases b <;> rfl

theorem run_append {q : Char → Bool} (hcs : ∀ d ∈ cs, q d = true)
    (hrest : ∀ d ∈ rest.head?, q d = false) : run q c (cs ++ rest) = (c :: cs, rest) := by
  have hnil : rest.takeWhile q = [] ∧ rest.dropWhile q = rest := by
    cases rest with
    | nil => exact ⟨rfl, rfl⟩
    | cons d ds =>
      have hd : ¬ q d = true := by rw [hrest d rfl]; exact Bool.false_ne_true
      exact ⟨List.takeWhile_cons_of_neg hd, List.dropWhile_cons_of_neg hd⟩
  rw [run, List.takeWhile_append_of_pos hcs, List.dropWhile_append_of_pos hcs, hnil.1, hnil.2,
    List.append_nil]

/-- The first end mark is the one behind a comment that holds none. -/
theorem blockComment_append {comment : List Char} (h : ¬ ['*', '/'] <:+: comment) :
    blockComment (comment ++ '*' :: '/' :: rest) = some (comment ++ ['*', '/'], rest) := by
  induction comment with
  | nil => rfl
  | cons d ds ih =>
    have hds : ¬ ['*', '/'] <:+: ds := fun hin => h (hin.trans (List.suffix_cons d ds).isInfix)
    have hhead : ∀ t, d = '*' → ds ++ '*' :: '/' :: rest = '/' :: t → False := by
      rintro t rfl ht
      cases ds with
      | nil => exact absurd (List.cons.inj ht).1 (by decide)
      | cons e es =>
        obtain ⟨rfl, -⟩ := List.cons.inj ht
        exact h ⟨[], es, rfl⟩
    rw [List.cons_append, blockComment, ih hds]
    · rfl
    · exact hhead

theorem next_line : next '/' ('/' :: cs) =
    .ok (⟨(run (· != '\n') '/' ('/' :: cs)).1, none⟩, (run (· != '\n') '/' ('/' :: cs)).2) := by
  rw [next, if_neg (by decide), if_pos (by rfl)]

theorem next_block {comment : List Char} (h : ¬ ['*', '/'] <:+: comment) :
    next '/' ('*' :: comment ++ '*' :: '/' :: rest) =
      .ok (⟨'/' :: '*' :: (comment ++ ['*', '/']), none⟩, rest) := by
  rw [next, if_neg (by decide), if_neg (by simp), if_pos (by rfl), List.cons_append,
    List.tail_cons, blockComment_append h]

theorem ne_feed_of_notMem {comment : List Char} (h : '\n' ∉ comment) :
    ∀ d ∈ '/' :: comment, (d != '\n') = true := by
  intro d hd
  rw [bne_iff_ne]
  rintro rfl
  obtain hd | hd := List.mem_cons.1 hd
  · exact absurd hd (by decide)
  · exact h hd

theorem scan_gap (g : Gap) : scan p (g.text ++ cs) = scan (p.after g.text) cs := by
  cases g with
  | blank b => exact scan_blank b.isBlank_char
  | line comment inside =>
    have hnext : next '/' ('/' :: comment ++ '\n' :: cs) =
        .ok (⟨'/' :: '/' :: comment, none⟩, '\n' :: cs) := by
      rw [List.cons_append, next_line, ← List.cons_append,
        run_append (ne_feed_of_notMem inside) (by rintro d ⟨⟩; rfl)]
    -- the line feed is a piece of its own
    have htext : (Gap.line comment inside).text ++ cs =
        '/' :: ('/' :: comment ++ '\n' :: cs) := by simp [Gap.text]
    rw [htext, scan_skip hnext, scan_blank rfl, Gap.text, Position.after_append]
    rfl
  | block comment inside =>
    have htext : (Gap.block comment inside).text ++ cs =
        '/' :: ('*' :: comment ++ '*' :: '/' :: cs) := by simp [Gap.text]
    rw [htext, scan_skip (next_block inside), Gap.text]
    rfl

theorem scan_gaps (gs : List Gap) :
    scan p (gs.flatMap Gap.text ++ cs) = scan (p.after (gs.flatMap Gap.text)) cs := by
  induction gs generalizing p with
  | nil => rfl
  | cons g gs ih =>
    rw [List.flatMap_cons, List.append_assoc, scan_gap, ih, Position.after_append]

theorem scan_separator (s : Separator) : scan p (s.text ++ cs) = scan (p.after s.text) cs := by
  rw [Separator.text, List.cons_append, scan_blank s.first.isBlank_char, scan_gaps,
    Position.after_cons]

/-! ### The piece at the head of a text -/

/-- The characters that white space, comments, divisions and strings start with. -/
def specialChars : List Char := [' ', '\t', '\r', '\n', '/', '"', '\'']

theorem next_plain (hc : c ∉ specialChars) :
    next c cs =
      if c.isDigit then
        match Number.classify (run Number.isPart c cs).1 with
        | .ok value => .ok (⟨(run Number.isPart c cs).1, some (.const value)⟩,
            (run Number.isPart c cs).2)
        | .error f => .error f
      else if isWordStart c then
        .ok (⟨(run isWordPart c cs).1, some (ofWord (String.ofList (run isWordPart c cs).1))⟩,
          (run isWordPart c cs).2)
      else mark c cs := by
  have hne : ∀ d ∈ specialChars, c ≠ d := fun d hd heq => hc (heq ▸ hd)
  simp only [specialChars, List.forall_mem_cons] at hne
  obtain ⟨h1, h2, h3, h4, h5, h6, h7, -⟩ := hne
  have hblank : ¬isBlank c = true := by simp [isBlank, h1, h2, h3, h4]
  have hslash (d : Char) : ¬(decide (c = '/') && decide (cs.head? = some d)) = true := by simp [h5]
  have hquote : ¬(decide (c = '"') || decide (c = '\'')) = true := by simp [h6, h7]
  exact (if_neg hblank).trans <| (if_neg (hslash _)).trans <| (if_neg (hslash _)).trans <|
    if_neg hquote

/-- A text that is empty or goes on with white space. -/
def Separated (cs : List Char) : Prop := ∀ d ∈ cs.head?, isBlank d = true

theorem Separated.eq_nil_or_cons (h : Separated rest) :
    rest = [] ∨ ∃ (b : Blank) (cs : List Char), rest = b.char :: cs := by
  cases rest with
  | nil => exact .inl rfl
  | cons d ds =>
    have hd : d = ' ' ∨ d = '\t' ∨ d = '\r' ∨ d = '\n' := by
      simpa [isBlank, or_assoc] using h d rfl
    obtain rfl | rfl | rfl | rfl := hd
    · exact .inr ⟨.space, ds, rfl⟩
    · exact .inr ⟨.tab, ds, rfl⟩
    · exact .inr ⟨.return, ds, rfl⟩
    · exact .inr ⟨.feed, ds, rfl⟩

theorem run_separated {q : Char → Bool} (hcs : ∀ d ∈ cs, q d = true)
    (hq : ∀ b : Blank, q b.char = false) (h : Separated rest) :
    run q c (cs ++ rest) = (c :: cs, rest) := by
  refine run_append hcs fun d hd => ?_
  obtain rfl | ⟨b, ds, rfl⟩ := h.eq_nil_or_cons
  · cases hd
  · cases hd
    exact hq b

/-! ### Marks -/

theorem next_mark (m : Mark) (h : Separated rest) :
    ∃ c cs, m.spelling.toList ++ rest = c :: cs ∧
      next c cs = .ok (⟨m.spelling.toList, some (.mark m)⟩, rest) := by
  obtain rfl | ⟨b, ds, rfl⟩ := h.eq_nil_or_cons
  · cases m <;> exact ⟨_, _, rfl, rfl⟩
  · cases m <;> cases b <;> exact ⟨_, _, rfl, rfl⟩

/-! ### Words -/

theorem isDigit_notMem (hc : c.isDigit = true) : c ∉ specialChars := by
  intro hin
  have hall : specialChars.all (fun d => !d.isDigit) = true := rfl
  have hno := List.all_eq_true.1 hall c hin
  rw [hc] at hno
  cases hno

theorem isWordStart_notMem (hc : isWordStart c = true) : c ∉ specialChars := by
  intro hin
  have hall : specialChars.all (fun d => !isWordStart d) = true := rfl
  have hno := List.all_eq_true.1 hall c hin
  rw [hc] at hno
  cases hno

theorem isDigit_of_isWordStart (hc : isWordStart c = true) : c.isDigit = false := by
  have hcode : c = '_' ∨ 65 ≤ c.toNat := by
    simp only [isWordStart, Char.isAlpha, Char.isUpper, Char.isLower, Bool.or_eq_true,
      Bool.and_eq_true, decide_eq_true_eq, beq_iff_eq, ge_iff_le, UInt32.le_iff_toNat_le] at hc
    have hA : 'A'.val.toNat = 65 := rfl
    have ha : 'a'.val.toNat = 97 := rfl
    have hn : c.val.toNat = c.toNat := rfl
    obtain (hc | hc) | hc := hc
    · exact .inr (by omega)
    · exact .inr (by omega)
    · exact .inl hc
  obtain rfl | hcode := hcode
  · rfl
  · simp only [Char.isDigit, Bool.and_eq_false_iff, decide_eq_false_iff_not, ge_iff_le,
      UInt32.le_iff_toNat_le]
    have h9 : '9'.val.toNat = 57 := rfl
    have hn : c.val.toNat = c.toNat := rfl
    omega

theorem next_word (hc : isWordStart c = true) (hcs : ∀ d ∈ cs, isWordPart d = true)
    (h : Separated rest) :
    next c (cs ++ rest) = .ok (⟨c :: cs, some (ofWord (String.ofList (c :: cs)))⟩, rest) := by
  rw [next_plain (isWordStart_notMem hc), if_neg (by simp [isDigit_of_isWordStart hc]),
    if_pos hc, run_separated hcs (fun b => by cases b <;> rfl) h]

theorem Name.isWordStart_head (x : Name) : isWordStart x.head = true := by
  simpa [isWordStart] using x.isStart

theorem Name.isWordPart_tail (x : Name) : ∀ d ∈ x.tail, isWordPart d = true := fun d hd => by
  simpa [isWordPart] using x.areParts d hd

theorem ofWord_name (x : Name) :
    ofWord (String.ofList (x.head :: x.tail)) = .ident (String.ofList (x.head :: x.tail)) := by
  have hfree := x.free
  simp only [reservedWords, List.mem_append, List.mem_cons, List.not_mem_nil, not_or] at hfree
  obtain ⟨hkeyword, htrue, hfalse, hnone, -⟩ := hfree
  have hfind : Keyword.ofSpelling? (String.ofList (x.head :: x.tail)) = none := by
    rw [Keyword.ofSpelling?, List.find?_eq_none]
    intro k hk heq
    exact hkeyword (List.mem_map.2 ⟨k, hk, of_decide_eq_true heq⟩)
  rw [ofWord, hfind, if_neg htrue, if_neg hfalse, if_neg hnone]

/-! ### Numbers -/

theorem Decimal.narrow_natCast (n : Nat) :
    narrow (n : Int) = if n < 2 ^ 63 then some (Int64.ofNat n) else none := by
  have hfits : Fits (n : Int) ↔ n < 2 ^ 63 := by
    have hmin : Int64.minValue.toInt = -2 ^ 63 := by decide
    have hmax : Int64.maxValue.toInt = 2 ^ 63 - 1 := by decide
    rw [Fits, hmin, hmax]
    omega
  rw [narrow]
  simp only [hfits, Int64.ofInt_eq_ofNat]

theorem classify_digits {digits : List Char} (hdigits : ∀ d ∈ digits, d.isDigit = true)
    (h : Decimal.valueOf digits < 2 ^ 63) :
    Number.classify digits = .ok (.int (Int64.ofNat (Decimal.valueOf digits))) := by
  have hcount : digits.count '.' = 0 :=
    List.count_eq_zero.2 fun hin => absurd (hdigits '.' hin) (by decide)
  rw [Number.classify, hcount, Decimal.narrow_natCast, if_pos h]
  rfl

/-- The digits of a number read back as the number. -/
theorem classify_toDigits {n : Nat} (h : n < 2 ^ 63) :
    Number.classify (Nat.toDigits 10 n) = .ok (.int (Int64.ofNat n)) := by
  have hvalue : Decimal.valueOf (Nat.toDigits 10 n) = n := Nat.ofDigitChars_ten_toDigits
  have hdigits : ∀ d ∈ Nat.toDigits 10 n, d.isDigit = true := fun d hd =>
    Nat.isDigit_of_mem_toDigits (by decide) (by decide) hd
  have hclassify := classify_digits hdigits (hvalue.symm ▸ h)
  rwa [hvalue] at hclassify

theorem next_int {n : Nat} (hn : n < 2 ^ 63) (hd : Nat.toDigits 10 n = c :: cs)
    (h : Separated rest) :
    next c (cs ++ rest) = .ok (⟨c :: cs, some (.const (.int (Int64.ofNat n)))⟩, rest) := by
  have hdigit : ∀ d ∈ c :: cs, d.isDigit = true := fun d hin =>
    Nat.isDigit_of_mem_toDigits (by decide) (by decide) (hd ▸ hin)
  have hc : c.isDigit = true := hdigit c List.mem_cons_self
  have hcs : ∀ d ∈ cs, Number.isPart d = true := fun d hin => by
    rw [Number.isPart, hdigit d (List.mem_cons_of_mem c hin), Bool.true_or]
  rw [next_plain (isDigit_notMem hc), if_pos hc,
    run_separated hcs (fun b => by cases b <;> rfl) h, ← hd, classify_toDigits hn]

/-! ### Strings -/

theorem Quote.next_char (q : Quote) : next q.char cs = string q.char cs := by
  cases q <;> rfl

theorem scan_item {q : Char} {i : StringBody.Item} (hc : c ≠ q)
    (h : StringBody.item c cs = .ok (i, rest)) :
    StringBody.scan q (c :: cs) =
      match StringBody.scan q rest with
      | .error f => .error f
      | .ok (items, rest) => .ok (i :: items, rest) := by
  rw [StringBody.scan, if_neg hc]
  split
  · next hf => rw [h] at hf; cases hf
  · next hi => rw [h] at hi; cases hi; rfl

/-- The items of a string as it is written. -/
def Quote.items (q : Quote) (cs : List Char) : List StringBody.Item :=
  cs.map fun c => ⟨q.escaped c, c⟩

theorem Quote.char_ne (q : Quote) : '\\' ≠ q.char := by cases q <;> decide

theorem scan_escaped (q : Quote) (s : List Char) :
    StringBody.scan q.char (s.flatMap q.escaped ++ q.char :: rest) = .ok (q.items s, rest) := by
  induction s with
  | nil => rw [List.flatMap_nil, List.nil_append, StringBody.scan, if_pos rfl]; rfl
  | cons d ds ih =>
    rw [List.flatMap_cons, List.append_assoc]
    by_cases hd : d = '\\' ∨ d = q.char
    · have hescape : StringBody.item '\\' (d :: (ds.flatMap q.escaped ++ q.char :: rest)) =
          .ok (⟨['\\', d], d⟩, ds.flatMap q.escaped ++ q.char :: rest) := by
        obtain rfl | rfl := hd
        · rfl
        · cases q <;> rfl
      rw [Quote.escaped, if_pos hd, List.cons_append, List.cons_append, List.nil_append,
        scan_item q.char_ne hescape, ih]
      simp [Quote.items, Quote.escaped, hd]
    · have hplain : StringBody.item d (ds.flatMap q.escaped ++ q.char :: rest) =
          .ok (⟨[d], d⟩, ds.flatMap q.escaped ++ q.char :: rest) := by
        rw [StringBody.item, if_neg fun hb => hd (.inl hb)]
      rw [Quote.escaped, if_neg hd, List.cons_append, List.nil_append,
        scan_item (fun hq => hd (.inr hq)) hplain, ih]
      simp [Quote.items, Quote.escaped, hd]

theorem next_string (q : Quote) (s : String) :
    next q.char (s.toList.flatMap q.escaped ++ q.char :: rest) =
      .ok (⟨(Spelling.string q s).text, some (.const (.string s))⟩, rest) := by
  have hwritten : StringBody.written (q.items s.toList) = s.toList.flatMap q.escaped := by
    rw [StringBody.written, Quote.items, List.flatMap_map]
  have hmeaning : StringBody.meaning (q.items s.toList) = s := by
    rw [StringBody.meaning, Quote.items, List.map_map]
    exact (congrArg String.ofList (List.map_id _)).trans (String.ofList_toList)
  rw [Quote.next_char, string, scan_escaped]
  dsimp only
  rw [hwritten, hmeaning]
  rfl

/-! ### All spellings -/

/-- **The piece at the head of a spelling and white space is the spelling.** -/
theorem next_spelling (s : Spelling) (h : Separated rest) :
    ∃ c cs, s.text ++ rest = c :: cs ∧ next c cs = .ok (⟨s.text, some s.lexeme⟩, rest) := by
  cases s with
  | mark m => exact next_mark m h
  | keyword k => cases k <;> exact ⟨_, _, rfl, next_word rfl (List.all_eq_true.1 rfl) h⟩
  | ident x =>
    refine ⟨x.head, x.tail ++ rest, rfl, ?_⟩
    rw [next_word x.isWordStart_head x.isWordPart_tail h, ofWord_name]
    rfl
  | bool b => cases b <;> exact ⟨_, _, rfl, next_word rfl (List.all_eq_true.1 rfl) h⟩
  | none => exact ⟨_, _, rfl, next_word rfl (List.all_eq_true.1 rfl) h⟩
  | int n fits =>
    obtain ⟨d, ds, hd⟩ := List.exists_cons_of_ne_nil (Nat.toDigits_ne_nil (n := n) (b := 10))
    refine ⟨d, ds ++ rest, ?_, ?_⟩
    · rw [Spelling.text, hd, List.cons_append]
    · rw [next_int fits hd h, Spelling.text, hd]
      rfl
  | string q s =>
    refine ⟨q.char, s.toList.flatMap q.escaped ++ q.char :: rest, ?_, next_string q s⟩
    simp [Spelling.text]

theorem scan_spelling (s : Spelling) (h : Separated rest) :
    scan p (s.text ++ rest) =
      (⟨s.lexeme, p⟩ :: (scan (p.after s.text) rest).1, (scan (p.after s.text) rest).2) := by
  obtain ⟨c, cs, heq, hnext⟩ := next_spelling s h
  rw [heq, scan_token hnext]

/-- The tokens of a writing are scanned, each at the place of its first character. -/
theorem scan_writing (w : Writing) : scan p w.text = (w.tokens p, none) := by
  induction w generalizing p with
  | done => exact scan_nil
  | last s =>
    have hends : Separated [] := fun d hd => by cases hd
    rw [Writing.text, ← List.append_nil s.text, scan_spelling s hends, scan_nil]
    rfl
  | more s behind rest ih =>
    have hends : Separated (behind.text ++ rest.text) := by
      rintro d ⟨⟩
      exact behind.first.isBlank_char
    rw [Writing.text, scan_spelling s hends, scan_separator, ih]
    rfl

/-! ### The lexer -/

theorem lex_of_scan {ts : List Token} (h : scan .start cs = (ts, none)) :
    lex (String.ofList cs) = .ok (ts.map Token.capped) := by
  obtain ⟨hts, hfault⟩ := Prod.mk.inj h
  obtain ⟨rest, hsource, hrest⟩ := split_eq cs
  rw [hrest hfault, List.append_nil] at hsource
  have hsplit : split cs = ((split cs).1, none) := Prod.ext rfl hfault
  have hfrom : tokensFrom (Lines.ofText cs) 0 (split cs).1 =
      (tokensAt .start (split cs).1).map Token.capped := by
    have heq := tokensFrom_eq [] (split cs).1
    rwa [List.nil_append, ← hsource] at heq
  rw [lex, String.toList_ofList, hsplit, ← hts, ← hfrom]

/-- All tokens of a text without a place beyond the limit are reported at their places. -/
theorem tokens_capped (w : Writing)
    (h : ∀ before, before <+: w.text → (p.after before).capped = p.after before) :
    (w.tokens p).map Token.capped = w.tokens p := by
  induction w generalizing p with
  | done =>
    have hstart : p.capped = p := h [] List.nil_prefix
    simp only [Writing.tokens, List.map_cons, List.map_nil, Token.capped, hstart]
  | last s =>
    have hstart : p.capped = p := h [] List.nil_prefix
    have hend := h s.text List.prefix_rfl
    simp only [Writing.tokens, List.map_cons, List.map_nil, Token.capped, hstart, hend]
  | more s behind rest ih =>
    have hstart : p.capped = p := h [] List.nil_prefix
    rw [Writing.tokens, List.map_cons, Token.capped, hstart, ih]
    intro before hbefore
    have hlong := h (s.text ++ (behind.text ++ before))
      (List.prefix_append_right_inj _ |>.2 (List.prefix_append_right_inj _ |>.2 hbefore))
    simpa using hlong

/-- **The lexer reads the tokens back from a writing**, whatever separators stand between them, in
front of the first and behind the last one. -/
theorem lex_writing (lead : Option Separator) (w : Writing)
    (h : Position.Countable (Separator.optional lead ++ w.text)) :
    lex (String.ofList (Separator.optional lead ++ w.text)) =
      .ok (w.tokens (Position.start.after (Separator.optional lead))) := by
  have hscan : scan .start (Separator.optional lead ++ w.text) =
      (w.tokens (Position.start.after (Separator.optional lead)), none) := by
    cases lead with
    | none => exact scan_writing w
    | some s => exact (scan_separator s).trans (scan_writing w)
  rw [lex_of_scan hscan, tokens_capped]
  intro before hbefore
  rw [← Position.after_append]
  exact h.capped_after (List.prefix_append_right_inj _ |>.2 hbefore)

/-- `if`, a name, a string with both quotes and the largest integer, with comments between them. -/
def Writing.sample : Writing :=
  .more (.keyword .ifWord)
    ⟨.space, [.block ['/', '*', '*'] (by decide), .line ['é'] (by decide), .blank .tab]⟩
    (.more (.ident ⟨'i', ['f', '2'], .inl rfl, by simp, by decide⟩)
      ⟨.return, [.blank .feed]⟩
      (.more (.string .single "'\\\"\n") ⟨.space, []⟩
        (.last (.int 9223372036854775807 (by decide)))))

theorem lex_writing_sample :
    Position.Countable (Separator.optional (some ⟨.feed, []⟩) ++ Writing.sample.text) ∧
      lex "\nif /*/***///é\n\tif2\r\n'\\'\\\\\"\n' 9223372036854775807" =
        .ok [⟨.keyword .ifWord, ⟨2, 1⟩⟩, ⟨.ident "if2", ⟨3, 2⟩⟩,
          ⟨.const (.string "'\\\"\n"), ⟨4, 1⟩⟩, ⟨.const (.int 9223372036854775807), ⟨5, 3⟩⟩,
          ⟨.eof, ⟨5, 22⟩⟩] := by
  have hcountable :
      Position.Countable (Separator.optional (some ⟨.feed, []⟩) ++ Writing.sample.text) :=
    Position.countable_of_length (by decide)
  exact ⟨hcountable, lex_writing (some ⟨.feed, []⟩) Writing.sample hcountable⟩

end Nominal
