import Nominal.Lexer.Number
import Nominal.Lexer.StringBody
import Nominal.Text.Bytes
import Nominal.Token

/-!
# Pieces of a source text

A source text is a sequence of pieces: white space, comments and lexemes. The piece at the head of
a text is the longest one that starts there.

* `Piece`: the characters of a piece and the lexeme they write, if any.
* `Piece.next`: the piece at the head of a text and the text behind it.
* `Piece.split`: all pieces of a text up to its end or its first fault.
* **`Piece.split_eq`**: the pieces of a text make up the text.
-/

namespace Nominal

/-- A stretch of source text. -/
structure Piece where
  text : List Char
  /-- The lexeme they write; nothing for white space and comments. -/
  lexeme : Option Lexeme

namespace Piece

/-- White space between tokens. -/
def isBlank (c : Char) : Bool := c == ' ' || c == '\t' || c == '\r' || c == '\n'

/-- The characters an identifier starts with. -/
def isWordStart (c : Char) : Bool := c.isAlpha || c == '_'

/-- The characters an identifier goes on with. -/
def isWordPart (c : Char) : Bool := c.isAlphanum || c == '_'

/-- The lexeme that a word writes: a reserved word, a named constant, or else an identifier. -/
def ofWord (word : String) : Lexeme :=
  match Keyword.ofSpelling? word with
  | some k => .keyword k
  | none =>
    if word = "True" then .const (.bool true)
    else if word = "False" then .const (.bool false)
    else if word = "None" then .const .none
    else .ident word

/-- The body of a block comment up to and with its first end mark, and the text behind it. -/
def blockComment : List Char → Option (List Char × List Char)
  | '*' :: '/' :: rest => some (['*', '/'], rest)
  | c :: cs => (blockComment cs).map fun (body, rest) => (c :: body, rest)
  | [] => none

/-- The longest run of characters with a property behind a first character, and the text behind
it. -/
def run (p : Char → Bool) (c : Char) (cs : List Char) : List Char × List Char :=
  (c :: cs.takeWhile p, cs.dropWhile p)

/-- The longest mark at the head of a text, and the text behind it. -/
def mark (c : Char) (cs : List Char) : Except LexFault (Piece × List Char) :=
  let single := match Mark.ofChar? c with
    | some m => .ok (⟨[c], some (.mark m)⟩, cs)
    | none => .error (.unexpectedChar c)
  match cs with
  | d :: rest =>
    match Mark.ofPair? c d with
    | some m => .ok (⟨[c, d], some (.mark m)⟩, rest)
    | none => single
  | [] => single

/-- The string that a quote opens, and the text behind it. -/
def string (quote : Char) (cs : List Char) : Except LexFault (Piece × List Char) :=
  match StringBody.scan quote cs with
  | .error f => .error f
  | .ok (items, rest) =>
    .ok (⟨quote :: StringBody.written items ++ [quote],
      some (.const (.string (StringBody.meaning items)))⟩, rest)

/-- The piece at the head of the text `c :: cs`, and the text behind it. -/
def next (c : Char) (cs : List Char) : Except LexFault (Piece × List Char) :=
  if isBlank c then
    let (text, rest) := run isBlank c cs
    .ok (⟨text, none⟩, rest)
  else if c = '/' && cs.head? = some '/' then
    let (text, rest) := run (· != '\n') c cs
    .ok (⟨text, none⟩, rest)
  else if c = '/' && cs.head? = some '*' then
    match blockComment cs.tail with
    | some (body, rest) => .ok (⟨'/' :: '*' :: body, none⟩, rest)
    | none => .error .unterminatedComment
  else if c = '"' || c = '\'' then string c cs
  else if c.isDigit then
    let (text, rest) := run Number.isPart c cs
    match Number.classify text with
    | .ok value => .ok (⟨text, some (.const value)⟩, rest)
    | .error f => .error f
  else if isWordStart c then
    let (text, rest) := run isWordPart c cs
    .ok (⟨text, some (ofWord (String.ofList text))⟩, rest)
  else mark c cs

/-! ## A piece and the text behind it -/

theorem blockComment_eq {cs body rest : List Char} (h : blockComment cs = some (body, rest)) :
    cs = body ++ rest := by
  fun_induction blockComment cs generalizing body with
  | case1 => cases h; rfl
  | case2 c cs _ ih =>
    obtain ⟨⟨b, r⟩, hb, he⟩ := Option.map_eq_some_iff.1 h
    cases he
    rw [ih hb, List.cons_append]
  | case3 => cases h

theorem run_eq (p : Char → Bool) (c : Char) (cs : List Char) :
    (run p c cs).1 ++ (run p c cs).2 = c :: cs := by
  simp [run, List.takeWhile_append_dropWhile]

theorem mark_eq {c : Char} {cs rest : List Char} {p : Piece} (h : mark c cs = .ok (p, rest)) :
    c :: cs = p.text ++ rest := by
  unfold mark at h
  cases cs with
  | nil => cases hc : Mark.ofChar? c <;> simp only [hc] at h <;> cases h; rfl
  | cons d cs =>
    cases hd : Mark.ofPair? c d with
    | some m => simp only [hd] at h; cases h; rfl
    | none => cases hc : Mark.ofChar? c <;> simp only [hd, hc] at h <;> cases h; rfl

theorem string_eq {c : Char} {cs rest : List Char} {p : Piece} (h : string c cs = .ok (p, rest)) :
    c :: cs = p.text ++ rest := by
  unfold string at h
  split at h
  · cases h
  · next hs => cases h; simp [StringBody.scan_eq hs]

/-- A piece and the text behind it are the text it was read from. -/
theorem next_eq {c : Char} {cs rest : List Char} {p : Piece} (h : next c cs = .ok (p, rest)) :
    c :: cs = p.text ++ rest := by
  unfold next at h
  split at h
  · cases h; exact (run_eq ..).symm
  split at h
  · cases h; exact (run_eq ..).symm
  split at h
  · next hc =>
    simp only [Bool.and_eq_true, decide_eq_true_eq] at hc
    split at h
    · next hb =>
      cases h
      cases cs with
      | nil => simp at hc
      | cons d cs =>
        obtain ⟨rfl, hd⟩ := hc
        simp only [List.head?_cons, Option.some.injEq] at hd
        rw [List.tail_cons] at hb
        rw [hd, blockComment_eq hb]
        rfl
    · cases h
  split at h
  · exact string_eq h
  split at h
  · simp only at h
    split at h
    · cases h; exact (run_eq ..).symm
    · cases h
  split at h
  · cases h; exact (run_eq ..).symm
  · exact mark_eq h

theorem next_text_ne_nil {c : Char} {cs rest : List Char} {p : Piece}
    (h : next c cs = .ok (p, rest)) : p.text ≠ [] := by
  unfold next at h
  split at h
  · cases h; simp
  split at h
  · cases h; simp
  split at h
  · split at h
    · cases h; simp
    · cases h
  split at h
  · unfold string at h
    split at h
    · cases h
    · cases h; simp
  split at h
  · simp only at h
    split at h
    · cases h; simp [run]
    · cases h
  split at h
  · cases h; simp
  · unfold mark at h
    cases cs with
    | nil => cases hc : Mark.ofChar? c <;> simp only [hc] at h <;> cases h; simp
    | cons d cs =>
      cases hd : Mark.ofPair? c d with
      | some m => simp only [hd] at h; cases h; simp
      | none => cases hc : Mark.ofChar? c <;> simp only [hd, hc] at h <;> cases h; simp

/-- The text behind a piece is shorter than the text it was read from. -/
theorem next_length {c : Char} {cs rest : List Char} {p : Piece} (h : next c cs = .ok (p, rest)) :
    rest.length < (c :: cs).length := by
  have hpos := List.length_pos_iff.2 (next_text_ne_nil h)
  rw [next_eq h, List.length_append]
  omega

/-! ## All pieces of a text -/

/-- The pieces of a text, in order, up to its end or to the first place where no piece starts, and
the fault of that place. -/
def split (cs : List Char) : List Piece × Option LexFault :=
  match cs with
  | [] => ([], none)
  | c :: cs =>
    match _h : next c cs with
    | .error f => ([], some f)
    | .ok (p, rest) =>
      let (ps, f) := split rest
      (p :: ps, f)
termination_by cs.length
decreasing_by exact next_length _h

theorem split_nil : split [] = ([], none) := by rw [split]

theorem split_error {c : Char} {cs : List Char} {f : LexFault} (h : next c cs = .error f) :
    split (c :: cs) = ([], some f) := by
  rw [split]
  split
  · next hf => rw [h] at hf; cases hf; rfl
  · next hp => rw [h] at hp; cases hp

theorem split_ok {c : Char} {cs rest : List Char} {p : Piece} (h : next c cs = .ok (p, rest)) :
    split (c :: cs) = (p :: (split rest).1, (split rest).2) := by
  rw [split]
  split
  · next hf => rw [h] at hf; cases hf
  · next hp => rw [h] at hp; cases hp; rfl

/-- The text of pieces. -/
def source (ps : List Piece) : List Char := ps.flatMap text

theorem source_cons (p : Piece) (ps : List Piece) : source (p :: ps) = p.text ++ source ps := rfl

/-- The pieces of a text are the text up to its end or its first fault. -/
theorem split_eq (cs : List Char) :
    ∃ rest, cs = source (split cs).1 ++ rest ∧ ((split cs).2 = none → rest = []) := by
  fun_induction split cs with
  | case1 => exact ⟨[], rfl, fun _ => rfl⟩
  | case2 c cs f => exact ⟨c :: cs, rfl, fun h => by cases h⟩
  | case3 c cs p rest hp ps f hs ih =>
    rw [hs] at ih
    obtain ⟨r, hr, hn⟩ := ih
    refine ⟨r, ?_, hn⟩
    rw [next_eq hp, hr]
    simp [source]

/-- The number of bytes of a piece. -/
def size (p : Piece) : Nat := Text.byteCount p.text

end Piece

end Nominal
