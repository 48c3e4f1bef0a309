import Nominal.Proofs.Faults
import Nominal.Proofs.Numerals

/-!
# Runs of digits and dots

Where a token starts with a digit, the lexer takes the longest run of digits and dots. The dots of
the run decide what it is: an integer, if there is none and the value is a word; a float, if there
is one; and otherwise an error. The lexer goes on behind the run and never stops within it.

* `lexFrom`: what the lexer makes of a text that starts at a place.
* `lexFrom_append`: pieces in front of a text only add their tokens.
* `RunAt`: a token of a text starts with a digit, and the run at its place.
* `Continues`: the run is one token, and the lexer goes on behind it.
* **`NumberRuns`**, **`number_runs`**: all runs of a source.
-/

namespace Nominal

/-! ## The lexer from a place on -/

section From

variable {p : Position} {cs rest : List Char} {ps : List Piece}

/-- What the lexer makes of a text that starts at a place: its tokens, or its first error. -/
def lexFrom (p : Position) (cs : List Char) : Except LexError (List Token) :=
  match Piece.split cs with
  | (ps, none) => .ok ((tokensAt p ps).map Token.capped)
  | (ps, some f) => .error ⟨f, (p.after (Piece.source ps)).capped⟩

theorem lex_eq_lexFrom (source : String) : lex source = lexFrom .start source.toList := by
  unfold lexFrom
  split
  · next ps hsplit =>
    have hscan : scan .start source.toList = (tokensAt .start ps, none) := by rw [scan, hsplit]
    have hlex := lex_of_scan hscan
    rwa [String.ofList_toList] at hlex
  · next ps f hsplit =>
    have hlex := lex_of_split hsplit
    rwa [String.ofList_toList] at hlex

/-- Pieces in front of a text only add their tokens. -/
theorem lexFrom_append
    (h : Piece.split cs = (ps ++ (Piece.split rest).1, (Piece.split rest).2)) :
    lexFrom p cs = (lexFrom (p.after (Piece.source ps)) rest).map
      ((placed p ps).map Token.capped ++ ·) := by
  rw [lexFrom, lexFrom, h]
  rcases Piece.split rest with ⟨qs, _ | f⟩
  · simp [tokensAt_append, Except.map]
  · simp [Piece.source, Except.map]

end From

/-! ## Runs -/

namespace Number

variable {run rest : List Char} {value : Literal}

theorem exists_int (hcount : run.count '.' = 0) (h : Decimal.number run ≤ 2 ^ 63 - 1) :
    ∃ n : Int64, n.toInt = Decimal.number run ∧ classify run = .ok (.int n) := by
  have hnarrow : Decimal.narrow (Decimal.number run) = some (Int64.ofNat (Decimal.number run)) := by
    rw [Decimal.narrow_natCast, if_pos (by omega)]
  refine ⟨_, Word.narrow_eq_some_iff.1 hnarrow, ?_⟩
  simp only [classify, hcount, Decimal.valueOf_eq_number, hnarrow]

/-- One dot is enough for a float, with or without digits behind it. -/
theorem Heads.exists_float (h : Heads run (run ++ rest)) (hcount : run.count '.' = 1) :
    ∃ x, classify run = .ok (.float x) := by
  obtain ⟨⟨c, cs, rfl, hc, hcs⟩, -⟩ := h
  obtain ⟨whole, fraction, heq, hwhole, hfraction⟩ := Piece.exists_pointed hc hcs hcount
  exact ⟨_, heq ▸ Piece.classify_pointed hwhole hfraction⟩

theorem Heads.next (h : Heads run (run ++ rest)) (hvalue : classify run = .ok value) :
    ∃ c cs, run = c :: cs ∧
      Piece.next c (cs ++ rest) = .ok (⟨run, some (.const value)⟩, rest) := by
  obtain ⟨⟨c, cs, rfl, hc, hcs⟩, behind, heq, hbehind⟩ := h
  obtain rfl := List.append_cancel_left heq
  refine ⟨c, cs, rfl, ?_⟩
  rw [next_plain (isDigit_notMem hc), if_pos hc, run_append hcs hbehind]
  simp only [hvalue]

end Number

/-- A token of a text starts with a digit behind `before`, and `run` is the longest run of digits and
dots at its place. -/
structure RunAt (text before run rest : List Char) : Prop where
  text_eq : text = before ++ (run ++ rest)
  cut : Piece.CutBefore (run ++ rest) before
  heads : Number.Heads run (run ++ rest)

/-- Behind the tokens of the text before it, a run is the token of a constant, and the lexer goes on
behind the run. -/
def Continues (source : String) (before run rest : List Char) (value : Literal) : Prop :=
  ∃ front,
    lex (String.ofList before) = .ok (front ++ [⟨.eof, (Position.start.after before).capped⟩]) ∧
    lex source = (lexFrom (Position.start.after (before ++ run)) rest).map fun tokens =>
      front ++ ⟨.const value, (Position.start.after before).capped⟩ :: tokens

namespace RunAt

variable {source : String} {before run rest : List Char} {value : Literal} {f : LexFault}

/-- A run that is a number is a token, and nothing else of it is read. -/
theorem continues (h : RunAt source.toList before run rest)
    (hvalue : Number.classify run = .ok value) : Continues source before run rest value := by
  obtain ⟨htext, hcut, hheads⟩ := h
  obtain ⟨ps, rfl, hsplit⟩ := hcut.split_prefix
  obtain ⟨c, cs, hrun, hnext⟩ := hheads.next hvalue
  have hbefore := hsplit [] List.nil_prefix
  rw [List.append_nil, Piece.split_nil, List.append_nil] at hbefore
  have hpiece : Piece.split (run ++ rest) =
      ([⟨run, some (.const value)⟩] ++ (Piece.split rest).1, (Piece.split rest).2) := by
    conv_lhs => rw [hrun, List.cons_append, Piece.split_ok hnext]
    rfl
  have hsource : Piece.source [⟨run, some (.const value)⟩] = run := List.append_nil run
  refine ⟨(placed .start ps).map Token.capped, ?_, ?_⟩
  · rw [lex_eq_lexFrom, String.toList_ofList, lexFrom, hbefore]
    simp [tokensAt_eq, Token.capped]
  · rw [lex_eq_lexFrom, htext, lexFrom_append (hsplit _ (List.prefix_refl _)),
      lexFrom_append hpiece, Position.after_append, hsource]
    cases lexFrom ((Position.start.after (Piece.source ps)).after run) rest <;> rfl

theorem fails (h : RunAt source.toList before run rest)
    (hf : Number.classify run = .error f) :
    lex source = .error ⟨f, (Position.start.after before).capped⟩ := by
  obtain ⟨htext, hcut, hheads⟩ := h
  refine Malformed.lex_eq ⟨htext, hcut, ?_, rfl⟩
  obtain ⟨c, cs, rfl, -⟩ := hheads.digit
  exact Piece.next_error_iff.1 (Piece.next_of_heads hheads hf)

end RunAt

/-- What the lexer makes of the runs of digits and dots of a source. -/
structure NumberRuns (source : String) : Prop where
  int : ∀ before run rest, RunAt source.toList before run rest → run.count '.' = 0 →
    Decimal.number run ≤ 2 ^ 63 - 1 →
    ∃ n : Int64, n.toInt = Decimal.number run ∧ Continues source before run rest (.int n)
  overflow : ∀ before run rest, RunAt source.toList before run rest → run.count '.' = 0 →
    2 ^ 63 - 1 < Decimal.number run → lex source =
      .error ⟨.intOverflow (String.ofList run), (Position.start.after before).capped⟩
  float : ∀ before run rest, RunAt source.toList before run rest → run.count '.' = 1 →
    ∃ x, Continues source before run rest (.float x)
  dots : ∀ before run rest, RunAt source.toList before run rest → 2 ≤ run.count '.' →
    lex source = .error ⟨.tooManyDots, (Position.start.after before).capped⟩
  only : ∀ place, lex source = .error ⟨.tooManyDots, place⟩ →
    ∃ before run rest, RunAt source.toList before run rest ∧ 2 ≤ run.count '.' ∧
      place = (Position.start.after before).capped

/-- **Runs of digits and dots are read whole, and their dots and their value decide.** -/
theorem number_runs (source : String) : NumberRuns source where
  int before run rest h hcount hle := by
    obtain ⟨n, hn, hvalue⟩ := Number.exists_int hcount hle
    exact ⟨n, hn, h.continues hvalue⟩
  overflow before run rest h hcount hlt := by
    refine h.fails (Number.classify_intOverflow hcount ?_)
    rw [Decimal.valueOf_eq_number]
    omega
  float before run rest h hcount := by
    obtain ⟨x, hvalue⟩ := h.heads.exists_float hcount
    exact ⟨x, h.continues hvalue⟩
  dots before run rest h hcount := h.fails (Number.classify_tooManyDots hcount)
  only place hlex := by
    obtain ⟨before, tail, htext, hcut, hspoils, hplace⟩ := exists_malformed hlex
    obtain ⟨run, hheads, hcount⟩ := hspoils
    obtain ⟨rest, rfl, -⟩ := hheads.behind
    exact ⟨before, run, rest, ⟨htext, hcut, hheads⟩, hcount, hplace⟩

/-- A run with one dot at its end, and one with two dots. -/
theorem number_runs_dots :
    let source := "007. 1..2"
    RunAt source.toList [] ['0', '0', '7', '.'] [' ', '1', '.', '.', '2'] ∧
      (∃ x, Continues source [] ['0', '0', '7', '.'] [' ', '1', '.', '.', '2'] (.float x)) ∧
      RunAt source.toList ['0', '0', '7', '.', ' '] ['1', '.', '.', '2'] [] ∧
      lex source = .error ⟨.tooManyDots, ⟨1, 6⟩⟩ := by
  intro source
  have hpointed : Number.Heads ['0', '0', '7', '.'] ['0', '0', '7', '.', ' ', '1', '.', '.', '2'] :=
    ⟨⟨'0', ['0', '7', '.'], rfl, rfl, by simp [Number.isPart]⟩,
      [' ', '1', '.', '.', '2'], rfl, by simp [Number.isPart]⟩
  have hdotted : Number.Heads ['1', '.', '.', '2'] ['1', '.', '.', '2'] :=
    ⟨⟨'1', ['.', '.', '2'], rfl, rfl, by simp [Number.isPart]⟩, [], rfl, by simp⟩
  have hfirst : RunAt source.toList [] ['0', '0', '7', '.'] [' ', '1', '.', '.', '2'] :=
    ⟨by decide, .nil, hpointed⟩
  -- the first run and the blank behind it are the pieces in front of the second run
  obtain ⟨x, hvalue⟩ := hfirst.heads.exists_float rfl
  obtain ⟨c, cs, hrun, hnext⟩ := hfirst.heads.next hvalue
  obtain ⟨rfl, rfl⟩ := List.cons.inj hrun
  have hblank : Piece.next ' ' ['1', '.', '.', '2'] =
      .ok (⟨[' '], none⟩, ['1', '.', '.', '2']) := rfl
  have hsecond : RunAt source.toList ['0', '0', '7', '.', ' '] ['1', '.', '.', '2'] [] :=
    ⟨by decide, (Piece.CutBefore.nil.next hblank).next hnext, hdotted⟩
  exact ⟨hfirst, (number_runs source).float _ _ _ hfirst rfl, hsecond,
    (number_runs source).dots _ _ _ hsecond (by decide)⟩

end Nominal
