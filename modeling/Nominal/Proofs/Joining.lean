import Nominal.Proofs.Faults

/-!
# Joined texts

No token or comment goes on behind a line feed, unless it is a string or a block comment that is
still open. A text that is lexed can so be joined with another one by a line feed: the tokens of the
other text follow, some lines further down, and so does its error.

* `Position.down`: the same column some lines further down.
* `scan_down`: a text is scanned in the same way wherever it starts.
* **`Piece.next_append_feed`**: a line feed does not change the piece in front of it.
* **`scan_append_feed`**: a text and another one behind a line feed are scanned one after the other.
* **`lex_join`**: what the lexer makes of joined texts.
-/

namespace Nominal

/-! ## Further down -/

namespace Position

/-- The same column `k` lines further down. -/
def down (k : Nat) (p : Position) : Position := ⟨p.line + k, p.column⟩

variable (k : Nat) (p : Position)

theorem advance_down (c : Char) : (p.down k).advance c = (p.advance c).down k := by
  rw [advance, advance]
  split
  · rw [down, down, Nat.add_right_comm]
  · rfl

theorem after_down (cs : List Char) : (p.down k).after cs = (p.after cs).down k := by
  induction cs generalizing p with
  | nil => rfl
  | cons c cs ih => rw [after_cons, after_cons, advance_down, ih]

/-- Behind a line feed, a text starts as many lines further down as there are line feeds. -/
theorem advance_feed (cs : List Char) :
    (start.after cs).advance '\n' = start.down (1 + cs.count '\n') := by
  rw [advance, if_pos rfl, after_line, down, Nat.add_comm 1 (cs.count '\n'), ← Nat.add_assoc]
  rfl

theorem Countable.of_infix {cs ds : List Char} (h : Countable ds) (hin : cs <:+: ds) :
    Countable cs := by
  refine ⟨lt_of_le_of_lt (Nat.succ_le_succ (hin.sublist.count_le '\n')) h.1, ?_⟩
  exact fun line hline => h.2 line (hline.trans hin)

end Position

/-- A token some lines further down. -/
def Token.down (k : Nat) (t : Token) : Token := ⟨t.lexeme, t.position.down k⟩

/-- An error some lines further down. -/
def LexError.down (k : Nat) (e : LexError) : LexError := ⟨e.fault, e.position.down k⟩

theorem tokensAt_down (k : Nat) (p : Position) (ps : List Piece) :
    tokensAt (p.down k) ps = (tokensAt p ps).map (Token.down k) := by
  induction ps generalizing p with
  | nil => rfl
  | cons piece ps ih =>
    rw [tokensAt, tokensAt, Position.after_down, ih]
    cases piece.lexeme <;> rfl

theorem scan_down (k : Nat) (p : Position) (cs : List Char) :
    scan (p.down k) cs = ((scan p cs).1.map (Token.down k), (scan p cs).2) := by
  rw [scan, tokensAt_down]
  rfl

/-! ## In front of a line feed -/

namespace Piece

variable {p : Piece} {c : Char} {cs rest : List Char}

/-- A run of characters of which the line feed is none ends in front of it. -/
theorem run_append_feed {P : Char → Bool} (hP : P '\n' = false) (c : Char) (cs ds : List Char) :
    run P c (cs ++ '\n' :: ds) = ((run P c cs).1, (run P c cs).2 ++ '\n' :: ds) := by
  have hrest : ∀ d ∈ (cs.dropWhile P ++ '\n' :: ds).head?, P d = false := by
    intro d hd
    have hstop := List.head?_dropWhile_not P cs
    cases hdrop : cs.dropWhile P with
    | nil =>
      rw [hdrop] at hd
      cases hd
      exact hP
    | cons e es =>
      rw [hdrop] at hd hstop
      cases hd
      exact hstop
  have hrun : run P c (cs.takeWhile P ++ (cs.dropWhile P ++ '\n' :: ds)) =
      (c :: cs.takeWhile P, cs.dropWhile P ++ '\n' :: ds) :=
    run_append (fun d hd => List.mem_takeWhile_imp hd) hrest
  rwa [← List.append_assoc, List.takeWhile_append_dropWhile] at hrun

theorem mark_append_feed (h : mark c cs = .ok (p, rest)) (ds : List Char) :
    mark c (cs ++ '\n' :: ds) = .ok (p, rest ++ '\n' :: ds) := by
  obtain ⟨d, es, m, rfl, hm⟩ | hpair := pair_or_single c cs
  · rw [mark_pair hm] at h
    cases h
    exact mark_pair hm
  · have hfeed : Mark.ofPair? c '\n' = none := by
      unfold Mark.ofPair?
      split <;> first | rfl | contradiction
    cases hm : Mark.ofChar? c with
    | none =>
      rw [mark_none hm] at h
      cases h
    | some m =>
      rw [mark_single hpair hm] at h
      cases h
      refine mark_single ?_ hm
      cases cs with
      | nil => simpa using hfeed
      | cons d es => simpa using hpair

/-- **A line feed does not change the piece in front of it.** -/
theorem next_append_feed (hc : isBlank c = false) (h : next c cs = .ok (p, rest))
    (ds : List Char) : next c (cs ++ '\n' :: ds) = .ok (p, rest ++ '\n' :: ds) := by
  have hhead {d : Char} (hd : d ≠ '\n') :
      ((cs ++ '\n' :: ds).head? = some d) = (cs.head? = some d) := by
    cases cs <;> simp [Ne.symm hd]
  unfold next at h ⊢
  simp only [hhead (show '/' ≠ '\n' by decide), hhead (show '*' ≠ '\n' by decide)]
  rw [hc, if_neg Bool.false_ne_true] at h ⊢
  split at h
  · next hslash =>
    rw [if_pos hslash, run_append_feed rfl]
    cases h
    rfl
  next hline =>
  rw [if_neg hline]
  split at h
  · next hslash =>
    rw [if_pos hslash]
    obtain ⟨rfl, cs, rfl⟩ := eq_of_opens hslash
    rw [List.tail_cons] at h
    rw [List.cons_append, List.tail_cons]
    split at h
    · next body behind hbody =>
      rw [blockComment_extend hbody]
      cases h
      rfl
    · cases h
  next hblock =>
  rw [if_neg hblock]
  split at h
  · next hquote =>
    rw [if_pos hquote]
    obtain ⟨q, rfl⟩ := exists_quote hquote
    unfold string at h ⊢
    split at h
    · cases h
    · next items behind hitems =>
      rw [StringBody.scan_extend hitems]
      cases h
      rfl
  next hquote =>
  rw [if_neg hquote]
  split at h
  · next hdigit =>
    rw [if_pos hdigit, run_append_feed rfl]
    dsimp only at h ⊢
    split at h
    · cases h
      rfl
    · cases h
  next hdigit =>
  rw [if_neg hdigit]
  split at h
  · next hword =>
    rw [if_pos hword, run_append_feed rfl]
    cases h
    rfl
  · next hword =>
    rw [if_neg hword]
    exact mark_append_feed h ds

end Piece

theorem exists_scan (p : Position) (cs : List Char) :
    ∃ ts q fault, scan p cs = (ts ++ [⟨.eof, q⟩], fault) := by
  rw [scan, tokensAt_eq]
  exact ⟨_, _, _, rfl⟩

theorem scan_end {p q : Position} {cs : List Char} {ts : List Token} {fault : Option LexFault}
    (h : scan p cs = (ts ++ [⟨.eof, q⟩], fault)) :
    q = p.after (Piece.source (Piece.split cs).1) := by
  rw [scan, tokensAt_eq] at h
  obtain ⟨-, hend⟩ := List.append_inj' (congrArg Prod.fst h) rfl
  cases hend
  rfl

/-- **A text and another one behind a line feed are scanned one after the other.** -/
theorem scan_append_feed {p q : Position} {a : List Char} {ta : List Token}
    (h : scan p a = (ta ++ [⟨.eof, q⟩], none)) (b : List Char) :
    scan p (a ++ '\n' :: b) =
      (ta ++ (scan (q.advance '\n') b).1, (scan (q.advance '\n') b).2) := by
  induction hlength : a.length using Nat.strong_induction_on generalizing a p ta with
  | h length ih =>
    subst hlength
    cases a with
    | nil =>
      have htokens : [] ++ [⟨.eof, p⟩] = ta ++ [⟨.eof, q⟩] :=
        congrArg Prod.fst (scan_nil.symm.trans h)
      obtain ⟨rfl, hend⟩ := List.append_inj' htokens rfl
      cases hend
      exact scan_blank rfl
    | cons c cs =>
      cases hc : Piece.isBlank c with
      | true =>
        rw [scan_blank hc] at h
        rw [List.cons_append, scan_blank hc, ih cs.length (Nat.lt_succ_self _) h rfl]
      | false =>
        cases hnext : Piece.next c cs with
        | error f =>
          have hfault := congrArg Prod.snd h
          rw [scan, Piece.split_error hnext] at hfault
          cases hfault
        | ok r =>
          obtain ⟨⟨text, lexeme⟩, rest⟩ := r
          have hjoined := Piece.next_append_feed hc hnext b
          have hlt := Piece.next_length hnext
          cases lexeme with
          | none =>
            rw [scan_skip hnext] at h
            rw [List.cons_append, scan_skip hjoined, ih rest.length hlt h rfl]
          | some l =>
            obtain ⟨ts, q', fault, hrest⟩ := exists_scan (p.after text) rest
            rw [scan_token hnext, hrest] at h
            obtain ⟨htokens, rfl⟩ := Prod.mk.inj h
            change ⟨l, p⟩ :: ts ++ [⟨.eof, q'⟩] = ta ++ [⟨.eof, q⟩] at htokens
            obtain ⟨rfl, hend⟩ := List.append_inj' htokens rfl
            cases hend
            rw [List.cons_append, scan_token hjoined, ih rest.length hlt hrest rfl]
            rfl

/-! ## The lexer -/

section

variable {source : String} {ts : List Token} {q : Position} {f : LexFault}

theorem lex_eq_ok (hs : Position.Countable source.toList)
    (h : scan .start source.toList = (ts ++ [⟨.eof, q⟩], none)) :
    lex source = .ok (ts ++ [⟨.eof, q⟩]) := by
  have htokens : tokensAt .start (Piece.split source.toList).1 = ts ++ [⟨.eof, q⟩] :=
    congrArg Prod.fst h
  obtain ⟨rest, hsource, hrest⟩ := Piece.split_eq source.toList
  rw [hrest (congrArg Prod.snd h), List.append_nil] at hsource
  have hlex := lex_of_scan h
  rwa [String.ofList_toList, ← htokens, tokensAt_capped (hsource ▸ hs), htokens] at hlex

theorem lex_eq_error (hs : Position.Countable source.toList)
    (h : scan .start source.toList = (ts ++ [⟨.eof, q⟩], some f)) :
    lex source = .error ⟨f, q⟩ := by
  obtain ⟨rest, hsource, -⟩ := Piece.split_eq source.toList
  have hfault : (Piece.split source.toList).2 = some f := congrArg Prod.snd h
  have hlex := lex_of_split (Prod.ext rfl hfault)
  rwa [String.ofList_toList, hs.capped_after ⟨rest, hsource.symm⟩, ← scan_end h] at hlex

theorem scan_of_lex (hs : Position.Countable source.toList)
    (h : lex source = .ok (ts ++ [⟨.eof, q⟩])) :
    scan .start source.toList = (ts ++ [⟨.eof, q⟩], none) := by
  obtain ⟨ts', q', fault, hscan⟩ := exists_scan .start source.toList
  cases fault with
  | none => rw [hscan, Except.ok.inj ((lex_eq_ok hs hscan).symm.trans h)]
  | some f => cases (lex_eq_error hs hscan).symm.trans h

/-- Behind a text that is lexed and a line feed, another text starts some lines further down. -/
theorem advance_of_scan (h : scan .start source.toList = (ts ++ [⟨.eof, q⟩], none)) :
    q.advance '\n' = Position.start.down (1 + source.toList.count '\n') := by
  obtain ⟨rest, hsource, hrest⟩ := Piece.split_eq source.toList
  rw [hrest (congrArg Prod.snd h), List.append_nil] at hsource
  rw [scan_end h, ← hsource, Position.advance_feed]

end

/-- **Lexing goes on behind a line feed.** If a text is lexed, the tokens of another text behind it
and a line feed follow those of the first one, and an error of the other text is the error of both.
Its lines are counted on from those of the first text. -/
theorem lex_join {a b : String} {ta : List Token} {q : Position}
    (ha : lex a = .ok (ta ++ [⟨.eof, q⟩])) (h : Position.Countable (a ++ "\n" ++ b).toList) :
    lex (a ++ "\n" ++ b) =
      match lex b with
      | .ok tb => .ok (ta ++ tb.map (Token.down (1 + a.toList.count '\n')))
      | .error e => .error (e.down (1 + a.toList.count '\n')) := by
  have htext : (a ++ "\n" ++ b).toList = a.toList ++ '\n' :: b.toList := by simp
  have hca : Position.Countable a.toList :=
    h.of_infix (htext ▸ (List.prefix_append _ _).isInfix)
  have hcb : Position.Countable b.toList :=
    h.of_infix ⟨a.toList ++ ['\n'], [], by simp⟩
  have hscan := scan_of_lex hca ha
  obtain ⟨tb, r, fault, hb⟩ := exists_scan .start b.toList
  have hjoin := scan_append_feed hscan b.toList
  rw [advance_of_scan hscan, scan_down, hb, List.map_append, ← List.append_assoc, ← htext] at hjoin
  cases fault with
  | none =>
    rw [lex_eq_ok h hjoin, lex_eq_ok hcb hb]
    dsimp only
    rw [List.map_append, ← List.append_assoc]
    rfl
  | some f =>
    rw [lex_eq_error h hjoin, lex_eq_error hcb hb]
    rfl

/-- A comment with a character of two bytes ends with its line, and a number stands two lines
further down. -/
theorem lex_join_comment :
    lex "x //é" = .ok ([⟨.ident "x", ⟨1, 1⟩⟩] ++ [⟨.eof, ⟨1, 6⟩⟩]) ∧
      Position.Countable ("x //é" ++ "\n" ++ "\n7").toList ∧
      lex ("x //é" ++ "\n" ++ "\n7") =
        .ok [⟨.ident "x", ⟨1, 1⟩⟩, ⟨.const (.int 7), ⟨3, 1⟩⟩, ⟨.eof, ⟨3, 2⟩⟩] := by
  have hname : Piece.next 'x' [' ', '/', '/', 'é'] =
      .ok (⟨['x'], some (.ident "x")⟩, [' ', '/', '/', 'é']) := rfl
  have hcomment : Piece.next '/' ['/', 'é'] = .ok (⟨['/', '/', 'é'], none⟩, []) := rfl
  have hnumber : Piece.next '7' [] = .ok (⟨['7'], some (.const (.int 7))⟩, []) := rfl
  have hscan : scan .start "x //é".toList = ([⟨.ident "x", ⟨1, 1⟩⟩] ++ [⟨.eof, ⟨1, 6⟩⟩], none) := by
    change scan .start ['x', ' ', '/', '/', 'é'] = _
    rw [scan_token hname, scan_blank rfl, scan_skip hcomment, scan_nil]
    rfl
  have hscan' : scan .start "\n7".toList =
      ([⟨.const (.int 7), ⟨2, 1⟩⟩] ++ [⟨.eof, ⟨2, 2⟩⟩], none) := by
    change scan .start ['\n', '7'] = _
    rw [scan_blank rfl, scan_token hnumber, scan_nil]
    rfl
  have ha := lex_eq_ok (Position.countable_of_length (by decide)) hscan
  have hcountable : Position.Countable ("x //é" ++ "\n" ++ "\n7").toList :=
    Position.countable_of_length (by decide)
  have hjoin := lex_join ha hcountable
  rw [lex_eq_ok (Position.countable_of_length (by decide)) hscan'] at hjoin
  exact ⟨ha, hcountable, hjoin⟩

end Nominal
