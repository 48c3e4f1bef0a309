import Nominal.Proofs.Partition

/-!
# Lexical faults

A text that is not lexed is cut into white space, comments and lexemes up to its first malformed
token. The rest of the text alone tells what is wrong, and the error stands where the rest starts.

* `Piece.Whole`: white space, a comment or a lexeme.
* `Piece.Matched`: what the rules of the lexer match, the openings of malformed tokens included.
* `Piece.CutBefore`: a text in front of another one, cut into the longest matches.
* `LexFault.Spoils`: what it is in a text that gives rise to each fault.
* **`Piece.next_error_iff`**: the lexer stops at a fault if and only if the text gives rise to it.
* **`Piece.Whole.next_append`**: the lexer cuts off the longest match.
* **`lex_error_exact`**: the errors of the lexer, and where they stand.
-/

namespace Nominal

/-! ## Faults of strings -/

namespace StringBody

variable {c : Char} {cs : List Char} {f : LexFault}

theorem hexDigits_error {n code : Nat} (h : hexDigits n code cs = .error f) :
    f = .unterminatedString ∨ f = .invalidEscape := by
  induction n generalizing code cs with
  | zero => cases h
  | succ n ih =>
    cases cs with
    | nil =>
      cases h
      exact .inl rfl
    | cons c cs =>
      rw [hexDigits] at h
      split at h
      · cases h
        exact .inr rfl
      · split at h
        · next hdigits =>
          cases h
          exact ih hdigits
        · cases h

theorem item_error (h : item c cs = .error f) : f = .unterminatedString ∨ f = .invalidEscape := by
  unfold item at h
  split at h
  · cases cs with
    | nil =>
      cases h
      exact .inl rfl
    | cons e cs =>
      rw [escape] at h
      split at h
      · cases h
      · split at h
        · cases h
          exact .inr rfl
        · split at h
          · next hdigits =>
            cases h
            exact hexDigits_error hdigits
          · split at h
            · cases h
              exact .inr rfl
            · cases h
  · cases h

theorem scan_error {quote : Char} (h : scan quote cs = .error f) :
    f = .unterminatedString ∨ f = .invalidEscape := by
  fun_induction scan quote cs with
  | case1 =>
    cases h
    exact .inl rfl
  | case2 => cases h
  | case3 c cs _ g hitem =>
    cases h
    exact item_error hitem
  | case4 c cs _ i rest hitem g hscan ih =>
    cases h
    exact ih hscan
  | case5 => cases h

end StringBody

/-! ## Faults of numbers -/

namespace Number

/-- A text starts with the digits and dots `run`, a digit first, and goes on with something else. -/
structure Heads (run text : List Char) : Prop where
  digit : ∃ c cs, run = c :: cs ∧ c.isDigit = true ∧ ∀ d ∈ cs, isPart d = true
  behind : ∃ rest, text = run ++ rest ∧ ∀ d ∈ rest.head?, isPart d = false

variable {c : Char} {cs : List Char} {f : LexFault}

theorem classify_tooManyDots {run : List Char} (h : 2 ≤ run.count '.') :
    classify run = .error .tooManyDots := by
  unfold classify
  split <;> first | rfl | omega

theorem classify_intOverflow {run : List Char} (hcount : run.count '.' = 0)
    (h : 2 ^ 63 ≤ Decimal.valueOf run) :
    classify run = .error (.intOverflow (String.ofList run)) := by
  rw [classify, hcount, Decimal.narrow_natCast, if_neg (not_lt.2 h)]
  rfl

/-- Digits and dots have too many dots, or none and a value too large. -/
theorem classify_error (hc : c.isDigit = true) (hcs : ∀ d ∈ cs, isPart d = true)
    (h : classify (c :: cs) = .error f) :
    (f = .tooManyDots ∧ 2 ≤ (c :: cs).count '.') ∨
      (f = .intOverflow (String.ofList (c :: cs)) ∧ (c :: cs).count '.' = 0 ∧
        2 ^ 63 ≤ Decimal.valueOf (c :: cs)) := by
  obtain hzero | hone | htwo : (c :: cs).count '.' = 0 ∨ (c :: cs).count '.' = 1 ∨
      2 ≤ (c :: cs).count '.' := by omega
  · rw [classify, hzero, Decimal.narrow_natCast] at h
    by_cases hlt : Decimal.valueOf (c :: cs) < 2 ^ 63
    · rw [if_pos hlt] at h
      cases h
    · rw [if_neg hlt] at h
      cases h
      exact .inr ⟨rfl, hzero, not_lt.1 hlt⟩
  · obtain ⟨whole, fraction, heq, hwhole, hfraction⟩ := Piece.exists_pointed hc hcs hone
    rw [heq, Piece.classify_pointed hwhole hfraction] at h
    cases h
  · rw [classify_tooManyDots htwo] at h
    cases h
    exact .inl ⟨rfl, htwo⟩

end Number

/-! ## The longest match -/

namespace Piece

/-- White space, a comment or a lexeme. -/
inductive Whole : Piece → Prop where
  | blanks (c : Char) (cs : List Char) : (∀ d ∈ c :: cs, isBlank d = true) → Whole ⟨c :: cs, none⟩
  | formed {p : Piece} : p.Formed → Whole p

/-- What the rules of the lexer match. They look at no more than the start of a comment or a string,
and at the digits and dots of a number, be it malformed. -/
inductive Matched : List Char → Prop where
  | whole {p : Piece} : p.Whole → Matched p.text
  | comment : Matched ['/', '*']
  | quote (q : Quote) : Matched [q.char]
  | number (c : Char) (cs : List Char) : c.isDigit = true → (∀ d ∈ cs, Number.isPart d = true) →
      Matched (c :: cs)

/-- Nothing longer than `p` is matched where `p` starts, if the given text follows. -/
def LongestMatch (p : Piece) (rest : List Char) : Prop :=
  ∀ m, Matched m → m <+: p.text ++ rest → m.length ≤ p.text.length

/-- In front of `tail`, a text is cut into pieces of which each is the longest match at its
place. -/
inductive CutBefore (tail : List Char) : List Char → Prop where
  | nil : CutBefore tail []
  | cons {p : Piece} {rest : List Char} : p.Whole → p.LongestMatch (rest ++ tail) →
      CutBefore tail rest → CutBefore tail (p.text ++ rest)

end Piece

/-- What it is in a text that gives rise to a fault at its first character. -/
def LexFault.Spoils (text : List Char) : LexFault → Prop
  | .unexpectedChar c =>
    ∃ rest, text = c :: rest ∧ ∀ p : Piece, p.Whole → p.text.head? ≠ some c
  | .unterminatedComment => ∃ rest, text = '/' :: '*' :: rest ∧ ¬ ['*', '/'] <:+: rest
  | .tooManyDots => ∃ run, Number.Heads run text ∧ 2 ≤ run.count '.'
  | .intOverflow digits => ∃ run, Number.Heads run text ∧ run.count '.' = 0 ∧
      2 ^ 63 ≤ Decimal.valueOf run ∧ digits = String.ofList run
  | .unterminatedString => ∃ (q : Quote) (rest : List Char), text = q.char :: rest ∧
      StringBody.scan q.char rest = .error .unterminatedString
  | .invalidEscape => ∃ (q : Quote) (rest : List Char), text = q.char :: rest ∧
      StringBody.scan q.char rest = .error .invalidEscape

namespace Piece

variable {p : Piece} {c : Char} {cs rest tail : List Char} {f : LexFault}

theorem next_whole (h : next c cs = .ok (p, rest)) : p.Whole := by
  cases hc : isBlank c with
  | true =>
    rw [next_blank hc] at h
    cases h
    exact .blanks c _ (List.forall_mem_cons.2 ⟨hc, fun d hd => List.mem_takeWhile_imp hd⟩)
  | false => exact .formed (next_formed hc h)

theorem Whole.next_self (h : p.Whole) : ∃ c cs, p.text = c :: cs ∧ next c cs = .ok (p, []) := by
  cases h with
  | blanks c cs hblank =>
    obtain ⟨hc, hcs⟩ := List.forall_mem_cons.1 hblank
    refine ⟨c, cs, rfl, ?_⟩
    rw [next_blank hc, List.takeWhile_eq_self_iff.2 hcs, List.dropWhile_eq_nil_iff.2 hcs]
  | formed h => exact h.next_self

theorem Whole.eq_of_text {q : Piece} (hp : p.Whole) (hq : q.Whole) (h : p.text = q.text) :
    p = q :=
  eq_of_reads hp.next_self hq.next_self h

theorem next_comment : next '/' ('*' :: cs) =
    match blockComment cs with
    | some (body, rest) => .ok (⟨'/' :: '*' :: body, none⟩, rest)
    | none => .error .unterminatedComment := by
  rw [next, if_neg (by decide), if_neg (by simp), if_pos (by rfl)]
  rfl

/-- **Nothing that is matched at the head of a text is longer than what the lexer cuts off.** -/
theorem Matched.length_le {m : List Char} (hm : Matched m) (hpre : m <+: c :: cs)
    (h : next c cs = .ok (p, rest)) : m.length ≤ p.text.length := by
  cases hm with
  | whole hq =>
    cases hq with
    | blanks d ds hblank =>
      obtain ⟨tail, htail⟩ := hpre
      obtain ⟨rfl, rfl⟩ := List.cons.inj htail
      obtain ⟨hd, hds⟩ := List.forall_mem_cons.1 hblank
      rw [next_blank hd] at h
      cases h
      exact le_length_run hds d tail
    | formed hq => exact hq.length_le hpre h
  | comment =>
    obtain ⟨tail, htail⟩ := hpre
    obtain ⟨rfl, rfl⟩ := List.cons.inj htail
    change next '/' ('*' :: tail) = _ at h
    rw [next_comment] at h
    split at h
    · cases h
      simp
    · cases h
  | quote q => exact List.length_pos_iff.2 (next_text_ne_nil h)
  | number d ds hd hds =>
    obtain ⟨tail, htail⟩ := hpre
    exact le_length_number hd hds htail h

/-! ## Where the lexer stops -/

theorem next_unexpected (hplain : c ∉ specialChars) (hdigit : c.isDigit = false)
    (hword : isWordStart c = false) (hmark : Mark.ofChar? c = none) (cs : List Char) :
    next c cs = .error (.unexpectedChar c) := by
  rw [next_plain hplain, if_neg (by simp [hdigit]), if_neg (by simp [hword]), mark_none hmark]

theorem mark_error (h : mark c cs = .error f) :
    f = .unexpectedChar c ∧ Mark.ofChar? c = none := by
  obtain ⟨d, ds, m, rfl, hm⟩ | hpair := pair_or_single c cs
  · rw [mark_pair hm] at h
    cases h
  · cases hm : Mark.ofChar? c with
    | none =>
      rw [mark_none hm] at h
      cases h
      exact ⟨rfl, rfl⟩
    | some m =>
      rw [mark_single hpair hm] at h
      cases h

/-- A block comment is not closed if no end mark follows. -/
theorem blockComment_eq_none_iff : blockComment cs = none ↔ ¬ ['*', '/'] <:+: cs := by
  fun_induction blockComment cs with
  | case1 rest => simp [List.infix_cons_iff]
  | case2 c cs hhead ih =>
    rw [Option.map_eq_none_iff, ih, List.infix_cons_iff, not_or]
    refine ⟨fun h => ⟨?_, h⟩, fun h => h.2⟩
    rintro ⟨t, ht⟩
    obtain ⟨rfl, rfl⟩ := List.cons.inj ht
    exact hhead t rfl rfl
  | case3 => simp

theorem heads_run (hc : c.isDigit = true) :
    Number.Heads (run Number.isPart c cs).1 (c :: cs) where
  digit := ⟨c, _, rfl, hc, fun d hd => List.mem_takeWhile_imp hd⟩
  behind := by
    refine ⟨_, (run_eq _ c cs).symm, fun d hd => ?_⟩
    have hstop := List.head?_dropWhile_not Number.isPart cs
    rwa [show (cs.dropWhile Number.isPart).head? = some d from hd] at hstop

theorem spoils_of_next (h : next c cs = .error f) : f.Spoils (c :: cs) := by
  unfold next at h
  split at h
  · cases h
  next hblank =>
  split at h
  · cases h
  split at h
  · next hslash =>
    obtain ⟨rfl, cs, rfl⟩ := eq_of_opens hslash
    split at h
    · cases h
    · next hnone =>
      cases h
      exact ⟨cs, rfl, blockComment_eq_none_iff.1 hnone⟩
  split at h
  · next hquote =>
    obtain ⟨q, rfl⟩ := exists_quote hquote
    unfold string at h
    split at h
    · next g hscan =>
      cases h
      obtain rfl | rfl := StringBody.scan_error hscan
      · exact ⟨q, cs, rfl, hscan⟩
      · exact ⟨q, cs, rfl, hscan⟩
    · cases h
  next hquote =>
  split at h
  · next hdigit =>
    dsimp only at h
    split at h
    · cases h
    · next g hg =>
      cases h
      obtain ⟨rfl, hdots⟩ | ⟨rfl, hdots, hvalue⟩ :=
        Number.classify_error hdigit (fun d hd => List.mem_takeWhile_imp hd) hg
      · exact ⟨_, heads_run hdigit, hdots⟩
      · exact ⟨_, heads_run hdigit, hdots, hvalue, rfl⟩
  next hdigit =>
  split at h
  · cases h
  · next hword =>
    obtain ⟨rfl, hmark⟩ := mark_error h
    have hplain : c ∉ specialChars := by
      intro hin
      simp only [specialChars, List.mem_cons, List.not_mem_nil, or_false] at hin
      obtain rfl | rfl | rfl | rfl | rfl | rfl | rfl := hin
      · exact hblank rfl
      · exact hblank rfl
      · exact hblank rfl
      · exact hblank rfl
      · cases hmark
      · exact hquote rfl
      · exact hquote rfl
    refine ⟨cs, rfl, fun p hp hhead => ?_⟩
    obtain ⟨d, ds, htext, hnext⟩ := hp.next_self
    rw [htext] at hhead
    cases hhead
    rw [next_unexpected hplain (by simpa using hdigit) (by simpa using hword) hmark] at hnext
    cases hnext

theorem next_of_heads {w : List Char} (h : Number.Heads w (c :: cs))
    (hw : Number.classify w = .error f) : next c cs = .error f := by
  obtain ⟨⟨d, ds, rfl, hd, hds⟩, rest, heq, hrest⟩ := h
  obtain ⟨rfl, rfl⟩ := List.cons.inj heq
  rw [next_plain (isDigit_notMem hd), if_pos hd, List.append_eq, run_append hds hrest, hw]

/-- Only an unexpected character is one that nothing starts with. -/
theorem starts_of_spoils (h : f.Spoils (c :: cs)) :
    f = .unexpectedChar c ∨ ∃ p : Piece, p.Whole ∧ p.text.head? = some c := by
  cases f with
  | unexpectedChar d =>
    obtain ⟨_, heq, -⟩ := h
    rw [(List.cons.inj heq).1]
    exact .inl rfl
  | unterminatedComment =>
    obtain ⟨_, heq, -⟩ := h
    rw [(List.cons.inj heq).1]
    exact .inr ⟨_, .formed (.mark .div), rfl⟩
  | tooManyDots | intOverflow =>
    obtain ⟨_, ⟨⟨d, ds, rfl, hd, -⟩, _, heq, -⟩, -⟩ := h
    obtain ⟨rfl, -⟩ := List.cons.inj heq
    have hfloat := Formed.float [c] [] (List.cons_ne_nil c []) (by simpa using hd) (by simp)
    exact .inr ⟨_, .formed hfloat, rfl⟩
  | unterminatedString | invalidEscape =>
    obtain ⟨q, _, heq, -⟩ := h
    rw [(List.cons.inj heq).1]
    exact .inr ⟨_, .formed (.string q [] (by simp)), rfl⟩

theorem head?_of_next (h : next c cs = .ok (p, rest)) : p.text.head? = some c := by
  obtain ⟨d, ds, htext⟩ := List.exists_cons_of_ne_nil (next_text_ne_nil h)
  have heq := next_eq h
  rw [htext] at heq ⊢
  rw [(List.cons.inj heq).1]
  rfl

theorem next_of_spoils (h : f.Spoils (c :: cs)) : next c cs = .error f := by
  cases f with
  | unexpectedChar d =>
    obtain ⟨_, heq, hnone⟩ := h
    obtain ⟨rfl, rfl⟩ := List.cons.inj heq
    cases hnext : next c cs with
    | ok r => exact absurd (head?_of_next hnext) (hnone r.1 (next_whole hnext))
    | error g =>
      obtain rfl | ⟨p, hp, hhead⟩ := starts_of_spoils (spoils_of_next hnext)
      · rfl
      · exact absurd hhead (hnone p hp)
  | unterminatedComment =>
    obtain ⟨rest, heq, hopen⟩ := h
    cases heq
    rw [next_comment, blockComment_eq_none_iff.2 hopen]
  | tooManyDots =>
    obtain ⟨w, hw, hdots⟩ := h
    exact next_of_heads hw (Number.classify_tooManyDots hdots)
  | intOverflow digits =>
    obtain ⟨w, hw, hdots, hvalue, rfl⟩ := h
    exact next_of_heads hw (Number.classify_intOverflow hdots hvalue)
  | unterminatedString | invalidEscape =>
    obtain ⟨q, rest, heq, hscan⟩ := h
    obtain ⟨rfl, rfl⟩ := List.cons.inj heq
    rw [q.next_char, string, hscan]

/-- **The lexer stops at a fault if and only if the text gives rise to it.** -/
theorem next_error_iff : next c cs = .error f ↔ f.Spoils (c :: cs) :=
  ⟨spoils_of_next, next_of_spoils⟩

/-! ## The longest match is cut off -/

/-- The digits and dots that a text starts with stand within the longest match. -/
theorem LongestMatch.heads {w : List Char} (h : p.LongestMatch rest)
    (hw : Number.Heads w (p.text ++ rest)) : Number.Heads w p.text := by
  obtain ⟨⟨c, cs, rfl, hc, hcs⟩, behind, heq, hbehind⟩ := hw
  obtain ⟨more, htext⟩ := List.prefix_of_prefix_length_le ⟨behind, heq.symm⟩
    (List.prefix_append p.text rest) (h _ (.number c cs hc hcs) ⟨behind, heq.symm⟩)
  refine ⟨⟨c, cs, rfl, hc, hcs⟩, more, htext.symm, fun d hd => hbehind d ?_⟩
  rw [← htext, List.append_assoc, List.append_cancel_left_eq] at heq
  rw [← heq, List.head?_append, hd]
  rfl

/-- No fault stands where a piece is the longest match. -/
theorem LongestMatch.not_spoils (h : p.LongestMatch rest) (hp : p.Whole) :
    ¬ f.Spoils (p.text ++ rest) := by
  obtain ⟨c, cs, htext, hself⟩ := hp.next_self
  intro hf
  cases f with
  | unexpectedChar d =>
    obtain ⟨_, heq, hnone⟩ := hf
    rw [htext] at heq
    obtain ⟨rfl, -⟩ := List.cons.inj heq
    exact hnone p hp (htext ▸ rfl)
  | unterminatedComment =>
    obtain ⟨behind, heq, hopen⟩ := hf
    have htwo := h ['/', '*'] .comment ⟨behind, heq.symm⟩
    rw [htext] at heq htwo
    cases cs with
    | nil => exact absurd htwo (by simp)
    | cons d ds =>
      cases heq
      have hopen' : ¬ ['*', '/'] <:+: ds := fun hin =>
        hopen (hin.trans (List.prefix_append ds rest).isInfix)
      rw [next_comment, blockComment_eq_none_iff.2 hopen'] at hself
      cases hself
  | tooManyDots =>
    obtain ⟨w, hw, hdots⟩ := hf
    have herror := next_of_heads (htext ▸ h.heads hw) (Number.classify_tooManyDots hdots)
    cases hself.symm.trans herror
  | intOverflow digits =>
    obtain ⟨w, hw, hdots, hvalue, rfl⟩ := hf
    have herror := next_of_heads (htext ▸ h.heads hw) (Number.classify_intOverflow hdots hvalue)
    cases hself.symm.trans herror
  | unterminatedString | invalidEscape =>
    obtain ⟨q, behind, heq, hscan⟩ := hf
    rw [htext] at heq
    obtain ⟨rfl, rfl⟩ := List.cons.inj heq
    rw [q.next_char, string] at hself
    split at hself
    · cases hself
    · next items rest' hitems =>
      rw [List.append_eq, StringBody.scan_extend hitems] at hscan
      cases hscan

/-- **The lexer cuts off the longest match.** -/
theorem Whole.next_append (hp : p.Whole) (h : p.LongestMatch rest) :
    ∃ c cs, p.text = c :: cs ∧ next c (cs ++ rest) = .ok (p, rest) := by
  obtain ⟨c, cs, htext, -⟩ := hp.next_self
  refine ⟨c, cs, htext, ?_⟩
  have happend : p.text ++ rest = c :: (cs ++ rest) := by rw [htext]; rfl
  cases hnext : next c (cs ++ rest) with
  | ok r =>
    obtain ⟨q, behind⟩ := r
    have hq := next_whole hnext
    have heq : p.text ++ rest = q.text ++ behind := happend.trans (next_eq hnext)
    have hpq : p.text.length ≤ q.text.length :=
      (Matched.whole hp).length_le (happend ▸ List.prefix_append p.text rest) hnext
    have hqp : q.text.length ≤ p.text.length :=
      h q.text (.whole hq) (heq ▸ List.prefix_append q.text behind)
    obtain ⟨htexts, rfl⟩ := List.append_inj heq (le_antisymm hpq hqp)
    rw [hp.eq_of_text hq htexts]
  | error f => exact absurd (happend ▸ next_error_iff.1 hnext) (h.not_spoils hp)

/-! ## Texts with a fault -/

theorem CutBefore.next (hnext : next c cs = .ok (p, rest ++ tail)) (h : CutBefore tail rest) :
    CutBefore tail (p.text ++ rest) := by
  refine .cons (next_whole hnext) (fun m hm hpre => hm.length_le ?_ hnext) h
  rwa [next_eq hnext]

theorem exists_cutBefore (cs : List Char) :
    ∃ tail, cs = source (split cs).1 ++ tail ∧ CutBefore tail (source (split cs).1) ∧
      ∀ f, (split cs).2 = some f → f.Spoils tail := by
  fun_induction split cs with
  | case1 => exact ⟨[], rfl, .nil, fun f hf => by cases hf⟩
  | case2 c cs f hnext =>
    refine ⟨c :: cs, rfl, .nil, ?_⟩
    rintro _ ⟨⟩
    exact next_error_iff.1 hnext
  | case3 c cs p rest hnext ps f hsplit ih =>
    rw [hsplit] at ih
    obtain ⟨tail, hrest, hcut, hf⟩ := ih
    refine ⟨tail, ?_, ?_, hf⟩
    · rw [next_eq hnext, hrest, source_cons, List.append_assoc]
    · rw [hrest] at hnext
      exact hcut.next hnext

/-- The pieces of a text start with those that it is cut into in front of a tail, also if only the
start of this tail follows. -/
theorem CutBefore.split_prefix (h : CutBefore tail cs) :
    ∃ ps, source ps = cs ∧
      ∀ t, t <+: tail → split (cs ++ t) = (ps ++ (split t).1, (split t).2) := by
  induction h with
  | nil => exact ⟨[], rfl, fun t _ => rfl⟩
  | @cons p rest hp hlongest _ ih =>
    obtain ⟨ps, hps, hsplit⟩ := ih
    refine ⟨p :: ps, by rw [source_cons, hps], fun t ht => ?_⟩
    have hlongest' : p.LongestMatch (rest ++ t) := fun m hm hpre => by
      obtain ⟨more, rfl⟩ := ht
      refine hlongest m hm (hpre.trans ⟨more, ?_⟩)
      rw [List.append_assoc, List.append_assoc]
    obtain ⟨c, cs, htext, hnext⟩ := hp.next_append hlongest'
    rw [List.append_assoc, htext, List.cons_append, split_ok hnext, hsplit t ht]
    rfl

theorem foldr_size (ps : List Piece) :
    ps.foldr (fun p n => p.size + n) 0 = Text.byteCount (source ps) := by
  induction ps with
  | nil => rfl
  | cons p ps ih =>
    rw [List.foldr_cons, ih, source_cons, Text.byteCount_append, size]

/-- A text that gives rise to a fault has nothing in front of it. -/
theorem split_of_spoils (h : f.Spoils tail) : split tail = ([], some f) := by
  cases tail with
  | nil =>
    cases f with
    | unexpectedChar | unterminatedComment =>
      obtain ⟨_, heq, -⟩ := h
      cases heq
    | tooManyDots | intOverflow =>
      obtain ⟨_, ⟨⟨_, _, rfl, -⟩, _, heq, -⟩, -⟩ := h
      cases heq
    | unterminatedString | invalidEscape =>
      obtain ⟨_, _, heq, -⟩ := h
      cases heq
  | cons c cs => exact split_error (next_error_iff.2 h)

end Piece

/-- An error is reported at the place behind the pieces in front of the malformed token. -/
theorem lex_of_split {cs : List Char} {ps : List Piece} {f : LexFault}
    (h : Piece.split cs = (ps, some f)) :
    lex (String.ofList cs) = .error ⟨f, (Position.start.after (Piece.source ps)).capped⟩ := by
  obtain ⟨rest, hsource, -⟩ := Piece.split_eq cs
  rw [h] at hsource
  have hposition := Lines.position_eq (Piece.source ps) rest
  rw [← hsource] at hposition
  rw [lex, String.toList_ofList, h]
  dsimp only
  rw [Piece.foldr_size, hposition]

/-- A text that is cut into pieces in front of a malformed token, and the error that tells what is
wrong with that token and where it starts. A place beyond the limit is reported within it. -/
structure Malformed (text : List Char) (e : LexError) (before tail : List Char) : Prop where
  text_eq : text = before ++ tail
  cut : Piece.CutBefore tail before
  spoils : e.fault.Spoils tail
  position_eq : e.position = (Position.start.after before).capped

variable {source : String} {e : LexError} {before tail : List Char}

theorem Malformed.lex_eq (h : Malformed source.toList e before tail) : lex source = .error e := by
  obtain ⟨htext, hcut, hspoils, hposition⟩ := h
  obtain ⟨ps, rfl, hsplit⟩ := hcut.split_prefix
  have hwhole := hsplit tail (List.prefix_refl _)
  rw [Piece.split_of_spoils hspoils, List.append_nil, ← htext] at hwhole
  have hlex := lex_of_split hwhole
  rwa [String.ofList_toList, ← hposition] at hlex

theorem exists_malformed (h : lex source = .error e) :
    ∃ before tail, Malformed source.toList e before tail := by
  obtain ⟨tail, htext, hcut, hfault⟩ := Piece.exists_cutBefore source.toList
  cases hsplit : Piece.split source.toList with
  | mk ps fault =>
    rw [hsplit] at htext hcut hfault
    cases fault with
    | none =>
      have hscan : scan .start source.toList = (tokensAt .start ps, none) := by rw [scan, hsplit]
      have hlex := lex_of_scan hscan
      rw [String.ofList_toList, h] at hlex
      cases hlex
    | some f =>
      have hlex := lex_of_split hsplit
      rw [String.ofList_toList, h] at hlex
      obtain rfl := Except.error.inj hlex
      exact ⟨Piece.source ps, tail, htext, hcut, hfault f rfl, rfl⟩

theorem Piece.CutBefore.lex_ok (h : Piece.CutBefore tail before) :
    ∃ tokens, lex (String.ofList before) = .ok tokens := by
  obtain ⟨ps, -, hsplit⟩ := h.split_prefix
  have halone := hsplit [] List.nil_prefix
  rw [List.append_nil, Piece.split_nil] at halone
  have hscan : (scan .start before).2 = none := congrArg Prod.snd halone
  exact ⟨_, lex_of_scan (Prod.ext rfl hscan)⟩

/-- A text gives rise to one fault at most. -/
theorem LexFault.Spoils.unique {f g : LexFault} (hf : f.Spoils tail) (hg : g.Spoils tail) :
    f = g := by
  have hsplit := (Piece.split_of_spoils hf).symm.trans (Piece.split_of_spoils hg)
  exact Option.some.inj (congrArg Prod.snd hsplit)

/-- **The errors of the lexer are exact.** They stand where the first malformed token starts: what
is before is lexed, and what follows gives rise to this fault and to no other. -/
theorem lex_error_exact (source : String) :
    (∀ e, lex source = .error e → ∃ before tail, Malformed source.toList e before tail ∧
      (∃ tokens, lex (String.ofList before) = .ok tokens) ∧
      (∀ f : LexFault, f.Spoils tail ↔ f = e.fault) ∧
      (Position.Countable source.toList → e.position = Position.start.after before)) ∧
    ∀ e before tail, Malformed source.toList e before tail → lex source = .error e := by
  refine ⟨fun e h => ?_, fun e before tail h => h.lex_eq⟩
  obtain ⟨before, tail, hmalformed⟩ := exists_malformed h
  refine ⟨before, tail, hmalformed, hmalformed.cut.lex_ok, fun f => ⟨fun hf => ?_, ?_⟩, ?_⟩
  · exact hf.unique hmalformed.spoils
  · rintro rfl
    exact hmalformed.spoils
  · intro hcountable
    rw [hmalformed.position_eq]
    exact hcountable.capped_after ⟨tail, hmalformed.text_eq.symm⟩

/-- A number with two dots behind a string with a character of two bytes. The character at the end,
which nothing starts with, is not reached. -/
theorem lex_error_exact_number :
    lex "'é' 1.2.3 $" = .error ⟨.tooManyDots, ⟨1, 5⟩⟩ ∧
      ∃ before tail, Malformed "'é' 1.2.3 $".toList ⟨.tooManyDots, ⟨1, 5⟩⟩ before tail ∧
        (∃ tokens, lex (String.ofList before) = .ok tokens) ∧
        ∀ f : LexFault, f.Spoils tail ↔ f = .tooManyDots := by
  have hitems : ∀ i ∈ [(⟨['é'], 'é'⟩ : StringBody.Item)], i.Formed .single := by
    simpa using StringBody.Item.Formed.plain 'é' (by decide) (by decide)
  have hstring (rest : List Char) : Piece.next '\'' ('é' :: '\'' :: rest) =
      .ok (⟨['\'', 'é', '\''], some (.const (.string "é"))⟩, rest) := by
    have hscan : StringBody.scan Quote.single.char ('é' :: Quote.single.char :: rest) =
        .ok ([⟨['é'], 'é'⟩], rest) := StringBody.scan_append hitems rest
    rw [show '\'' = Quote.single.char from rfl, Quote.next_char, Piece.string, hscan]
    rfl
  have hblank : Piece.next ' ' ['1', '.', '2', '.', '3', ' ', '$'] =
      .ok (⟨[' '], none⟩, ['1', '.', '2', '.', '3', ' ', '$']) := rfl
  have hnumber : Piece.next '1' ['.', '2', '.', '3', ' ', '$'] = .error .tooManyDots := rfl
  have hmalformed : Malformed "'é' 1.2.3 $".toList ⟨.tooManyDots, ⟨1, 5⟩⟩
      (['\'', 'é', '\''] ++ ([' '] ++ [])) ['1', '.', '2', '.', '3', ' ', '$'] := by
    have hcut := (Piece.CutBefore.nil.next hblank).next (hstring _)
    exact ⟨rfl, hcut, Piece.next_error_iff.1 hnumber, by decide⟩
  obtain ⟨hforward, hback⟩ := lex_error_exact "'é' 1.2.3 $"
  have hlex := hback _ _ _ hmalformed
  obtain ⟨before, tail, h, hbefore, honly, -⟩ := hforward _ hlex
  exact ⟨hlex, before, tail, h, hbefore, honly⟩

end Nominal
