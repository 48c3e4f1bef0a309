import Nominal.Proofs.Grammar

/-!
# Partitions of a source text

The tokens of a text come from one way only to cut it into white space, comments and lexemes of
which each is as long as it can be.

* `Piece.Longest`, `Piece.Cut`: pieces that are as long as they can be, one after the other.
* **`Piece.Cut.unique`**: there is at most one such way to cut a text.
* **`Piece.exists_cut`**: the lexer finds it, white space taken character by character.
* `Position.Before`: reading order.
* `Lexeme.payload?`: the name or the constant that a lexeme carries.
* **`lex_partition`**: what the tokens of a text say about it.
-/

namespace Nominal

/-! ## Cutting -/

namespace Piece

/-- No piece of a form that starts where `p` starts is longer, if the given text follows. -/
def Longest (p : Piece) (rest : List Char) : Prop :=
  ∀ q, Formed q → q.text <+: p.text ++ rest → q.text.length ≤ p.text.length

/-- A text is cut into pieces of some form, each of them as long as it can be. -/
inductive Cut : List Piece → List Char → Prop where
  | nil : Cut [] []
  | cons {p : Piece} {ps : List Piece} {rest : List Char} : p.Formed → p.Longest rest →
      Cut ps rest → Cut (p :: ps) (p.text ++ rest)

variable {p q : Piece} {ps qs : List Piece} {c : Char} {cs rest : List Char}

theorem Formed.eq_of_text (hp : p.Formed) (hq : q.Formed) (h : p.text = q.text) : p = q :=
  eq_of_reads hp.next_self hq.next_self h

theorem Cut.source_eq (h : Cut ps cs) : source ps = cs := by
  induction h with
  | nil => rfl
  | cons _ _ _ ih => rw [source_cons, ih]

/-- **There is at most one way to cut a text.** -/
theorem Cut.unique (h : Cut ps cs) (h' : Cut qs cs) : ps = qs := by
  induction h generalizing qs with
  | nil =>
    generalize hcs : [] = cs at h'
    cases h' with
    | nil => rfl
    | cons hq => exact absurd (List.append_eq_nil_iff.1 hcs.symm).1 hq.text_ne_nil
  | @cons p ps rest hp hlongest _ ih =>
    generalize hcs : p.text ++ rest = cs at h'
    cases h' with
    | nil => exact absurd (List.append_eq_nil_iff.1 hcs).1 hp.text_ne_nil
    | @cons q qs rest' hq hlongest' hqs =>
      have hqp : q.text.length ≤ p.text.length :=
        hlongest q hq (hcs ▸ List.prefix_append q.text rest')
      have hpq : p.text.length ≤ q.text.length :=
        hlongest' p hp (hcs ▸ List.prefix_append p.text rest)
      obtain ⟨htext, rfl⟩ := List.append_inj hcs (le_antisymm hpq hqp)
      rw [hp.eq_of_text hq htext, ih hqs]

theorem exists_blank (hc : isBlank c = true) : ∃ b : Blank, b.char = c := by
  have hseparated : Separated [c] := by simpa [Separated] using hc
  obtain h | ⟨b, ds, h⟩ := hseparated.eq_nil_or_cons
  · cases h
  · exact ⟨b, (List.cons.inj h).1.symm⟩

/-- A piece of a form that starts with a blank is this blank. -/
theorem Formed.length_le_one (hq : q.Formed) (hc : isBlank c = true) (h : q.text <+: c :: cs) :
    q.text.length ≤ 1 := by
  obtain ⟨d, ds, htext, hnext⟩ := hq.next_self
  obtain ⟨tail, htail⟩ := h
  rw [htext] at htail
  obtain ⟨rfl, -⟩ := List.cons.inj htail
  rw [next_blank hc] at hnext
  have hlexeme : Option.none = q.lexeme :=
    congrArg (fun r => r.1.lexeme) (Except.ok.inj hnext)
  cases hq with
  | blank b => exact le_refl _
  | line | block =>
    obtain ⟨rfl, -⟩ := List.cons.inj htext
    cases hc
  | mark | keyword | bool | none | ident | int | float | string => cases hlexeme

/-- **The lexer finds the way to cut a text**, white space taken character by character. -/
theorem exists_cut (h : (split cs).2 = none) :
    ∃ ps, Cut ps cs ∧ ∀ p, scan p cs = (tokensAt p ps, none) := by
  induction hlength : cs.length using Nat.strong_induction_on generalizing cs with
  | h length ih =>
    subst hlength
    cases cs with
    | nil => exact ⟨[], .nil, fun p => scan_nil⟩
    | cons c cs =>
      cases hc : isBlank c with
      | true =>
        have hsplit : (split cs).2 = none := by
          rw [← h]
          exact (congrArg Prod.snd (scan_blank hc (p := .start))).symm
        obtain ⟨ps, hps, hscan⟩ := ih cs.length (Nat.lt_succ_self _) hsplit rfl
        obtain ⟨b, rfl⟩ := exists_blank hc
        refine ⟨⟨[b.char], none⟩ :: ps, .cons (.blank b) (fun q hq hpre => ?_) hps, fun p => ?_⟩
        · exact hq.length_le_one b.isBlank_char hpre
        · rw [scan_blank hc, hscan]
          rfl
      | false =>
        cases hnext : next c cs with
        | error f =>
          rw [split_error hnext] at h
          cases h
        | ok r =>
          obtain ⟨piece, rest⟩ := r
          rw [split_ok hnext] at h
          obtain ⟨ps, hps, hscan⟩ := ih rest.length (next_length hnext) h rfl
          refine ⟨piece :: ps, ?_, fun p => ?_⟩
          · rw [next_eq hnext]
            refine .cons (next_formed hc hnext) (fun q hq hpre => ?_) hps
            rw [← next_eq hnext] at hpre
            exact hq.length_le hpre hnext
          · obtain ⟨text, lexeme⟩ := piece
            cases lexeme with
            | none =>
              rw [scan_skip hnext, hscan]
              rfl
            | some l =>
              rw [scan_token hnext, hscan]
              rfl

end Piece

/-! ## Reading order -/

namespace Position

/-- The place `p` stands before the place `q`. -/
def Before (p q : Position) : Prop := q.le p = false

variable {p q r : Position}

theorem before_iff :
    p.Before q ↔ p.line < q.line ∨ (p.line = q.line ∧ p.column < q.column) := by
  simp only [Before, le, Bool.or_eq_false_iff, Bool.and_eq_false_imp, decide_eq_false_iff_not,
    beq_iff_eq]
  omega

theorem Before.trans (h : p.Before q) (h' : q.Before r) : p.Before r := by
  rw [before_iff] at *
  omega

theorem before_advance (p : Position) (c : Char) : p.Before (p.advance c) := by
  rw [before_iff, advance]
  split
  · exact .inl (Nat.lt_succ_self _)
  · exact .inr ⟨rfl, Nat.lt_succ_self _⟩

theorem before_after (p : Position) {cs : List Char} (h : cs ≠ []) : p.Before (p.after cs) := by
  induction cs generalizing p with
  | nil => exact absurd rfl h
  | cons c cs ih =>
    rw [after_cons]
    cases cs with
    | nil => exact p.before_advance c
    | cons d ds => exact (p.before_advance c).trans (ih _ (List.cons_ne_nil d ds))

end Position

/-! ## Tokens -/

/-- The tokens of the lexemes among pieces of a text that starts at `p`, each at the place of its
first character. -/
def placed (p : Position) : List Piece → List Token
  | [] => []
  | piece :: ps =>
    match piece.lexeme with
    | some l => ⟨l, p⟩ :: placed (p.after piece.text) ps
    | none => placed (p.after piece.text) ps

theorem tokensAt_append (p : Position) (ps qs : List Piece) :
    tokensAt p (ps ++ qs) = placed p ps ++ tokensAt (p.after (Piece.source ps)) qs := by
  induction ps generalizing p with
  | nil => rfl
  | cons piece ps ih =>
    rw [List.cons_append, tokensAt, placed, Piece.source_cons, Position.after_append, ih]
    cases piece.lexeme <;> rfl

theorem tokensAt_eq (p : Position) (ps : List Piece) :
    tokensAt p ps = placed p ps ++ [⟨.eof, p.after (Piece.source ps)⟩] := by
  have happend := tokensAt_append p ps []
  rwa [List.append_nil] at happend

/-- No token stands before the text, and all tokens stand in reading order. -/
theorem tokensAt_before {ps : List Piece} (h : ∀ piece ∈ ps, piece.text ≠ []) (p : Position) :
    (∀ t ∈ tokensAt p ps, t.position = p ∨ p.Before t.position) ∧
      (tokensAt p ps).Pairwise fun t u => t.position.Before u.position := by
  induction ps generalizing p with
  | nil => simp [tokensAt]
  | cons piece ps ih =>
    obtain ⟨htext, hrest⟩ := List.forall_mem_cons.1 h
    obtain ⟨hall, hpairwise⟩ := ih hrest (p.after piece.text)
    have hp := p.before_after htext
    have hbehind : ∀ t ∈ tokensAt (p.after piece.text) ps, p.Before t.position := by
      intro t ht
      obtain heq | hbefore := hall t ht
      · exact heq ▸ hp
      · exact hp.trans hbefore
    rw [tokensAt]
    cases piece.lexeme with
    | none => exact ⟨fun t ht => .inr (hbehind t ht), hpairwise⟩
    | some l =>
      exact ⟨List.forall_mem_cons.2 ⟨.inl rfl, fun t ht => .inr (hbehind t ht)⟩,
        List.pairwise_cons.2 ⟨hbehind, hpairwise⟩⟩

theorem exists_of_mem_tokensAt {p : Position} {ps : List Piece} {t : Token}
    (h : t ∈ tokensAt p ps) :
    ∃ before, before <+: Piece.source ps ∧ t.position = p.after before := by
  induction ps generalizing p with
  | nil =>
    obtain rfl := List.mem_singleton.1 h
    exact ⟨[], List.nil_prefix, rfl⟩
  | cons piece ps ih =>
    have hrest (h : t ∈ tokensAt (p.after piece.text) ps) :
        ∃ before, before <+: Piece.source (piece :: ps) ∧ t.position = p.after before := by
      obtain ⟨before, hbefore, hplace⟩ := ih h
      refine ⟨piece.text ++ before, (List.prefix_append_right_inj _).2 hbefore, ?_⟩
      rw [hplace, Position.after_append]
    rw [tokensAt] at h
    split at h
    · obtain rfl | h := List.mem_cons.1 h
      · exact ⟨[], List.nil_prefix, rfl⟩
      · exact hrest h
    · exact hrest h

/-- In a text without a place beyond the limit all tokens are reported at their places. -/
theorem tokensAt_capped {ps : List Piece} (h : Position.Countable (Piece.source ps)) :
    (tokensAt .start ps).map Token.capped = tokensAt .start ps := by
  have hcapped : ∀ t ∈ tokensAt .start ps, t.capped = t := fun t ht => by
    obtain ⟨before, hbefore, hplace⟩ := exists_of_mem_tokensAt ht
    rw [Token.capped, hplace, h.capped_after hbefore, ← hplace]
  rw [List.map_congr_left hcapped, List.map_id']

/-- What a lexeme carries besides its kind. -/
inductive Payload where
  | name (x : String)
  | constant (value : Literal)

/-- The name or the constant of a lexeme. -/
def Lexeme.payload? : Lexeme → Option Payload
  | .ident x => some (.name x)
  | .const value => some (.constant value)
  | _ => none

/-- No name is a reserved word, and no constant is a negative integer. -/
def Payload.Sound : Payload → Prop
  | .name x => x ∉ reservedWords
  | .constant (.int n) => 0 ≤ n
  | .constant _ => True

theorem Lexeme.isSome_payload?_iff (l : Lexeme) :
    l.payload?.isSome ↔ l.text = "<identifier>" ∨ l.text = "<constant>" := by
  cases l with
  | eof => decide
  | mark m => cases m <;> decide
  | keyword k => cases k <;> decide
  | ident x => exact ⟨fun _ => .inl rfl, fun _ => rfl⟩
  | const value => exact ⟨fun _ => .inr rfl, fun _ => rfl⟩

theorem Piece.Formed.sound {p : Piece} (h : p.Formed) {l : Lexeme} (hl : p.lexeme = some l) :
    l ≠ .eof ∧ ∀ a, l.payload? = some a → a.Sound := by
  cases h with
  | blank | line | block => cases hl
  | mark | keyword =>
    cases hl
    exact ⟨nofun, nofun⟩
  | ident x =>
    cases hl
    refine ⟨nofun, ?_⟩
    rintro _ ⟨⟩
    exact x.free
  | int digits hne hdigits hlt =>
    cases hl
    refine ⟨nofun, ?_⟩
    rintro _ ⟨⟩
    rw [Payload.Sound, Int64.le_iff_toInt_le, Int64.toInt_ofNat_of_lt hlt]
    exact Int.natCast_nonneg _
  | bool | none | float | string =>
    cases hl
    refine ⟨nofun, ?_⟩
    rintro _ ⟨⟩
    trivial

theorem Piece.Formed.not_ident {p : Piece} (h : p.Formed)
    (hp : String.ofList p.text ∈ reservedWords) (x : String) : p.lexeme ≠ some (.ident x) := by
  cases h with
  | ident y => exact absurd hp y.free
  | blank | line | block | mark | keyword | bool | none | int | float | string => exact nofun

theorem exists_of_mem_placed {p : Position} {ps : List Piece} {t : Token} (h : t ∈ placed p ps) :
    ∃ piece ∈ ps, piece.lexeme = some t.lexeme := by
  induction ps generalizing p with
  | nil => cases h
  | cons piece ps ih =>
    have hrest {p : Position} (h : t ∈ placed p ps) :
        ∃ piece' ∈ piece :: ps, piece'.lexeme = some t.lexeme := by
      obtain ⟨piece', hmem, hlexeme⟩ := ih h
      exact ⟨piece', List.mem_cons_of_mem piece hmem, hlexeme⟩
    rw [placed] at h
    split at h
    · next l hl =>
      obtain rfl | h := List.mem_cons.1 h
      · exact ⟨piece, List.mem_cons_self, hl⟩
      · exact hrest h
    · exact hrest h

/-! ## Partitions -/

/-- A text, the pieces that it is cut into, and the tokens that are read from it. -/
structure Partition (source : List Char) (ps : List Piece) (tokens : List Token) : Prop where
  cut : Piece.Cut ps source
  unique : ∀ qs, Piece.Cut qs source → qs = ps
  nonempty : ∀ piece ∈ ps, piece.text ≠ []
  reserved : ∀ piece ∈ ps, String.ofList piece.text ∈ reservedWords →
    ∀ x, piece.lexeme ≠ some (.ident x)
  /-- The tokens are the lexemes among the pieces, each at the place of its first character, and
  the end. A place beyond the limit is reported within it. -/
  tokens_eq : tokens = (tokensAt .start ps).map Token.capped
  tokensAt_eq : tokensAt .start ps =
    placed .start ps ++ [⟨.eof, Position.start.after source⟩]
  no_eof : ∀ t ∈ placed .start ps, t.lexeme ≠ .eof
  /-- In a text without a place beyond the limit the tokens stand at their places, one behind the
  other. -/
  places : Position.Countable source →
    tokens = tokensAt .start ps ∧ tokens.Pairwise fun t u => t.position.Before u.position
  payloads : ∀ t ∈ tokens,
    (t.lexeme.payload?.isSome ↔
      t.lexeme.text = "<identifier>" ∨ t.lexeme.text = "<constant>") ∧
    ∀ a, t.lexeme.payload? = some a → a.Sound

theorem Piece.Cut.formed {ps : List Piece} {cs : List Char} (h : Cut ps cs) :
    ∀ piece ∈ ps, piece.Formed := by
  induction h with
  | nil => exact fun _ hp => by cases hp
  | cons hp _ _ ih => exact List.forall_mem_cons.2 ⟨hp, ih⟩

/-- **The tokens of a text come from the only way to cut it** into white space, comments and
lexemes of which each is as long as it can be. -/
theorem lex_partition {source : String} {tokens : List Token} (h : lex source = .ok tokens) :
    ∃ ps, Partition source.toList ps tokens := by
  have hsplit : (Piece.split source.toList).2 = none := by
    unfold lex at h
    dsimp only at h
    split at h
    · next heq => rw [heq]
    · cases h
  obtain ⟨ps, hcut, hscan⟩ := Piece.exists_cut hsplit
  have htokens : tokens = (tokensAt .start ps).map Token.capped := by
    have hlex := lex_of_scan (hscan .start)
    rw [String.ofList_toList, h] at hlex
    exact Except.ok.inj hlex
  have hformed := hcut.formed
  have hnonempty : ∀ piece ∈ ps, piece.text ≠ [] := fun piece hp => (hformed piece hp).text_ne_nil
  have hat := tokensAt_eq .start ps
  rw [hcut.source_eq] at hat
  have hno : ∀ t ∈ placed .start ps, t.lexeme ≠ .eof := fun t ht => by
    obtain ⟨piece, hmem, hlexeme⟩ := exists_of_mem_placed ht
    exact ((hformed piece hmem).sound hlexeme).1
  refine ⟨ps, hcut, fun qs hqs => hqs.unique hcut, hnonempty,
    fun piece hp => (hformed piece hp).not_ident, htokens, hat, hno, fun hcountable => ?_,
    fun t ht => ⟨t.lexeme.isSome_payload?_iff, fun a ha => ?_⟩⟩
  · have hplaces : tokens = tokensAt .start ps :=
      htokens.trans (tokensAt_capped (hcut.source_eq.symm ▸ hcountable))
    exact ⟨hplaces, hplaces ▸ (tokensAt_before hnonempty .start).2⟩
  · rw [htokens, hat] at ht
    obtain ⟨u, hu, rfl⟩ := List.mem_map.1 ht
    obtain hu | hu := List.mem_append.1 hu
    · obtain ⟨piece, hmem, hlexeme⟩ := exists_of_mem_placed hu
      exact ((hformed piece hmem).sound hlexeme).2 a ha
    · obtain rfl := List.mem_singleton.1 hu
      cases ha

/-- A name, two marks and a number that stand next to each other, in front of a comment. -/
theorem lex_partition_dense :
    ∃ (tokens : List Token) (ps : List Piece), lex "ifx<<=7//" = .ok tokens ∧
      Partition "ifx<<=7//".toList ps tokens ∧
      tokens = [⟨.ident "ifx", ⟨1, 1⟩⟩, ⟨.mark .shl, ⟨1, 4⟩⟩, ⟨.mark .assign, ⟨1, 6⟩⟩,
        ⟨.const (.int 7), ⟨1, 7⟩⟩, ⟨.eof, ⟨1, 10⟩⟩] := by
  have hname : Piece.next 'i' ['f', 'x', '<', '<', '=', '7', '/', '/'] =
      .ok (⟨['i', 'f', 'x'], some (.ident "ifx")⟩, ['<', '<', '=', '7', '/', '/']) := rfl
  have hshift : Piece.next '<' ['<', '=', '7', '/', '/'] =
      .ok (⟨['<', '<'], some (.mark .shl)⟩, ['=', '7', '/', '/']) := rfl
  have hassign : Piece.next '=' ['7', '/', '/'] =
      .ok (⟨['='], some (.mark .assign)⟩, ['7', '/', '/']) := rfl
  have hnumber : Piece.next '7' ['/', '/'] =
      .ok (⟨['7'], some (.const (.int 7))⟩, ['/', '/']) := rfl
  have hcomment : Piece.next '/' ['/'] = .ok (⟨['/', '/'], none⟩, []) := rfl
  have hscan : scan .start ['i', 'f', 'x', '<', '<', '=', '7', '/', '/'] =
      ([⟨.ident "ifx", ⟨1, 1⟩⟩, ⟨.mark .shl, ⟨1, 4⟩⟩, ⟨.mark .assign, ⟨1, 6⟩⟩,
        ⟨.const (.int 7), ⟨1, 7⟩⟩, ⟨.eof, ⟨1, 10⟩⟩], none) := by
    rw [scan_token hname, scan_token hshift, scan_token hassign, scan_token hnumber,
      scan_skip hcomment, scan_nil]
    rfl
  have hlex := lex_of_scan hscan
  obtain ⟨ps, hps⟩ := lex_partition hlex
  exact ⟨_, ps, hlex, hps, rfl⟩

end Nominal
