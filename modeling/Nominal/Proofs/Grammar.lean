import Mathlib.Data.List.TakeWhile
import Nominal.Proofs.Rendering

/-!
# The lexical grammar

What white space, comments and lexemes look like, said of each on its own. The lexer cuts such
pieces only, and reads each of them back.

* `StringBody.Item.Formed`: one character of a string, plain or as an escape.
* `Piece.Formed`: white space, a comment or a lexeme, as it may stand in a text.
* **`Piece.next_formed`**: what the lexer cuts off behind white space has such a form.
* **`Piece.Formed.next_self`**: the lexer reads a piece of such a form back.
* **`Piece.Formed.length_le`**: no piece of such a form is longer than what the lexer cuts off.
-/

namespace Nominal

/-! ## Characters of strings -/

namespace StringBody

/-- The code that hexadecimal digits behind others write. -/
def hexCode (code : Nat) (digits : List Char) : Nat :=
  digits.foldl (fun n d => 16 * n + (hexValue? d).getD 0) code

/-- A character of a string between quotes of the given kind, as it may be written. -/
inductive Item.Formed (q : Quote) : Item → Prop where
  | plain (c : Char) : c ≠ q.char → c ≠ '\\' → Formed q ⟨[c], c⟩
  | letter (e c : Char) : simpleEscape? e = some c → Formed q ⟨['\\', e], c⟩
  | code (e c : Char) (digits : List Char) : codeLength? e = some digits.length →
      (∀ d ∈ digits, (hexValue? d).isSome) → charOfCode? (hexCode 0 digits) = some c →
        Formed q ⟨'\\' :: e :: digits, c⟩

theorem hexDigits_append {code : Nat} {digits rest : List Char}
    (h : ∀ d ∈ digits, (hexValue? d).isSome) :
    hexDigits digits.length code (digits ++ rest) = .ok (digits, hexCode code digits, rest) := by
  induction digits generalizing code with
  | nil => rfl
  | cons d ds ih =>
    obtain ⟨hd, hds⟩ := List.forall_mem_cons.1 h
    obtain ⟨v, hv⟩ := Option.isSome_iff_exists.1 hd
    rw [List.length_cons, List.cons_append, hexDigits, hv]
    dsimp only
    rw [ih hds, hexCode, hexCode, List.foldl_cons, hv]
    rfl

theorem hexDigits_formed {n code code' : Nat} {cs digits rest : List Char}
    (h : hexDigits n code cs = .ok (digits, code', rest)) :
    digits.length = n ∧ (∀ d ∈ digits, (hexValue? d).isSome) ∧ code' = hexCode code digits := by
  induction n generalizing code cs digits with
  | zero =>
    cases h
    exact ⟨rfl, by simp, rfl⟩
  | succ n ih =>
    cases cs with
    | nil => cases h
    | cons c cs =>
      rw [hexDigits] at h
      cases hv : hexValue? c with
      | none =>
        rw [hv] at h
        cases h
      | some v =>
        rw [hv] at h
        dsimp only at h
        split at h
        · cases h
        · next ds code'' rest' hds =>
          cases h
          obtain ⟨hlength, hhex, hcode⟩ := ih hds
          refine ⟨congrArg (· + 1) hlength, List.forall_mem_cons.2 ⟨?_, hhex⟩, ?_⟩
          · rw [hv]
            rfl
          · rw [hcode, hexCode, hexCode, List.foldl_cons, hv]
            rfl

variable {q : Quote} {i : Item} {c : Char} {cs rest : List Char}

theorem item_formed (hc : c ≠ q.char) (h : item c cs = .ok (i, rest)) : i.Formed q := by
  unfold item at h
  split at h
  · cases cs with
    | nil => cases h
    | cons e cs =>
      rw [escape] at h
      split at h
      · next c' hescape =>
        cases h
        exact .letter e c' hescape
      · split at h
        · cases h
        · next n hn =>
          split at h
          · cases h
          · next digits code rest' hdigits =>
            obtain ⟨rfl, hhex, rfl⟩ := hexDigits_formed hdigits
            split at h
            · cases h
            · next c' hchar =>
              cases h
              exact .code e c' digits hn hhex hchar
  · next hbackslash =>
    cases h
    exact .plain c hc hbackslash

/-- A character of a form is read back. -/
theorem Item.Formed.item_append (h : i.Formed q) (rest : List Char) :
    ∃ c cs, i.text = c :: cs ∧ c ≠ q.char ∧ item c (cs ++ rest) = .ok (i, rest) := by
  cases h with
  | plain c hq hbackslash => exact ⟨c, [], rfl, hq, if_neg hbackslash⟩
  | letter e c hescape =>
    refine ⟨'\\', [e], rfl, q.char_ne, ?_⟩
    rw [item, if_pos rfl, List.singleton_append, escape, hescape]
  | code e c digits hlength hhex hchar =>
    refine ⟨'\\', e :: digits, rfl, q.char_ne, ?_⟩
    have hsimple : simpleEscape? e = none := by
      unfold codeLength? at hlength
      split at hlength <;> first | rfl | cases hlength
    rw [item, if_pos rfl, List.cons_append, escape, hsimple]
    dsimp only
    rw [hlength]
    dsimp only
    rw [hexDigits_append hhex]
    dsimp only
    rw [hchar]

theorem scan_formed {items : List Item} (h : scan q.char cs = .ok (items, rest)) :
    ∀ i ∈ items, i.Formed q := by
  fun_induction scan q.char cs generalizing items with
  | case1 => cases h
  | case2 cs => cases h; simp
  | case3 => cases h
  | case4 => cases h
  | case5 c cs hc i rest' hi items' rest'' hs ih =>
    cases h
    exact List.forall_mem_cons.2 ⟨item_formed hc hi, ih hs⟩

theorem scan_append {items : List Item} (h : ∀ i ∈ items, i.Formed q) (rest : List Char) :
    scan q.char (written items ++ q.char :: rest) = .ok (items, rest) := by
  induction items with
  | nil => rw [written, List.flatMap_nil, List.nil_append, scan, if_pos rfl]
  | cons i items ih =>
    obtain ⟨hi, hitems⟩ := List.forall_mem_cons.1 h
    obtain ⟨c, cs, htext, hc, hitem⟩ := hi.item_append (written items ++ q.char :: rest)
    have hwritten : written (i :: items) = c :: cs ++ written items := by
      rw [written, List.flatMap_cons, htext]
      rfl
    rw [hwritten, List.append_assoc, List.cons_append, scan_item hc hitem, ih hitems]

/-- What follows a string does not change it. -/
theorem scan_extend {items : List Item} (h : scan q.char cs = .ok (items, rest)) (ds : List Char) :
    scan q.char (cs ++ ds) = .ok (items, rest ++ ds) := by
  rw [scan_eq h, List.append_assoc, List.cons_append, scan_append (scan_formed h)]

end StringBody

/-! ## Numbers -/

namespace Decimal

/-- The float that digits around a point write. -/
def pointed (whole fraction : List Char) : Float :=
  ofDecimal (valueOf (whole ++ fraction)) (-fraction.length)

theorem toLower_of_isDigit {c : Char} (hc : c.isDigit = true) : c.toLower = c := by
  simp only [Char.isDigit, Bool.and_eq_true, decide_eq_true_eq, ge_iff_le,
    UInt32.le_iff_toNat_le] at hc
  rw [Char.toLower, dif_neg]
  rintro ⟨hA, -⟩
  have h9 : '9'.val.toNat = 57 := rfl
  have hcode : 'A'.val.toNat = 65 := rfl
  have hle := UInt32.le_iff_toNat_le.1 hA
  omega

theorem readFloat_pointed {c : Char} {whole fraction : List Char}
    (hwhole : ∀ d ∈ c :: whole, d.isDigit = true) (hfraction : ∀ d ∈ fraction, d.isDigit = true) :
    readFloat (c :: whole ++ '.' :: fraction) = some (pointed (c :: whole) fraction) := by
  have hc := hwhole c List.mem_cons_self
  have hne (d : Char) (hd : d.isDigit = false) : c ≠ d := by
    rintro rfl
    rw [hc] at hd
    cases hd
  -- neither a sign nor a name comes first
  have hunsigned : readFloat (c :: whole ++ '.' :: fraction) =
      readUnsigned (c :: whole ++ '.' :: fraction) := by
    unfold readFloat
    split
    · next h => exact absurd (List.cons.inj h).1 (hne '-' rfl)
    · next h => exact absurd (List.cons.inj h).1 (hne '+' rfl)
    · rfl
  have hname (d : Char) (ds : List Char) (hd : d.isDigit = false) :
      (c :: whole ++ '.' :: fraction).map Char.toLower ≠ d :: ds := by
    rw [List.cons_append, List.map_cons, toLower_of_isDigit hc]
    exact fun h => hne d hd (List.cons.inj h).1
  have hpart : (c :: whole ++ '.' :: fraction).takeWhile Char.isDigit = c :: whole ∧
      (c :: whole ++ '.' :: fraction).dropWhile Char.isDigit = '.' :: fraction := by
    rw [List.takeWhile_append_of_pos hwhole, List.dropWhile_append_of_pos hwhole]
    exact ⟨List.append_nil _, rfl⟩
  have hfraction' : fraction.takeWhile Char.isDigit = fraction ∧
      fraction.dropWhile Char.isDigit = [] :=
    ⟨List.takeWhile_eq_self_iff.2 hfraction, List.dropWhile_eq_nil_iff.2 hfraction⟩
  have hmagnitude : readUnsigned (c :: whole ++ '.' :: fraction) =
      readMagnitude (c :: whole ++ '.' :: fraction) := by
    unfold readUnsigned
    simp only [hname 'i' _ rfl, hname 'n' _ rfl, decide_false, Bool.or_self, Bool.false_eq_true,
      if_false]
  rw [hunsigned, hmagnitude, readMagnitude, hpart.1, hpart.2]
  simp only [hfraction'.1, hfraction'.2, List.isEmpty_cons, Bool.false_and, Bool.false_eq_true,
    if_false, readExponent, Option.map_some, Int.zero_sub, pointed]

end Decimal

/-! ## Marks -/

namespace Mark

theorem ofChar?_spelling {c : Char} {m : Mark} (h : ofChar? c = some m) :
    m.spelling.toList = [c] := by
  unfold ofChar? at h
  split at h <;> cases h <;> rfl

theorem ofPair?_spelling {c d : Char} {m : Mark} (h : ofPair? c d = some m) :
    m.spelling.toList = [c, d] := by
  unfold ofPair? at h
  split at h <;> cases h <;> rfl

end Mark

/-! ## Pieces -/

namespace Piece

open StringBody (Item written meaning)

/-- White space of one character, a comment or a lexeme, as it may stand in a text. -/
inductive Formed : Piece → Prop where
  | blank (b : Blank) : Formed ⟨[b.char], none⟩
  | line (comment : List Char) : '\n' ∉ comment → Formed ⟨'/' :: '/' :: comment, none⟩
  | block (comment : List Char) : ¬ ['*', '/'] <:+: comment →
      Formed ⟨'/' :: '*' :: (comment ++ ['*', '/']), none⟩
  | mark (m : Mark) : Formed ⟨m.spelling.toList, some (.mark m)⟩
  | keyword (k : Keyword) : Formed ⟨k.spelling.toList, some (.keyword k)⟩
  | bool (b : Bool) : Formed ⟨(Spelling.bool b).text, some (.const (.bool b))⟩
  | none : Formed ⟨Spelling.none.text, some (.const .none)⟩
  | ident (x : Name) : Formed ⟨x.head :: x.tail, some (.ident (String.ofList (x.head :: x.tail)))⟩
  | int (digits : List Char) : digits ≠ [] → (∀ d ∈ digits, d.isDigit) →
      Decimal.valueOf digits < 2 ^ 63 →
        Formed ⟨digits, some (.const (.int (Int64.ofNat (Decimal.valueOf digits))))⟩
  | float (whole fraction : List Char) : whole ≠ [] → (∀ d ∈ whole, d.isDigit) →
      (∀ d ∈ fraction, d.isDigit) →
        Formed ⟨whole ++ '.' :: fraction, some (.const (.float (Decimal.pointed whole fraction)))⟩
  | string (q : Quote) (items : List Item) : (∀ i ∈ items, i.Formed q) →
      Formed ⟨q.char :: written items ++ [q.char], some (.const (.string (meaning items)))⟩

variable {p : Piece} {c : Char} {cs rest : List Char}

/-! ### What the lexer cuts off -/

theorem blockComment_formed {body : List Char} (h : blockComment cs = some (body, rest)) :
    ∃ comment, body = comment ++ ['*', '/'] ∧ ¬ ['*', '/'] <:+: comment := by
  fun_induction blockComment cs generalizing body with
  | case1 =>
    cases h
    exact ⟨[], rfl, by simp⟩
  | case2 c cs hhead ih =>
    obtain ⟨⟨b, r⟩, hb, he⟩ := Option.map_eq_some_iff.1 h
    cases he
    obtain ⟨comment, rfl, hcomment⟩ := ih hb
    refine ⟨c :: comment, rfl, fun hin => ?_⟩
    obtain ⟨t, ht⟩ | hin := List.infix_cons_iff.1 hin
    · obtain ⟨rfl, rfl⟩ := List.cons.inj ht
      exact hhead _ rfl (blockComment_eq hb)
    · exact hcomment hin
  | case3 => cases h

/-- What follows a block comment does not change it. -/
theorem blockComment_extend {body : List Char} (h : blockComment cs = some (body, rest))
    (ds : List Char) : blockComment (cs ++ ds) = some (body, rest ++ ds) := by
  obtain ⟨comment, rfl, hcomment⟩ := blockComment_formed h
  rw [blockComment_eq h, List.append_assoc, List.append_assoc]
  exact blockComment_append hcomment

theorem word_formed (hc : isWordStart c = true) (hcs : ∀ d ∈ cs, isWordPart d = true) :
    Formed ⟨c :: cs, some (ofWord (String.ofList (c :: cs)))⟩ := by
  have hword {s : String} (hs : s = String.ofList (c :: cs))
      (hformed : Formed ⟨s.toList, some (ofWord s)⟩) :
      Formed ⟨c :: cs, some (ofWord (String.ofList (c :: cs)))⟩ := by
    rwa [hs, String.toList_ofList] at hformed
  by_cases hreserved : String.ofList (c :: cs) ∈ reservedWords
  · obtain hk | hconst := List.mem_append.1 hreserved
    · obtain ⟨k, -, hk⟩ := List.mem_map.1 hk
      refine hword hk ?_
      cases k <;> exact .keyword _
    · simp only [List.mem_cons, List.not_mem_nil, or_false] at hconst
      obtain h | h | h := hconst
      · exact hword h.symm (.bool true)
      · exact hword h.symm (.bool false)
      · exact hword h.symm .none
  · have hstart : c.isAlpha ∨ c = '_' := by simpa [isWordStart] using hc
    have hparts : ∀ d ∈ cs, d.isAlphanum ∨ d = '_' := fun d hd => by
      simpa [isWordPart] using hcs d hd
    let x : Name := ⟨c, cs, hstart, hparts, hreserved⟩
    rw [ofWord_name x]
    exact .ident x

theorem exists_pointed (hc : c.isDigit = true) (hcs : ∀ d ∈ cs, Number.isPart d = true)
    (h : (c :: cs).count '.' = 1) :
    ∃ whole fraction, c :: cs = c :: whole ++ '.' :: fraction ∧
      (∀ d ∈ c :: whole, d.isDigit = true) ∧ ∀ d ∈ fraction, d.isDigit = true := by
  have hparts : ∀ d ∈ c :: cs, d ≠ '.' → d.isDigit = true := by
    refine List.forall_mem_cons.2 ⟨fun _ => hc, fun d hd hne => ?_⟩
    simpa [Number.isPart, hne] using hcs d hd
  obtain ⟨whole, fraction, heq⟩ := List.append_of_mem
    (List.count_pos_iff.1 (h.symm ▸ Nat.one_pos : 0 < (c :: cs).count '.'))
  rw [heq, List.count_append, List.count_cons_self] at h
  have hwhole : ∀ d ∈ whole, d.isDigit = true := fun d hd =>
    hparts d (heq ▸ List.mem_append_left _ hd) fun hdot =>
      List.count_eq_zero.1 (by omega : whole.count '.' = 0) (hdot ▸ hd)
  have hfraction : ∀ d ∈ fraction, d.isDigit = true := fun d hd =>
    hparts d (heq ▸ List.mem_append_right _ (List.mem_cons_of_mem _ hd)) fun hdot =>
      List.count_eq_zero.1 (by omega : fraction.count '.' = 0) (hdot ▸ hd)
  cases whole with
  | nil =>
    obtain ⟨rfl, -⟩ := List.cons.inj heq
    cases hc
  | cons c' whole =>
    obtain ⟨rfl, -⟩ := List.cons.inj heq
    exact ⟨whole, fraction, heq, hwhole, hfraction⟩

theorem number_formed {value : Literal} (hc : c.isDigit = true)
    (hcs : ∀ d ∈ cs, Number.isPart d = true) (h : Number.classify (c :: cs) = .ok value) :
    Formed ⟨c :: cs, some (.const value)⟩ := by
  unfold Number.classify at h
  split at h
  · next hcount =>
    have hdigits : ∀ d ∈ c :: cs, d.isDigit = true := by
      refine List.forall_mem_cons.2 ⟨hc, fun d hd => ?_⟩
      have hne : d ≠ '.' := fun hdot =>
        List.count_eq_zero.1 hcount (List.mem_cons_of_mem c (hdot ▸ hd))
      simpa [Number.isPart, hne] using hcs d hd
    rw [Decimal.narrow_natCast] at h
    split at h
    · next n hn =>
      cases h
      split at hn
      · next hlt =>
        cases hn
        exact .int _ (List.cons_ne_nil c cs) hdigits hlt
      · cases hn
    · cases h
  · next hcount =>
    obtain ⟨whole, fraction, heq, hwhole, hfraction⟩ := exists_pointed hc hcs hcount
    rw [heq, Decimal.readFloat_pointed hwhole hfraction] at h
    cases h
    rw [heq]
    exact .float _ fraction (List.cons_ne_nil c whole) hwhole hfraction
  · cases h

theorem mark_pair {d : Char} {m : Mark} (h : Mark.ofPair? c d = some m) :
    mark c (d :: rest) = .ok (⟨[c, d], some (.mark m)⟩, rest) := by
  rw [mark.eq_def]
  dsimp only
  rw [h]

theorem mark_single {m : Mark} (hpair : ∀ d ∈ cs.head?, Mark.ofPair? c d = none)
    (h : Mark.ofChar? c = some m) : mark c cs = .ok (⟨[c], some (.mark m)⟩, cs) := by
  rw [mark.eq_def, h]
  cases cs with
  | nil => rfl
  | cons d ds =>
    dsimp only
    rw [hpair d rfl]

theorem mark_none (h : Mark.ofChar? c = none) : mark c cs = .error (.unexpectedChar c) := by
  have hpair (d : Char) : Mark.ofPair? c d = none := by
    unfold Mark.ofPair?
    split <;> first | rfl | cases h
  rw [mark.eq_def, h]
  cases cs with
  | nil => rfl
  | cons d ds =>
    dsimp only
    rw [hpair]

theorem pair_or_single (c : Char) (cs : List Char) :
    (∃ d rest m, cs = d :: rest ∧ Mark.ofPair? c d = some m) ∨
      ∀ d ∈ cs.head?, Mark.ofPair? c d = none := by
  cases cs with
  | nil => exact .inr (by simp)
  | cons d rest =>
    cases hm : Mark.ofPair? c d with
    | some m => exact .inl ⟨d, rest, m, rfl, hm⟩
    | none => exact .inr (by simpa using hm)

theorem mark_formed (h : mark c cs = .ok (p, rest)) : p.Formed := by
  obtain ⟨d, ds, m, rfl, hm⟩ | hpair := pair_or_single c cs
  · rw [mark_pair hm] at h
    cases h
    rw [← Mark.ofPair?_spelling hm]
    exact .mark m
  · cases hm : Mark.ofChar? c with
    | none =>
      rw [mark_none hm] at h
      cases h
    | some m =>
      rw [mark_single hpair hm] at h
      cases h
      rw [← Mark.ofChar?_spelling hm]
      exact .mark m

theorem eq_of_opens {d e : Char}
    (h : (decide (c = d) && decide (cs.head? = some e)) = true) : c = d ∧ ∃ ds, cs = e :: ds := by
  obtain ⟨hc, hcs⟩ := Bool.and_eq_true_iff.1 h
  exact ⟨of_decide_eq_true hc, List.head?_eq_some_iff.1 (of_decide_eq_true hcs)⟩

theorem exists_quote (h : (decide (c = '"') || decide (c = '\'')) = true) :
    ∃ q : Quote, q.char = c := by
  obtain h | h := Bool.or_eq_true_iff.1 h
  · exact ⟨.double, (of_decide_eq_true h).symm⟩
  · exact ⟨.single, (of_decide_eq_true h).symm⟩

/-- **What the lexer cuts off behind white space has a form.** -/
theorem next_formed (hc : isBlank c = false) (h : next c cs = .ok (p, rest)) : p.Formed := by
  unfold next at h
  rw [hc, if_neg Bool.false_ne_true] at h
  split at h
  · next hslash =>
    cases h
    obtain ⟨rfl, cs, rfl⟩ := eq_of_opens hslash
    show Formed ⟨'/' :: ('/' :: cs).takeWhile (· != '\n'), Option.none⟩
    rw [List.takeWhile_cons_of_pos rfl]
    refine .line _ fun hin => ?_
    have hfeed := List.mem_takeWhile_imp hin
    cases hfeed
  split at h
  · next hslash =>
    obtain ⟨rfl, cs, rfl⟩ := eq_of_opens hslash
    split at h
    · next body rest' hbody =>
      cases h
      obtain ⟨comment, rfl, hcomment⟩ := blockComment_formed hbody
      exact .block comment hcomment
    · cases h
  split at h
  · next hquote =>
    obtain ⟨q, rfl⟩ := exists_quote hquote
    unfold string at h
    split at h
    · cases h
    · next items rest' hscan =>
      cases h
      exact .string q items (StringBody.scan_formed hscan)
  split at h
  · next hdigit =>
    dsimp only at h
    split at h
    · next value hvalue =>
      cases h
      exact number_formed hdigit (fun d hd => List.mem_takeWhile_imp hd) hvalue
    · cases h
  split at h
  · next hword =>
    cases h
    exact word_formed hword fun d hd => List.mem_takeWhile_imp hd
  · exact mark_formed h

/-! ### Reading pieces back -/

variable {q : Piece}

theorem Formed.text_ne_nil (h : q.Formed) : q.text ≠ [] := by
  cases h with
  | mark m => cases m <;> decide
  | keyword k => cases k <;> decide
  | bool b => cases b <;> decide
  | none => decide
  | int digits hne => exact hne
  | float whole fraction => simp
  | blank | line | block | ident | string => simp

theorem run_self {P : Char → Bool} (hcs : ∀ d ∈ cs, P d = true) : run P c cs = (c :: cs, []) := by
  rw [run, List.takeWhile_eq_self_iff.2 hcs, List.dropWhile_eq_nil_iff.2 hcs]

theorem isPart_of_isDigit (hc : c.isDigit = true) : Number.isPart c = true := by
  rw [Number.isPart, hc, Bool.true_or]

theorem isPart_pointed {whole fraction : List Char}
    (hwhole : ∀ d ∈ c :: whole, d.isDigit = true) (hfraction : ∀ d ∈ fraction, d.isDigit = true) :
    ∀ d ∈ whole ++ '.' :: fraction, Number.isPart d = true := by
  intro d hd
  obtain hd | hd := List.mem_append.1 hd
  · exact isPart_of_isDigit (hwhole d (List.mem_cons_of_mem c hd))
  · obtain rfl | hd := List.mem_cons.1 hd
    · rfl
    · exact isPart_of_isDigit (hfraction d hd)

theorem classify_pointed {whole fraction : List Char}
    (hwhole : ∀ d ∈ c :: whole, d.isDigit = true) (hfraction : ∀ d ∈ fraction, d.isDigit = true) :
    Number.classify (c :: whole ++ '.' :: fraction) =
      .ok (.float (Decimal.pointed (c :: whole) fraction)) := by
  have hno {digits : List Char} (h : ∀ d ∈ digits, d.isDigit = true) : digits.count '.' = 0 :=
    List.count_eq_zero.2 fun hin => absurd (h '.' hin) (by decide)
  rw [Number.classify, List.count_append, List.count_cons_self, hno hwhole, hno hfraction,
    Decimal.readFloat_pointed hwhole hfraction]
  rfl

theorem next_number {value : Literal} (hc : c.isDigit = true)
    (hcs : ∀ d ∈ cs, Number.isPart d = true) (h : Number.classify (c :: cs) = .ok value) :
    next c cs = .ok (⟨c :: cs, some (.const value)⟩, []) := by
  rw [next_plain (isDigit_notMem hc), if_pos hc, run_self hcs, h]

/-- **The lexer reads a piece of a form back.** -/
theorem Formed.next_self (h : q.Formed) : ∃ c cs, q.text = c :: cs ∧ next c cs = .ok (q, []) := by
  have hspelling (s : Spelling) :
      ∃ c cs, s.text = c :: cs ∧ next c cs = .ok (⟨s.text, some s.lexeme⟩, []) := by
    have hnil : Separated [] := by simp [Separated]
    have hs := next_spelling s hnil
    rwa [List.append_nil] at hs
  cases h with
  | blank b => exact ⟨b.char, [], rfl, next_blank b.isBlank_char⟩
  | line comment hcomment =>
    refine ⟨'/', '/' :: comment, rfl, ?_⟩
    rw [next_line, run_self (ne_feed_of_notMem hcomment)]
  | block comment hcomment => exact ⟨_, _, rfl, next_block hcomment⟩
  | mark m => exact hspelling (.mark m)
  | keyword k => exact hspelling (.keyword k)
  | bool b => exact hspelling (.bool b)
  | none => exact hspelling .none
  | ident x => exact hspelling (.ident x)
  | int digits hne hdigits hlt =>
    obtain ⟨c, cs, rfl⟩ := List.exists_cons_of_ne_nil hne
    exact ⟨c, cs, rfl, next_number (hdigits c List.mem_cons_self)
      (fun d hd => isPart_of_isDigit (hdigits d (List.mem_cons_of_mem c hd)))
      (classify_digits hdigits hlt)⟩
  | float whole fraction hne hwhole hfraction =>
    obtain ⟨c, cs, rfl⟩ := List.exists_cons_of_ne_nil hne
    exact ⟨c, cs ++ '.' :: fraction, rfl, next_number (hwhole c List.mem_cons_self)
      (isPart_pointed hwhole hfraction) (classify_pointed hwhole hfraction)⟩
  | string quote items hitems =>
    refine ⟨quote.char, written items ++ [quote.char], rfl, ?_⟩
    rw [quote.next_char, Piece.string, StringBody.scan_append hitems]

/-- A piece that is read back is known from its text. -/
theorem eq_of_reads (hp : ∃ c cs, p.text = c :: cs ∧ next c cs = .ok (p, []))
    (hq : ∃ c cs, q.text = c :: cs ∧ next c cs = .ok (q, [])) (h : p.text = q.text) : p = q := by
  obtain ⟨c, cs, hc, hnext⟩ := hp
  obtain ⟨d, ds, hd, hnext'⟩ := hq
  rw [← h, hc] at hd
  obtain ⟨rfl, rfl⟩ := List.cons.inj hd
  cases hnext.symm.trans hnext'
  rfl

/-! ### The longest piece -/

theorem le_length_run {P : Char → Bool} {ds : List Char} (hds : ∀ d ∈ ds, P d = true)
    (c : Char) (tail : List Char) : (c :: ds).length ≤ (run P c (ds ++ tail)).1.length := by
  rw [run, List.takeWhile_append_of_pos hds, ← List.cons_append, List.length_append]
  exact Nat.le_add_right _ _

variable {d : Char} {ds tail : List Char}

theorem le_length_word (hd : isWordStart d = true) (hds : ∀ e ∈ ds, isWordPart e = true)
    (htail : d :: ds ++ tail = c :: cs) (h : next c cs = .ok (p, rest)) :
    (d :: ds).length ≤ p.text.length := by
  obtain ⟨rfl, rfl⟩ := List.cons.inj htail
  rw [next_plain (isWordStart_notMem hd), if_neg (by simp [isDigit_of_isWordStart hd]),
    if_pos hd] at h
  cases h
  exact le_length_run hds d tail

theorem le_length_number (hd : d.isDigit = true) (hds : ∀ e ∈ ds, Number.isPart e = true)
    (htail : d :: ds ++ tail = c :: cs) (h : next c cs = .ok (p, rest)) :
    (d :: ds).length ≤ p.text.length := by
  obtain ⟨rfl, rfl⟩ := List.cons.inj htail
  rw [next_plain (isDigit_notMem hd), if_pos hd] at h
  split at h
  · cases h
    exact le_length_run hds d tail
  · cases h

/-- A mark is one character, or a pair that no other piece starts with. -/
theorem length_mark (m : Mark) : m.spelling.toList.length = 1 ∨
    ∃ d e, m.spelling.toList = [d, e] ∧ Mark.ofPair? d e = some m ∧ d ∉ specialChars ∧
      d.isDigit = false ∧ isWordStart d = false := by
  cases m <;> first | exact .inl rfl | exact .inr ⟨_, _, rfl, rfl, by decide, rfl, rfl⟩

theorem le_length_mark (m : Mark) (htail : m.spelling.toList ++ tail = c :: cs)
    (h : next c cs = .ok (p, rest)) : m.spelling.toList.length ≤ p.text.length := by
  obtain hone | ⟨d, e, hspelling, hpair, hplain, hdigit, hword⟩ := length_mark m
  · rw [hone]
    exact List.length_pos_iff.2 (next_text_ne_nil h)
  · rw [hspelling] at htail ⊢
    obtain ⟨rfl, rfl⟩ := List.cons.inj htail
    rw [next_plain hplain, if_neg (by simp [hdigit]), if_neg (by simp [hword])] at h
    cases (mark_pair hpair).symm.trans h
    exact le_refl _

/-- **No piece of a form at the head of a text is longer than what the lexer cuts off.** -/
theorem Formed.length_le (hq : q.Formed) (hpre : q.text <+: c :: cs)
    (h : next c cs = .ok (p, rest)) : q.text.length ≤ p.text.length := by
  obtain ⟨tail, htail⟩ := hpre
  cases hq with
  | blank b => exact List.length_pos_iff.2 (next_text_ne_nil h)
  | line comment hcomment =>
    obtain ⟨rfl, rfl⟩ := List.cons.inj htail
    rw [List.append_eq, List.cons_append, next_line] at h
    cases h
    exact le_length_run (ne_feed_of_notMem hcomment) '/' tail
  | block comment hcomment =>
    obtain ⟨rfl, rfl⟩ := List.cons.inj htail
    change next '/' ('*' :: (comment ++ ['*', '/'] ++ tail)) = _ at h
    rw [List.append_assoc] at h
    cases (next_block hcomment).symm.trans h
    exact le_refl _
  | mark m => exact le_length_mark m htail h
  | keyword k => cases k <;> exact le_length_word rfl (List.all_eq_true.1 rfl) htail h
  | bool b => cases b <;> exact le_length_word rfl (List.all_eq_true.1 rfl) htail h
  | none => exact le_length_word rfl (List.all_eq_true.1 rfl) htail h
  | ident x => exact le_length_word x.isWordStart_head x.isWordPart_tail htail h
  | int digits hne hdigits hlt =>
    obtain ⟨d, ds, rfl⟩ := List.exists_cons_of_ne_nil hne
    exact le_length_number (hdigits d List.mem_cons_self)
      (fun e he => isPart_of_isDigit (hdigits e (List.mem_cons_of_mem d he))) htail h
  | float whole fraction hne hwhole hfraction =>
    obtain ⟨d, ds, rfl⟩ := List.exists_cons_of_ne_nil hne
    exact le_length_number (hwhole d List.mem_cons_self) (isPart_pointed hwhole hfraction) htail h
  | string quote items hitems =>
    obtain ⟨rfl, rfl⟩ := List.cons.inj htail
    change next quote.char (written items ++ [quote.char] ++ tail) = _ at h
    rw [List.append_assoc, List.singleton_append, quote.next_char, Piece.string,
      StringBody.scan_append hitems] at h
    cases h
    exact le_refl _

end Piece

end Nominal
