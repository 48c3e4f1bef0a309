import Nominal.Proofs.Grammar

/-!
# Reading string bodies

A string body is any sequence of plain characters and escapes. The scanner takes exactly such a
body and its closing quote off the head of a text, and stops at the leftmost defect otherwise.

* `StringBody.read`: the string at the head of a text and the bytes it takes.
* `StringBody.letters`, `StringBody.codes`: the escapes, listed.
* `StringBody.Spells`: what a body stands for, item by item.
* `StringBody.Defect`: where no item starts, and the fault that this is.
* `Text.extract_eq_iff`: what it is for the first bytes of a text to be given characters.
* `StringBody.scan_error_iff`: a body in front of a defect, and nothing else, is a fault.
* `StringBody.exists_hexCode`: every code has digits.
* **`StringBody.read_exact`**: the scanner reads the grammar, and all of it.
-/

namespace Nominal

/-! ### Bytes of a text -/

namespace Text

theorem size_utf8Encode (cs : List Char) : cs.utf8Encode.size = byteCount cs := by
  induction cs with
  | nil => simp
  | cons c cs ih =>
    rw [List.utf8Encode_cons, ByteArray.size_append, ih, byteCount_cons, List.utf8Encode_singleton,
      List.size_toByteArray, String.length_utf8EncodeChar]

theorem utf8ByteSize_eq (s : String) : s.utf8ByteSize = byteCount s.toList := by
  rw [← String.size_toByteArray, ← String.utf8Encode_toList, size_utf8Encode]

/-- The first bytes of a text are the bytes of characters if and only if it starts with these. -/
theorem extract_eq_iff {s : String} {n : Nat} {cs : List Char} :
    n ≤ s.utf8ByteSize ∧ s.toByteArray.extract 0 n = cs.utf8Encode ↔
      n = byteCount cs ∧ cs <+: s.toList := by
  constructor
  · rintro ⟨hn, hextract⟩
    refine ⟨?_, List.isPrefix_of_utf8Encode_append_eq_utf8Encode
      (s.toByteArray.extract n s.toByteArray.size) ?_⟩
    · rw [← size_utf8Encode, ← hextract, ByteArray.size_extract, String.size_toByteArray]
      omega
    · rw [← hextract, String.utf8Encode_toList,
        ← ByteArray.extract_eq_extract_append_extract n (Nat.zero_le n)
          (by rwa [String.size_toByteArray]), ByteArray.extract_zero_size]
  · rintro ⟨rfl, rest, hrest⟩
    constructor
    · rw [utf8ByteSize_eq, ← hrest, byteCount_append]
      exact Nat.le_add_right _ _
    · rw [← String.utf8Encode_toList, ← hrest, List.utf8Encode_append,
        ByteArray.extract_append_eq_left (size_utf8Encode cs).symm]

theorem isValid_byteCount {s : String} {cs rest : List Char} (h : s.toList = cs ++ rest) :
    String.Pos.Raw.IsValid s ⟨byteCount cs⟩ := by
  refine String.Pos.Raw.isValid_iff_exists_append.2 ⟨String.ofList cs, String.ofList rest, ?_, ?_⟩
  · rw [← String.ofList_append, ← h, String.ofList_toList]
  · ext
    show byteCount cs = (String.ofList cs).utf8ByteSize
    rw [utf8ByteSize_eq, String.toList_ofList]

end Text

namespace StringBody

/-! ### Codes and their digits -/

theorem hexValue?_lt {d : Char} {v : Nat} (h : hexValue? d = some v) : v < 16 := by
  have code (c d : Char) : c ≤ d ↔ c.toNat ≤ d.toNat := UInt32.le_iff_toNat_le
  unfold hexValue? at h
  split at h
  · next hd =>
    cases h
    have hd := Char.isDigit_iff_toNat.1 hd
    have h9 : '9'.toNat = 57 := rfl
    have h0 : '0'.toNat = 48 := rfl
    omega
  split at h
  · next hd =>
    cases h
    rw [code, code] at hd
    have ha : 'a'.toNat = 97 := rfl
    have hf : 'f'.toNat = 102 := rfl
    omega
  split at h
  · next hd =>
    cases h
    rw [code, code] at hd
    have ha : 'A'.toNat = 65 := rfl
    have hf : 'F'.toNat = 70 := rfl
    omega
  · cases h

theorem hexCode_concat (code : Nat) (digits : List Char) (d : Char) :
    hexCode code (digits ++ [d]) = 16 * hexCode code digits + (hexValue? d).getD 0 := by
  simp [hexCode]

theorem hexCode_lt (digits : List Char) : hexCode 0 digits < 16 ^ digits.length := by
  induction digits using List.reverseRecOn with
  | nil => simp [hexCode]
  | append_singleton digits d ih =>
    have hd : (hexValue? d).getD 0 < 16 := by
      cases hv : hexValue? d with
      | none => simp
      | some v => exact hexValue?_lt hv
    rw [hexCode_concat, List.length_append, List.length_singleton, Nat.pow_succ]
    omega

theorem hexValue?_digitChar {v : Nat} (h : v < 16) : hexValue? (Nat.digitChar v) = some v := by
  interval_cases v <;> rfl

theorem exists_hexCode {k n : Nat} (h : n < 16 ^ k) :
    ∃ digits : List Char, digits.length = k ∧ (∀ d ∈ digits, (hexValue? d).isSome) ∧
      hexCode 0 digits = n := by
  induction k generalizing n with
  | zero => exact ⟨[], rfl, by simp, by simp [hexCode]; omega⟩
  | succ k ih =>
    -- the lowest digit comes last
    obtain ⟨digits, hlength, hhex, hcode⟩ := ih (n := n / 16) (by rw [Nat.pow_succ] at h; omega)
    have hlow := hexValue?_digitChar (Nat.mod_lt n (by decide : 0 < 16))
    refine ⟨digits ++ [Nat.digitChar (n % 16)], ?_, ?_, ?_⟩
    · rw [List.length_append, hlength, List.length_singleton]
    · intro d hd
      obtain hd | hd := List.mem_append.1 hd
      · exact hhex d hd
      · rw [List.mem_singleton.1 hd, hlow]
        rfl
    · rw [hexCode_concat, hcode, hlow, Option.getD_some]
      omega

/-- The codes that stand for no character although they are small enough. -/
def IsSurrogate (code : Nat) : Prop := 0xD800 ≤ code ∧ code ≤ 0xDFFF

theorem charOfCode?_eq_none_iff {code : Nat} (h : code < 0x110000) :
    charOfCode? code = none ↔ IsSurrogate code := by
  unfold charOfCode? IsSurrogate
  split
  · next hvalid =>
    have : code < 0xD800 ∨ 0xDFFF < code ∧ code < 0x110000 := hvalid
    simp
    omega
  · next hinvalid =>
    have : ¬ (code < 0xD800 ∨ 0xDFFF < code ∧ code < 0x110000) := hinvalid
    simp
    omega

theorem charOfCode?_toNat (c : Char) : charOfCode? c.toNat = some c := by
  have hvalid : c.toNat.isValidChar := c.valid
  rw [charOfCode?, if_pos hvalid, Char.ofNat_toNat]

/-! ### The table of escapes -/

/-- The letters that may stand behind a backslash, and what they stand for. -/
def letters : List (Char × Char) :=
  [('r', '\r'), ('t', '\t'), ('a', '\x07'), ('f', '\x0c'), ('v', '\x0b'), ('b', '\x08'),
    ('n', '\n'), ('"', '"'), ('\'', '\''), ('\\', '\\')]

/-- The letters that announce a code, and the number of its digits. -/
def codes : List (Char × Nat) := [('x', 2), ('u', 4)]

theorem simpleEscape?_eq_some_iff {e c : Char} : simpleEscape? e = some c ↔ (e, c) ∈ letters := by
  constructor
  · intro h
    unfold simpleEscape? at h
    split at h <;> cases h <;> simp [letters]
  · intro h
    have hall : ∀ p ∈ letters, simpleEscape? p.1 = some p.2 := by decide
    exact hall (e, c) h

theorem codeLength?_eq_some_iff {e : Char} {k : Nat} :
    codeLength? e = some k ↔ (e, k) ∈ codes := by
  constructor
  · intro h
    unfold codeLength? at h
    split at h <;> cases h <;> simp [codes]
  · intro h
    have hall : ∀ p ∈ codes, codeLength? p.1 = some p.2 := by decide
    exact hall (e, k) h

theorem codeLength?_le {e : Char} {n : Nat} (h : codeLength? e = some n) : n ≤ 4 := by
  unfold codeLength? at h
  split at h <;> cases h <;> omega

theorem simpleEscape?_of_codeLength? {e : Char} {n : Nat} (h : codeLength? e = some n) :
    simpleEscape? e = none := by
  unfold codeLength? at h
  split at h <;> first | rfl | cases h

theorem hexCode_lt_of_codeLength? {e : Char} {digits : List Char}
    (h : codeLength? e = some digits.length) : hexCode 0 digits < 0x110000 :=
  calc hexCode 0 digits < 16 ^ digits.length := hexCode_lt digits
    _ ≤ 16 ^ 4 := Nat.pow_le_pow_right (by decide) (codeLength?_le h)
    _ < 0x110000 := by decide

/-! ### Spellings of characters -/

variable {q : Quote} {c : Char} {cs rest tail : List Char} {f : LexFault} {items : List Item}

/-- Every character that the announced digits can tell has a code. -/
theorem exists_formed_code {e : Char} {k : Nat} (he : codeLength? e = some k)
    (hc : c.toNat < 16 ^ k) : ∃ digits, Item.Formed q ⟨'\\' :: e :: digits, c⟩ := by
  obtain ⟨digits, hlength, hhex, hcode⟩ := exists_hexCode hc
  exact ⟨digits, .code e c digits (by rw [he, hlength]) hhex (by rw [hcode, charOfCode?_toNat])⟩

theorem exists_formed (q : Quote) (c : Char) : ∃ text, Item.Formed q ⟨text, c⟩ := by
  by_cases hbackslash : c = '\\'
  · exact ⟨_, .letter '\\' c (by rw [hbackslash]; rfl)⟩
  · by_cases hquote : c = q.char
    · exact ⟨_, .letter c c (by cases q <;> rw [hquote] <;> rfl)⟩
    · exact ⟨_, .plain c hquote hbackslash⟩

/-- A body stands for a string, character by character. -/
def Spells (q : Quote) (body : List Char) (s : String) : Prop :=
  ∃ items : List Item, (∀ i ∈ items, i.Formed q) ∧ written items = body ∧ meaning items = s

theorem spells_flatten {s : String} {texts : List (List Char)}
    (h : List.Forall₂ (fun c text => Item.Formed q ⟨text, c⟩) s.toList texts) :
    Spells q texts.flatten s := by
  obtain ⟨cs, rfl⟩ := s.exists_eq_ofList
  rw [String.toList_ofList] at h
  induction h with
  | nil => exact ⟨[], by simp, rfl, rfl⟩
  | @cons c text cs texts hc _ ih =>
    obtain ⟨items, hitems, hwritten, hmeaning⟩ := ih
    refine ⟨⟨text, c⟩ :: items, List.forall_mem_cons.2 ⟨hc, hitems⟩, ?_, ?_⟩
    · rw [List.flatten_cons, ← hwritten, written, List.flatMap_cons, written]
    · have hcs := congrArg String.toList hmeaning
      rw [meaning, String.toList_ofList, String.toList_ofList] at hcs
      rw [meaning, List.map_cons, hcs]

/-! ### Defects -/

/-- No item starts a text, and neither does the closing quote: the text ends first, or an escape
is wrong. -/
inductive Defect : LexFault → List Char → Prop where
  | ended : Defect .unterminatedString []
  | backslash : Defect .unterminatedString ['\\']
  | short (e : Char) (digits : List Char) (n : Nat) : codeLength? e = some n →
      digits.length < n → (∀ d ∈ digits, (hexValue? d).isSome) →
        Defect .unterminatedString ('\\' :: e :: digits)
  | letter (e : Char) (rest : List Char) : simpleEscape? e = none → codeLength? e = none →
      Defect .invalidEscape ('\\' :: e :: rest)
  | digit (e : Char) (digits : List Char) (d : Char) (rest : List Char) (n : Nat) :
      codeLength? e = some n → digits.length < n → (∀ d ∈ digits, (hexValue? d).isSome) →
        hexValue? d = none → Defect .invalidEscape ('\\' :: e :: (digits ++ d :: rest))
  | surrogate (e : Char) (digits rest : List Char) : codeLength? e = some digits.length →
      (∀ d ∈ digits, (hexValue? d).isSome) → IsSurrogate (hexCode 0 digits) →
        Defect .invalidEscape ('\\' :: e :: (digits ++ rest))

theorem hexDigits_short {n code : Nat} {digits : List Char} (hlength : digits.length < n)
    (hhex : ∀ d ∈ digits, (hexValue? d).isSome) :
    hexDigits n code digits = .error .unterminatedString := by
  induction digits generalizing n code with
  | nil =>
    obtain ⟨n, rfl⟩ := Nat.exists_eq_succ_of_ne_zero (Nat.ne_zero_of_lt hlength)
    rfl
  | cons d digits ih =>
    obtain ⟨n, rfl⟩ := Nat.exists_eq_succ_of_ne_zero (Nat.ne_zero_of_lt hlength)
    obtain ⟨hd, hdigits⟩ := List.forall_mem_cons.1 hhex
    obtain ⟨v, hv⟩ := Option.isSome_iff_exists.1 hd
    rw [hexDigits, hv]
    dsimp only
    rw [ih (Nat.lt_of_succ_lt_succ hlength) hdigits]

theorem hexDigits_stuck {n code : Nat} {digits : List Char} {d : Char}
    (hlength : digits.length < n) (hhex : ∀ d ∈ digits, (hexValue? d).isSome)
    (hd : hexValue? d = none) : hexDigits n code (digits ++ d :: rest) = .error .invalidEscape := by
  induction digits generalizing n code with
  | nil =>
    obtain ⟨n, rfl⟩ := Nat.exists_eq_succ_of_ne_zero (Nat.ne_zero_of_lt hlength)
    rw [List.nil_append, hexDigits, hd]
  | cons d' digits ih =>
    obtain ⟨n, rfl⟩ := Nat.exists_eq_succ_of_ne_zero (Nat.ne_zero_of_lt hlength)
    obtain ⟨hd', hdigits⟩ := List.forall_mem_cons.1 hhex
    obtain ⟨v, hv⟩ := Option.isSome_iff_exists.1 hd'
    rw [List.cons_append, hexDigits, hv]
    dsimp only
    rw [ih (Nat.lt_of_succ_lt_succ hlength) hdigits]

/-- Digits are missing for one of two reasons: the text ends, or it goes on otherwise. -/
theorem hexDigits_fault {n code : Nat} (h : hexDigits n code cs = .error f) :
    (f = .unterminatedString ∧ cs.length < n ∧ ∀ d ∈ cs, (hexValue? d).isSome) ∨
    (f = .invalidEscape ∧ ∃ digits d rest, cs = digits ++ d :: rest ∧ digits.length < n ∧
      (∀ d ∈ digits, (hexValue? d).isSome) ∧ hexValue? d = none) := by
  induction n generalizing code cs with
  | zero => cases h
  | succ n ih =>
    cases cs with
    | nil =>
      cases h
      exact .inl ⟨rfl, Nat.succ_pos n, by simp⟩
    | cons c cs =>
      rw [hexDigits] at h
      cases hv : hexValue? c with
      | none =>
        rw [hv] at h
        cases h
        exact .inr ⟨rfl, [], c, cs, rfl, Nat.succ_pos n, by simp, hv⟩
      | some v =>
        have hc : (hexValue? c).isSome := by rw [hv]; rfl
        rw [hv] at h
        dsimp only at h
        split at h
        · next hdigits =>
          cases h
          obtain ⟨rfl, hlength, hhex⟩ | ⟨rfl, digits, d, rest, rfl, hlength, hhex, hd⟩ :=
            ih hdigits
          · exact .inl ⟨rfl, Nat.succ_lt_succ hlength, List.forall_mem_cons.2 ⟨hc, hhex⟩⟩
          · exact .inr ⟨rfl, c :: digits, d, rest, rfl, Nat.succ_lt_succ hlength,
              List.forall_mem_cons.2 ⟨hc, hhex⟩, hd⟩
        · cases h

/-- An item that cannot be read starts at a defect. -/
theorem defect_of_item_error (h : item c cs = .error f) : Defect f (c :: cs) := by
  unfold item at h
  split at h
  · next hc =>
    subst hc
    cases cs with
    | nil =>
      cases h
      exact .backslash
    | cons e cs =>
      rw [escape] at h
      split at h
      · cases h
      · next hsimple =>
        split at h
        · next hcode =>
          cases h
          exact .letter e cs hsimple hcode
        · next n hn =>
          split at h
          · next hdigits =>
            cases h
            obtain ⟨rfl, hlength, hhex⟩ | ⟨rfl, digits, d, rest, rfl, hlength, hhex, hd⟩ :=
              hexDigits_fault hdigits
            · exact .short e cs n hn hlength hhex
            · exact .digit e digits d rest n hn hlength hhex hd
          · next digits code rest hdigits =>
            have hcs := hexDigits_eq hdigits
            obtain ⟨rfl, hhex, rfl⟩ := hexDigits_formed hdigits
            split at h
            · next hchar =>
              cases h
              rw [hcs]
              exact .surrogate e digits rest hn hhex
                ((charOfCode?_eq_none_iff (hexCode_lt_of_codeLength? hn)).1 hchar)
            · cases h
  · cases h

theorem Defect.scan (h : Defect f tail) : scan q.char tail = .error f := by
  -- behind a backslash it is the escape that is not read
  suffices ∀ cs, tail = '\\' :: cs → escape cs = .error f by
    cases tail with
    | nil =>
      cases h
      rw [StringBody.scan]
    | cons c cs =>
      have hc : c = '\\' := by cases h <;> rfl
      subst hc
      have hitem : item '\\' cs = .error f := by rw [item, if_pos rfl, this cs rfl]
      rw [StringBody.scan, if_neg q.char_ne]
      split
      · next hf => rw [hitem] at hf; cases hf; rfl
      · next hi => rw [hitem] at hi; cases hi
  rintro cs rfl
  cases h with
  | backslash => rfl
  | short e digits n hn hlength hhex =>
    rw [escape, simpleEscape?_of_codeLength? hn]
    dsimp only
    rw [hn]
    dsimp only
    rw [hexDigits_short hlength hhex]
  | letter e rest hsimple hcode =>
    rw [escape, hsimple]
    dsimp only
    rw [hcode]
  | digit e digits d rest n hn hlength hhex hd =>
    rw [escape, simpleEscape?_of_codeLength? hn]
    dsimp only
    rw [hn]
    dsimp only
    rw [hexDigits_stuck hlength hhex hd]
  | surrogate e digits rest hn hhex hsurrogate =>
    rw [escape, simpleEscape?_of_codeLength? hn]
    dsimp only
    rw [hn]
    dsimp only
    rw [hexDigits_append hhex]
    dsimp only
    rw [(charOfCode?_eq_none_iff (hexCode_lt_of_codeLength? hn)).2 hsurrogate]

theorem scan_append_error (hitems : ∀ i ∈ items, i.Formed q) (h : scan q.char tail = .error f) :
    scan q.char (written items ++ tail) = .error f := by
  induction items with
  | nil => exact h
  | cons i items ih =>
    obtain ⟨hi, hitems⟩ := List.forall_mem_cons.1 hitems
    obtain ⟨c, cs, htext, hc, hitem⟩ := hi.item_append (written items ++ tail)
    have hwritten : written (i :: items) ++ tail = c :: (cs ++ (written items ++ tail)) := by
      rw [written, List.flatMap_cons, htext, ← written, List.append_assoc, List.cons_append]
    rw [hwritten, scan_item hc hitem, ih hitems]

/-- **The scanner stops exactly at the leftmost defect.** -/
theorem scan_error_iff : scan q.char cs = .error f ↔
    ∃ items tail, (∀ i ∈ items, i.Formed q) ∧ cs = written items ++ tail ∧ Defect f tail := by
  constructor
  · intro h
    fun_induction scan q.char cs with
    | case1 =>
      cases h
      exact ⟨[], [], by simp, rfl, .ended⟩
    | case2 => cases h
    | case3 c cs hc g hitem =>
      cases h
      exact ⟨[], c :: cs, by simp, rfl, defect_of_item_error hitem⟩
    | case4 c cs hc i rest hitem g hscan ih =>
      cases h
      obtain ⟨items, tail, hitems, hrest, hdefect⟩ := ih hscan
      refine ⟨i :: items, tail, List.forall_mem_cons.2 ⟨item_formed hc hitem, hitems⟩, ?_, hdefect⟩
      rw [item_eq hitem, hrest, written, written, List.flatMap_cons, List.append_assoc]
    | case5 => cases h
  · rintro ⟨items, tail, hitems, rfl, hdefect⟩
    exact scan_append_error hitems hdefect.scan

/-! ### Reading a text -/

/-- The string at the head of a text that starts behind an opening quote, and the number of bytes
up to and including its closing quote. -/
def read (q : Quote) (text : String) : Except LexFault (String × Nat) :=
  (scan q.char text.toList).map fun (items, _) =>
    (meaning items, Text.byteCount (written items ++ [q.char]))

theorem read_eq_ok_iff {text s : String} {n : Nat} :
    read q text = .ok (s, n) ↔ ∃ body, Spells q body s ∧
      n = Text.byteCount (body ++ [q.char]) ∧ body ++ [q.char] <+: text.toList := by
  constructor
  · intro h
    rw [read] at h
    cases hscan : scan q.char text.toList with
    | error f =>
      rw [hscan] at h
      cases h
    | ok r =>
      obtain ⟨items, rest⟩ := r
      rw [hscan] at h
      cases h
      refine ⟨written items, ⟨items, scan_formed hscan, rfl, rfl⟩, rfl, rest, ?_⟩
      rw [scan_eq hscan, List.append_assoc, List.singleton_append]
  · rintro ⟨_, ⟨items, hitems, rfl, rfl⟩, rfl, rest, hrest⟩
    rw [read, ← hrest, List.append_assoc, List.singleton_append, scan_append hitems]
    rfl

theorem read_eq_error_iff {text : String} :
    read q text = .error f ↔
      ∃ body s tail, Spells q body s ∧ text.toList = body ++ tail ∧ Defect f tail := by
  have hread : read q text = .error f ↔ scan q.char text.toList = .error f := by
    rw [read]
    cases scan q.char text.toList <;> simp [Except.map]
  rw [hread, scan_error_iff]
  constructor
  · rintro ⟨items, tail, hitems, htext, hdefect⟩
    exact ⟨_, _, tail, ⟨items, hitems, rfl, rfl⟩, htext, hdefect⟩
  · rintro ⟨_, _, tail, ⟨items, hitems, rfl, rfl⟩, htext, hdefect⟩
    exact ⟨items, tail, hitems, htext, hdefect⟩

/-- Behind an opening quote the lexer goes on with what is read, by that many bytes. -/
theorem next_read {text s : String} {n : Nat} (h : read q text = .ok (s, n)) :
    ∃ p rest, Piece.next q.char text.toList = .ok (p, rest) ∧
      p.lexeme = some (.const (.string s)) ∧ p.size = q.char.utf8Size + n ∧
      q.char :: text.toList = p.text ++ rest := by
  obtain ⟨_, ⟨items, hitems, rfl, rfl⟩, rfl, rest, hrest⟩ := read_eq_ok_iff.1 h
  have hnext : Piece.next q.char text.toList = .ok (⟨q.char :: written items ++ [q.char],
      some (.const (.string (meaning items)))⟩, rest) := by
    rw [q.next_char, Piece.string, ← hrest, List.append_assoc, List.singleton_append,
      scan_append hitems]
  exact ⟨_, rest, hnext, rfl, rfl, Piece.next_eq hnext⟩

/-- **The scanner reads string bodies exactly.** It reads a string and `n` bytes if and only if the
first `n` bytes of the text are a body of that string and the closing quote. These end at the
boundary of a character, and the lexer goes on behind them. It stops at a fault if and only if a
body is followed by a defect of that kind. Every string is read back from any sequence of forms of
its characters, and every character has a form: plain unless it is the quote or the backslash, with
a letter if there is one for it, and by the digits of its code if they are enough. The letters are
those of the tables. -/
theorem read_exact (q : Quote) :
    (∀ text s n, read q text = .ok (s, n) ↔ n ≤ text.utf8ByteSize ∧ ∃ body, Spells q body s ∧
      text.toByteArray.extract 0 n = (body ++ [q.char]).utf8Encode) ∧
    (∀ text s n, read q text = .ok (s, n) →
      1 ≤ n ∧ n ≤ text.utf8ByteSize ∧ String.Pos.Raw.IsValid text ⟨n⟩ ∧
      ∃ p rest, Piece.next q.char text.toList = .ok (p, rest) ∧
        p.lexeme = some (.const (.string s)) ∧ p.size = q.char.utf8Size + n ∧
        q.char :: text.toList = p.text ++ rest) ∧
    (∀ text f, read q text = .error f ↔
      ∃ body s tail, Spells q body s ∧ text.toList = body ++ tail ∧ Defect f tail) ∧
    (∀ s texts, List.Forall₂ (fun c form => Item.Formed q ⟨form, c⟩) s.toList texts →
      ∀ tail, read q (String.ofList (texts.flatten ++ q.char :: tail)) =
        .ok (s, Text.byteCount texts.flatten + q.char.utf8Size)) ∧
    (∀ c, (∃ form, Item.Formed q ⟨form, c⟩) ∧
      (c ≠ q.char → c ≠ '\\' → Item.Formed q ⟨[c], c⟩) ∧
      (∀ e, simpleEscape? e = some c → Item.Formed q ⟨['\\', e], c⟩) ∧
      ∀ e k, codeLength? e = some k → c.toNat < 16 ^ k →
        ∃ digits, Item.Formed q ⟨'\\' :: e :: digits, c⟩) ∧
    (∀ e c, simpleEscape? e = some c ↔ (e, c) ∈ letters) ∧
    ∀ e k, codeLength? e = some k ↔ (e, k) ∈ codes := by
  have hok (text s n) : read q text = .ok (s, n) ↔ n ≤ text.utf8ByteSize ∧ ∃ body, Spells q body s ∧
      text.toByteArray.extract 0 n = (body ++ [q.char]).utf8Encode := by
    rw [read_eq_ok_iff]
    constructor
    · rintro ⟨body, hbody, hn⟩
      obtain ⟨hle, hextract⟩ := Text.extract_eq_iff.2 hn
      exact ⟨hle, body, hbody, hextract⟩
    · rintro ⟨hle, body, hbody, hextract⟩
      exact ⟨body, hbody, Text.extract_eq_iff.1 ⟨hle, hextract⟩⟩
  refine ⟨hok, ?_, fun _ _ => read_eq_error_iff, ?_, fun c =>
    ⟨exists_formed q c, .plain c, fun e => .letter e c, fun _ _ => exists_formed_code⟩,
    fun _ _ => simpleEscape?_eq_some_iff, fun _ _ => codeLength?_eq_some_iff⟩
  · intro text s n h
    obtain ⟨body, -, rfl, rest, hrest⟩ := read_eq_ok_iff.1 h
    refine ⟨?_, ((hok text s _).1 h).1, Text.isValid_byteCount hrest.symm, next_read h⟩
    have := q.char.utf8Size_pos
    rw [Text.byteCount_append, Text.byteCount_cons]
    omega
  · intro s texts htexts tail
    refine read_eq_ok_iff.2 ⟨texts.flatten, spells_flatten htexts, ?_, tail, ?_⟩
    · rw [Text.byteCount_append, Text.byteCount_cons, Text.byteCount_nil, Nat.add_zero]
    · rw [String.toList_ofList, List.append_assoc, List.singleton_append]

/-- `A`, a line break and `'` behind their codes, their letter and plain. -/
theorem read_exact_mixed :
    read .double (String.ofList ("\\x41\\n'\\u0041\";".toList)) = .ok ("A\n'A", 14) :=
  (read_exact .double).2.2.2.1 "A\n'A" ["\\x41".toList, "\\n".toList, "'".toList, "\\u0041".toList]
    (.cons (.code 'x' 'A' ['4', '1'] rfl (by simp [hexValue?]) rfl)
      (.cons (.letter 'n' '\n' rfl)
        (.cons (.plain '\'' (by decide) (by decide))
          (.cons (.code 'u' 'A' ['0', '0', '4', '1'] rfl (by simp [hexValue?]) rfl) .nil)))) [';']

end StringBody

end Nominal
