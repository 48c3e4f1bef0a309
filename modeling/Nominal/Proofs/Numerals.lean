import Mathlib.Data.List.DropRight
import Mathlib.Data.Nat.Digits.Defs
import Nominal.Proofs.Division
import Nominal.Proofs.Operations

/-!
# Integers in texts

A text is converted to an integer by removing the white space at its two ends and reading what is
left as a numeral, whose value must be a word. The printed form of a word is such a numeral, so the
conversion undoes printing, also between white space.

* `Text.Trims`: what is left of a text between white space.
* `Decimal.number`, `Decimal.Numeral`: the value of digits, and of digits behind a sign.
* `Text.trim_eq_iff`, `Decimal.readInt_eq_some_iff`: what trimming and reading find.
* `Decimal.Numeral.ofInt`: the printed form of a number.
* `IntsOfTexts`: which texts are integers, and what they are.
* **`World.SeesBuiltins.intsOfTexts`**: the constructor `Int`, wherever it is visible.
-/

namespace Nominal

/-! ## White space at the ends -/

namespace Text

/-- The text is nothing but white space. -/
def White (cs : List Char) : Prop := ∀ c ∈ cs, isWhiteSpace c = true

instance (cs : List Char) : Decidable (White cs) :=
  decidable_of_iff (cs.all isWhiteSpace = true) List.all_eq_true

/-- What is left of a text when the white space at its two ends is removed. -/
structure Trims (cs inner : List Char) : Prop where
  around : ∃ u v, cs = u ++ inner ++ v ∧ White u ∧ White v
  head : ∀ c ∈ inner.head?, isWhiteSpace c = false
  last : ∀ c ∈ inner.getLast?, isWhiteSpace c = false

variable {cs inner u : List Char} {c : Char}

theorem dropWhile_white (hu : White u) (h : ∀ c ∈ cs.head?, isWhiteSpace c = false) :
    (u ++ cs).dropWhile isWhiteSpace = cs := by
  rw [List.dropWhile_append_of_pos hu]
  cases cs with
  | nil => rfl
  | cons c cs => exact List.dropWhile_cons_of_neg (by simp [h c rfl])

theorem isWhiteSpace_head (h : c ∈ (cs.dropWhile isWhiteSpace).head?) :
    isWhiteSpace c = false := by
  have hnot := List.head?_dropWhile_not isWhiteSpace cs
  rw [Option.mem_def.1 h] at hnot
  exact hnot

theorem Trims.trim_eq (h : Trims cs inner) : trim cs = inner := by
  obtain ⟨⟨u, v, rfl, hu, hv⟩, hhead, hlast⟩ := h
  have hv' : White v.reverse := fun c hc => hv c (List.mem_reverse.1 hc)
  obtain rfl | hinner := eq_or_ne inner []
  · have hall : (u ++ [] ++ v).dropWhile isWhiteSpace = [] := by
      rw [List.dropWhile_eq_nil_iff, List.append_nil]
      exact List.forall_mem_append.2 ⟨hu, hv⟩
    rw [trim, hall]
    rfl
  · have hfront : ∀ c ∈ (inner ++ v).head?, isWhiteSpace c = false := by
      rwa [List.head?_append_of_ne_nil _ hinner]
    have hback : ∀ c ∈ inner.reverse.head?, isWhiteSpace c = false := by
      rwa [List.head?_reverse]
    rw [trim, List.append_assoc, dropWhile_white hu hfront, List.reverse_append,
      dropWhile_white hv' hback, List.reverse_reverse]

theorem trims_trim (cs : List Char) : Trims cs (trim cs) where
  around := by
    refine ⟨cs.takeWhile isWhiteSpace, (cs.dropWhile isWhiteSpace).rtakeWhile isWhiteSpace, ?_,
      fun c hc => List.mem_takeWhile_imp hc, fun c hc => List.mem_rtakeWhile_imp hc⟩
    rw [List.append_assoc, trim, ← List.rdropWhile, List.rdropWhile_append_rtakeWhile,
      List.takeWhile_append_dropWhile]
  head c hc := by
    -- what is left is at the front of the text without its first white space
    obtain ⟨v, hv⟩ := List.rdropWhile_prefix isWhiteSpace (cs.dropWhile isWhiteSpace)
    have hfront : c ∈ (cs.dropWhile isWhiteSpace).head? := by
      rw [← hv, List.head?_append]
      exact Option.or_eq_some_iff.2 (.inl hc)
    exact isWhiteSpace_head hfront
  last c hc := by
    rw [trim, List.getLast?_reverse] at hc
    exact isWhiteSpace_head hc

/-- **Trimming finds what is left between the white space.** -/
theorem trim_eq_iff : trim cs = inner ↔ Trims cs inner :=
  ⟨fun h => h ▸ trims_trim cs, Trims.trim_eq⟩

end Text

/-! ## Numerals -/

namespace Decimal

/-- The number that digits write in base ten. -/
def number (digits : List Char) : ℕ := Nat.ofDigits 10 (digits.reverse.map digitValue)

/-- One or more digits, at most one sign before them, and the number that they write. -/
inductive Numeral : List Char → ℤ → Prop
  | digits (ds : List Char) : ds ≠ [] → (∀ d ∈ ds, d.isDigit = true) → Numeral ds (number ds)
  | plus (ds : List Char) :
      ds ≠ [] → (∀ d ∈ ds, d.isDigit = true) → Numeral ('+' :: ds) (number ds)
  | minus (ds : List Char) :
      ds ≠ [] → (∀ d ∈ ds, d.isDigit = true) → Numeral ('-' :: ds) (-(number ds))

variable {cs ds : List Char} {m : ℤ} {n : ℕ}

/-- Digits are read from the first on, and each moves the number so far by one place. -/
theorem valueOf_eq_number (ds : List Char) : valueOf ds = number ds := by
  induction ds using List.reverseRecOn with
  | nil => rfl
  | append_singleton ds d ih =>
    rw [valueOf, List.foldl_concat, ← valueOf, ih, number, number, List.reverse_concat,
      List.map_cons, Nat.ofDigits_cons, Nat.add_comm]

theorem readNat_eq_some_iff :
    readNat ds = some n ↔ ds ≠ [] ∧ (∀ d ∈ ds, d.isDigit = true) ∧ number ds = n := by
  simp [readNat, valueOf_eq_number, and_assoc]

/-- **Reading finds the numbers of the numerals.** -/
theorem readInt_eq_some_iff : readInt cs = some m ↔ Numeral cs m := by
  constructor
  · intro h
    unfold readInt at h
    split at h
    all_goals
      simp only [Option.map_eq_some_iff, Option.bind_eq_bind, Option.bind_eq_some_iff,
        Option.pure_def, Option.some.injEq] at h
      obtain ⟨-, ⟨n, hn, rfl⟩, rfl⟩ := h
      obtain ⟨hne, hdigits, rfl⟩ := readNat_eq_some_iff.1 hn
    · exact .minus _ hne hdigits
    · exact .plus _ hne hdigits
    · exact .digits _ hne hdigits
  · have hread {ds : List Char} (hne : ds ≠ []) (hdigits : ∀ d ∈ ds, d.isDigit = true) :
        readNat ds = some (number ds) := readNat_eq_some_iff.2 ⟨hne, hdigits, rfl⟩
    intro h
    cases h with
    | digits _ hne hdigits =>
      have hsign (c : Char) (hc : c.isDigit = false) (t : List Char) : cs ≠ c :: t := by
        rintro rfl
        simp [hc] at hdigits
      rw [readInt, hread hne hdigits]
      · rfl
      · exact hsign '-' rfl
      · exact hsign '+' rfl
    | plus ds hne hdigits =>
      rw [readInt, hread hne hdigits]
      rfl
    | minus ds hne hdigits =>
      rw [readInt, hread hne hdigits]
      rfl

theorem number_toDigits (n : ℕ) : number (Nat.toDigits 10 n) = n := by
  rw [← valueOf_eq_number]
  exact Nat.ofDigitChars_ten_toDigits

/-- **The printed form of a number is a numeral that writes it.** -/
theorem Numeral.ofInt (m : ℤ) : Numeral (toString m).toList m := by
  have hdigits (n : ℕ) : ∀ d ∈ Nat.toDigits 10 n, d.isDigit = true := fun d hd =>
    Nat.isDigit_of_mem_toDigits (by decide) (by decide) hd
  cases m with
  | ofNat n =>
    have hplain := Numeral.digits (Nat.toDigits 10 n) Nat.toDigits_ne_nil (hdigits n)
    have htext : (toString (Int.ofNat n)).toList = Nat.toDigits 10 n := String.toList_ofList
    rw [number_toDigits] at hplain
    rwa [htext]
  | negSucc n =>
    have hminus := Numeral.minus (Nat.toDigits 10 (n + 1)) Nat.toDigits_ne_nil (hdigits (n + 1))
    have htext : (toString (Int.negSucc n)).toList = '-' :: Nat.toDigits 10 (n + 1) := by
      rw [Int.toString_eq_repr, Int.repr, String.toList_append]
      exact congrArg _ String.toList_ofList
    rw [number_toDigits] at hminus
    rw [htext, Int.negSucc_eq]
    exact hminus

theorem isWhiteSpace_of_isDigit {c : Char} (hc : c.isDigit = true) :
    Text.isWhiteSpace c = false := by
  have hapart : ∀ r ∈ Text.whiteSpace.ranges, r.2 < '0'.toNat ∨ '9'.toNat < r.1 := by decide
  have hdigit := Char.isDigit_iff_toNat.1 hc
  rw [Text.isWhiteSpace, ← Bool.not_eq_true, Text.CodeSet.contains_iff]
  rintro ⟨r, hr, hrange⟩
  have hout := hapart r hr
  omega

theorem Numeral.isWhiteSpace_eq (h : Numeral cs m) : ∀ c ∈ cs, Text.isWhiteSpace c = false := by
  have hdigits {ds : List Char} (h : ∀ d ∈ ds, d.isDigit = true) :
      ∀ d ∈ ds, Text.isWhiteSpace d = false := fun d hd => isWhiteSpace_of_isDigit (h d hd)
  obtain ⟨ds, -, hds⟩ | ⟨ds, -, hds⟩ | ⟨ds, -, hds⟩ := h
  · exact hdigits hds
  · exact List.forall_mem_cons.2 ⟨rfl, hdigits hds⟩
  · exact List.forall_mem_cons.2 ⟨rfl, hdigits hds⟩

theorem Numeral.trims {u v : List Char} (h : Numeral cs m) (hu : Text.White u)
    (hv : Text.White v) : Text.Trims (u ++ cs ++ v) cs where
  around := ⟨u, v, rfl, hu, hv⟩
  head c hc := h.isWhiteSpace_eq c (List.mem_of_mem_head? hc)
  last c hc := h.isWhiteSpace_eq c (List.mem_of_mem_getLast? hc)

end Decimal

/-! ## The conversion -/

section Conversion

open Decimal (Numeral)

variable {t : String} {k : Int64}

theorem readWord_eq_some_iff :
    (Decimal.readInt (Text.trim t.toList)).bind Decimal.narrow = some k ↔
      ∃ inner, Text.Trims t.toList inner ∧ Numeral inner k.toInt := by
  rw [Option.bind_eq_some_iff]
  constructor
  · rintro ⟨m, hm, hk⟩
    rw [Decimal.readInt_eq_some_iff, ← Word.narrow_eq_some_iff.1 hk] at hm
    exact ⟨_, Text.trims_trim t.toList, hm⟩
  · rintro ⟨inner, htrims, hnumeral⟩
    refine ⟨k.toInt, ?_, Word.narrow_eq_some_iff.2 rfl⟩
    rw [htrims.trim_eq, Decimal.readInt_eq_some_iff]
    exact hnumeral

theorem convert_eq_ok_iff : Literal.convert .int (.string t) = .ok (.int k) ↔
    ∃ inner, Text.Trims t.toList inner ∧ Numeral inner k.toInt := by
  rw [← readWord_eq_some_iff, Literal.convert, Conversion.parseInt]
  cases (Decimal.readInt (Text.trim t.toList)).bind Decimal.narrow <;> simp [Except.map]

/-- A text that is not read as a word is in the error as it is. -/
theorem convert_ok_or_error (t : String) :
    (∃ k : Int64, Literal.convert .int (.string t) = .ok (.int k)) ∨
      Literal.convert .int (.string t) = .error (.invalidConversion t "Int") := by
  rw [Literal.convert, Conversion.parseInt]
  split
  · next k _ => exact .inl ⟨k, rfl⟩
  · exact .inr rfl

/-- Printing is undone, also between white space. -/
theorem convert_text (k : Int64) {u v : String} (hu : Text.White u.toList)
    (hv : Text.White v.toList) :
    Literal.convert .int (.string (u ++ (Literal.int k).text ++ v)) = .ok (.int k) := by
  have hnumeral : Numeral (Literal.int k).text.toList k.toInt := .ofInt k.toInt
  refine convert_eq_ok_iff.2 ⟨_, ?_, hnumeral⟩
  rw [String.toList_append, String.toList_append]
  exact hnumeral.trims hu hv

end Conversion

/-! ## The constructor -/

/-- What a text is as an integer: the value of a numeral between white space, if that is a word, and
nothing else. -/
structure IntOfText (t : String) (r : Except Cause Literal) : Prop where
  accepts : ∀ m : ℤ, (∃ k : Int64, k.toInt = m ∧ r = .ok (.int k)) ↔
    (∃ inner, Text.Trims t.toList inner ∧ Decimal.Numeral inner m) ∧ -2 ^ 63 ≤ m ∧ m ≤ 2 ^ 63 - 1
  rejects : (¬∃ k : Int64, r = .ok (.int k)) → r = .error (.invalidConversion t "Int")

theorem intOfText (t : String) : IntOfText t (Literal.convert .int (.string t)) where
  accepts m := by
    constructor
    · rintro ⟨k, rfl, hk⟩
      exact ⟨convert_eq_ok_iff.1 hk, k.le_toInt, Int.le_sub_one_of_lt k.toInt_lt⟩
    · rintro ⟨hinner, hle, hlt⟩
      have hk : (Int64.ofInt m).toInt = m :=
        Int64.toInt_ofInt_of_le hle (Int.lt_of_le_sub_one hlt)
      refine ⟨Int64.ofInt m, hk, convert_eq_ok_iff.2 ?_⟩
      rwa [hk]
  rejects h := (convert_ok_or_error t).resolve_left h

/-- What the constructor `Int` does with the texts that expressions give. -/
structure IntsOfTexts (w : World) (n : ScopeId) : Prop where
  converts : ∀ e t p, w.Gives n e (.ok (.string t)) →
    ∃ r, IntOfText t r ∧ w.Gives n (.call p "Int" [e]) (r.mapError (EvalError.mk · p))
  undoes : ∀ (k : Int64) u v front number back p₁ p₂ p₃ p₄, Text.White u.toList →
    Text.White v.toList → w.Gives n front (.ok (.string u)) →
    w.Gives n number (.ok (.int k)) → w.Gives n back (.ok (.string v)) →
    w.Gives n (.call p₁ "Int" [.binary p₂ .add
      (.binary p₃ .add front (.call p₄ "String" [number])) back]) (.ok (.int k))

/-- **A text is an integer if it is a numeral between white space and its value is a word.** -/
theorem World.SeesBuiltins.intsOfTexts {w : World} {n : ScopeId} (hw : w.SeesBuiltins n) :
    IntsOfTexts w n where
  converts e t p he :=
    ⟨_, intOfText t, hw.gives_construct .int (by simp [Literal.primitive, Primitive.sources]) he p⟩
  undoes k u v front number back p₁ p₂ p₃ p₄ hu hv hfront hnumber hback := by
    have hadd : (BinaryOp.add, Primitive.string) ∈ Primitive.string.binaryOps := by decide
    have hprinted : w.Gives n (.call p₄ "String" [number]) (.ok (.string (Literal.int k).text)) :=
      hw.gives_construct .string (by simp [Literal.primitive, Primitive.sources]) hnumber p₄
    have hjoined : w.Gives n (.binary p₃ .add front (.call p₄ "String" [number]))
        (.ok (.string (u ++ (Literal.int k).text))) :=
      hw.gives_binary (l := .string u) (r := .string (Literal.int k).text) hadd rfl hfront hprinted p₃
    have htext : w.Gives n
        (.binary p₂ .add (.binary p₃ .add front (.call p₄ "String" [number])) back)
        (.ok (.string (u ++ (Literal.int k).text ++ v))) :=
      hw.gives_binary (l := .string (u ++ (Literal.int k).text)) (r := .string v) hadd rfl hjoined
        hback p₂
    have hint := hw.gives_construct .int (by simp [Literal.primitive, Primitive.sources]) htext p₁
    rw [convert_text k hu hv] at hint
    exact hint

/-- The least word between an em space and a line feed, and a numeral that is no word. -/
theorem World.SeesBuiltins.intsOfTexts_least :
    let w := Interpreter.start true .discarded
    w.SeesBuiltins Interpreter.root ∧
    w.Gives Interpreter.root (.call none "Int" [.binary none .add (.binary none .add
      (.literal none (.string "\u2003")) (.call none "String" [.literal none (.int Int64.minValue)]))
      (.literal none (.string "\n"))]) (.ok (.int Int64.minValue)) ∧
    w.Gives Interpreter.root (.call none "Int" [.literal none (.string " +9223372036854775808")])
      (.error ⟨.invalidConversion " +9223372036854775808" "Int", none⟩) := by
  have hw := Interpreter.seesBuiltins_start .discarded
  have hspec := hw.intsOfTexts
  refine ⟨hw, ?_, ?_⟩
  · exact hspec.undoes Int64.minValue "\u2003" "\n" _ _ _ _ _ _ _ (by decide) (by decide)
      (hw.gives_literal none _) (hw.gives_literal none _) (hw.gives_literal none _)
  · obtain ⟨r, hr, hgives⟩ := hspec.converts (.literal none (.string " +9223372036854775808")) _ none
      (hw.gives_literal none _)
    rw [hr.rejects] at hgives
    · exact hgives
    rintro ⟨k, hk⟩
    obtain ⟨⟨inner, htrims, hnumeral⟩, hle, hlt⟩ := (hr.accepts k.toInt).1 ⟨k, rfl, hk⟩
    rw [← Decimal.readInt_eq_some_iff, ← htrims.trim_eq] at hnumeral
    have hread : Decimal.readInt (Text.trim " +9223372036854775808".toList) =
        some 9223372036854775808 := by decide
    rw [hread, Option.some.injEq] at hnumeral
    omega

end Nominal
