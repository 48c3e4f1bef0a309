import Mathlib.Data.Rat.Floor
import Mathlib.Tactic.FieldSimp
import Mathlib.Tactic.SplitIfs
import Nominal.Arithmetic.Operators

/-!
# Division of integers

Words are divided towards zero, and the result is corrected where that is not rounding down. The
quotient looks at the signs of the operands for this, the remainder at its own sign and that of the
divisor. Both corrections come to the exact quotient rounded down and what it leaves, and no step on
the way goes beyond a word.

* `Word.Strict`: the operations of words, without a result where the exact one is no word.
* `floor_div_eq`: the quotient rounded down, by what it leaves.
* `Word.toInt_quotient`, `Word.toInt_remainder`: the corrected results.
* `Word.Strict.floorDiv_eq`, `Word.Strict.floorMod_eq`: the corrections stay within words.
* **`Word.floor_division`**: quotients and remainders of all words.
-/

namespace Nominal

/-! ## Exact quotients -/

section Exact

variable {a b q r : ℤ}

theorem floor_div_eq (h : b * q + r = a) (hr : 0 ≤ r ∧ r < b ∨ b < r ∧ r ≤ 0) :
    ⌊(a : ℚ) / b⌋ = q := by
  have hb : b ≠ 0 := by omega
  have hsplit : (a : ℚ) / b = q + (r : ℚ) / b := by
    rw [← h]
    push_cast
    field_simp
  rw [hsplit, Int.floor_intCast_add, add_eq_left, Int.floor_eq_zero_iff, Set.mem_Ico]
  obtain ⟨hr, hlt⟩ | ⟨hlt, hr⟩ := hr
  · have hpos : (0 : ℚ) < b := by exact_mod_cast hr.trans_lt hlt
    exact ⟨div_nonneg (by exact_mod_cast hr) hpos.le,
      (div_lt_one hpos).2 (by exact_mod_cast hlt)⟩
  · have hneg : (b : ℚ) < 0 := by exact_mod_cast hlt.trans_le hr
    exact ⟨div_nonneg_of_nonpos (by exact_mod_cast hr) hneg.le,
      (div_lt_one_of_neg hneg).2 (by exact_mod_cast hlt)⟩

theorem natAbs_tmod_lt (a : ℤ) (hb : b ≠ 0) : (a.tmod b).natAbs < b.natAbs := by
  rw [Int.natAbs_tmod]
  exact Nat.mod_lt _ (Int.natAbs_pos.2 hb)

theorem tmod_nonpos (b : ℤ) (ha : a ≤ 0) : a.tmod b ≤ 0 := by
  have h := Int.tmod_nonneg b (Int.neg_nonneg_of_nonpos ha)
  rw [Int.neg_tmod] at h
  omega

/-- A quotient that is not exact is at most half as large as the dividend. -/
theorem two_mul_natAbs_tdiv_le (hb : b ≠ 0) (hr : a.tmod b ≠ 0) :
    2 * (a.tdiv b).natAbs ≤ a.natAbs := by
  have hlt := natAbs_tmod_lt a hb
  have hdivisor : 2 ≤ b.natAbs := by omega
  calc
    2 * (a.tdiv b).natAbs ≤ b.natAbs * (a.tdiv b).natAbs := Nat.mul_le_mul_right _ hdivisor
    _ = b.natAbs * (a.natAbs / b.natAbs) := by rw [Int.natAbs_tdiv]; rfl
    _ ≤ a.natAbs := Nat.mul_div_le _ _

/-- Rounding towards zero is rounding down if it is exact or if the quotient is not negative. -/
theorem floor_div_eq_tdiv (hb : b ≠ 0) (h : a.tmod b = 0 ∨ (a < 0 ↔ b < 0)) :
    ⌊(a : ℚ) / b⌋ = a.tdiv b := by
  have hlt := natAbs_tmod_lt a hb
  refine floor_div_eq (Int.mul_tdiv_add_tmod a b) ?_
  by_cases ha : a < 0
  · have hsign := tmod_nonpos b ha.le
    omega
  · have hsign := Int.tmod_nonneg b (not_lt.1 ha)
    omega

/-- Otherwise it is one too large. -/
theorem floor_div_eq_tdiv_sub_one (hb : b ≠ 0) (hr : a.tmod b ≠ 0) (h : ¬(a < 0 ↔ b < 0)) :
    ⌊(a : ℚ) / b⌋ = a.tdiv b - 1 := by
  have hlt := natAbs_tmod_lt a hb
  have hsum := Int.mul_tdiv_add_tmod a b
  refine floor_div_eq (r := a.tmod b + b) (by rw [Int.mul_sub, Int.mul_one]; omega) ?_
  by_cases ha : a < 0
  · have hsign := tmod_nonpos b ha.le
    omega
  · have hsign := Int.tmod_nonneg b (not_lt.1 ha)
    omega

theorem tmod_neg_iff (b : ℤ) (hr : a.tmod b ≠ 0) : a.tmod b < 0 ↔ a < 0 := by
  by_cases ha : a < 0
  · have hsign := tmod_nonpos b ha.le
    omega
  · have hsign := Int.tmod_nonneg b (not_lt.1 ha)
    omega

end Exact

/-! ## Words -/

namespace Word

variable {a b : Int64}

theorem toInt_ne_zero (ha : a ≠ 0) : a.toInt ≠ 0 :=
  fun h => ha (Int64.toInt_inj.1 (h.trans Int64.toInt_zero.symm))

theorem neg_iff_toInt (a : Int64) : a < 0 ↔ a.toInt < 0 := by
  rw [Int64.lt_iff_toInt_lt, Int64.toInt_zero]

/-- The one quotient of words that is no word is that of the least one and `-1`. -/
theorem toInt_div_eq (h : ¬(a = Int64.minValue ∧ b = -1)) :
    (a / b).toInt = a.toInt.tdiv b.toInt := by
  by_cases ha : a = Int64.minValue
  · exact Int64.toInt_div_of_ne_right a b fun hb => h ⟨ha, hb⟩
  · exact Int64.toInt_div_of_ne_left a b ha

theorem toInt_mod_ne_zero (hr : a % b ≠ 0) : a.toInt.tmod b.toInt ≠ 0 := by
  rw [← Int64.toInt_mod]
  exact toInt_ne_zero hr

theorem signs_differ_iff : decide (a < 0) ≠ decide (b < 0) ↔ ¬(a.toInt < 0 ↔ b.toInt < 0) := by
  rw [ne_eq, decide_eq_decide, neg_iff_toInt, neg_iff_toInt]

theorem narrow_eq_some_iff {n : ℤ} : Decimal.narrow n = some a ↔ a.toInt = n := by
  unfold Decimal.narrow
  constructor
  · intro h
    split_ifs at h with hn
    obtain ⟨hle, hlt⟩ := hn
    rw [← Option.some.inj h]
    exact Int64.toInt_ofInt_of_le hle (Int.lt_of_le_sub_one hlt)
  · rintro rfl
    rw [if_pos ⟨a.minValue_le_toInt, a.toInt_le⟩, Int64.ofInt_toInt]

/-- A quotient that is not exact can be made one less. -/
theorem toInt_div_sub_one (hb : b ≠ 0) (hr : a % b ≠ 0) :
    (a / b - 1).toInt = a.toInt.tdiv b.toInt - 1 := by
  have hexact : ¬(a = Int64.minValue ∧ b = -1) := by
    rintro ⟨rfl, rfl⟩
    exact hr rfl
  have hhalf := two_mul_natAbs_tdiv_le (toInt_ne_zero hb) (toInt_mod_ne_zero hr)
  have hle := a.le_toInt
  have hlt := a.toInt_lt
  rw [Int64.toInt_sub, toInt_div_eq hexact, Int64.toInt_one]
  exact Int.bmod_eq_of_le (by omega) (by omega)

/-- A remainder and a divisor of different signs have a sum. -/
theorem toInt_mod_add (hs : ¬((a % b).toInt < 0 ↔ b.toInt < 0)) :
    (a % b + b).toInt = a.toInt.tmod b.toInt + b.toInt := by
  have hle := (a % b).le_toInt
  have hlt := (a % b).toInt_lt
  have hle' := b.le_toInt
  have hlt' := b.toInt_lt
  rw [Int64.toInt_add, ← Int64.toInt_mod]
  exact Int.bmod_eq_of_le (by omega) (by omega)

/-! ### The corrected results -/

/-- **The corrected quotient is the exact one rounded down.** -/
theorem toInt_quotient (hb : b ≠ 0) (h : ¬(a = Int64.minValue ∧ b = -1)) :
    ∃ q, floorDiv a b = .ok q ∧ q.toInt = ⌊(a.toInt : ℚ) / b.toInt⌋ := by
  have hb' := toInt_ne_zero hb
  unfold floorDiv
  rw [if_neg hb, if_neg h]
  split_ifs with hc
  · obtain ⟨hr, hs⟩ := hc
    refine ⟨_, rfl, ?_⟩
    rw [toInt_div_sub_one hb hr,
      floor_div_eq_tdiv_sub_one hb' (toInt_mod_ne_zero hr) (signs_differ_iff.1 hs)]
  · refine ⟨_, rfl, ?_⟩
    rw [toInt_div_eq h, floor_div_eq_tdiv hb']
    by_cases hr : a % b = 0
    · exact .inl (by rw [← Int64.toInt_mod, hr, Int64.toInt_zero])
    · exact .inr (not_not.1 fun hs => hc ⟨hr, signs_differ_iff.2 hs⟩)

/-- **The corrected remainder is what the quotient rounded down leaves.** -/
theorem toInt_remainder (hb : b ≠ 0) :
    ∃ r, floorMod a b = .ok r ∧
      r.toInt = a.toInt - b.toInt * ⌊(a.toInt : ℚ) / b.toInt⌋ ∧
      (0 ≤ r.toInt ∧ r.toInt < b.toInt ∨ b.toInt < r.toInt ∧ r.toInt ≤ 0) := by
  have hb' := toInt_ne_zero hb
  have hlt := natAbs_tmod_lt a.toInt hb'
  have hsum := Int.mul_tdiv_add_tmod a.toInt b.toInt
  unfold floorMod
  rw [if_neg hb]
  dsimp only
  split_ifs with hc
  · obtain ⟨hr, hs⟩ := hc
    have hs := signs_differ_iff.1 hs
    have hr := toInt_mod_ne_zero hr
    refine ⟨_, rfl, ?_⟩
    rw [toInt_mod_add hs]
    rw [Int64.toInt_mod, tmod_neg_iff _ hr] at hs
    rw [floor_div_eq_tdiv_sub_one hb' hr hs, Int.mul_sub, Int.mul_one]
    rw [← tmod_neg_iff _ hr] at hs
    omega
  · refine ⟨_, rfl, ?_⟩
    have hagree : a.toInt.tmod b.toInt = 0 ∨ (a.toInt < 0 ↔ b.toInt < 0) := by
      by_cases hr : a % b = 0
      · exact .inl (by rw [← Int64.toInt_mod, hr, Int64.toInt_zero])
      · have hs := not_not.1 fun hs => hc ⟨hr, signs_differ_iff.2 hs⟩
        rw [Int64.toInt_mod, tmod_neg_iff _ (toInt_mod_ne_zero hr)] at hs
        exact .inr hs
    rw [floor_div_eq_tdiv hb' hagree, Int64.toInt_mod]
    refine ⟨by omega, ?_⟩
    by_cases ha : a.toInt < 0
    · have hsign := tmod_nonpos b.toInt ha.le
      omega
    · have hsign := Int.tmod_nonneg b.toInt (not_lt.1 ha)
      omega

/-! ### Steps within words -/

namespace Strict

/-- The quotient rounded towards zero. There is none by zero, and none that is no word. -/
def quotient (a b : Int64) : Option Int64 :=
  if b = 0 then none else Decimal.narrow (a.toInt.tdiv b.toInt)

/-- The remainder of the quotient, if there is one. -/
def remainder (a b : Int64) : Option Int64 :=
  (quotient a b).bind fun _ => Decimal.narrow (a.toInt.tmod b.toInt)

/-- The sum, if it is a word. -/
def sum (a b : Int64) : Option Int64 := Decimal.narrow (a.toInt + b.toInt)

/-- The difference, if it is a word. -/
def difference (a b : Int64) : Option Int64 := Decimal.narrow (a.toInt - b.toInt)

/-- The quotient rounded down, in steps that need a result. Only the first of them may be without
one, which is an overflow. -/
def floorDiv (a b : Int64) : Option (Except Cause Int64) :=
  if b = 0 then some (.error .divisionByZero)
  else match quotient a b with
    | none => some (.error (.integerOverflow "/"))
    | some q => do
      let r ← remainder a b
      if r ≠ 0 ∧ decide (a < 0) ≠ decide (b < 0) then (difference q 1).map .ok
      else return .ok q

/-- The remainder of the quotient rounded down, in steps that need a result. Where there is no
quotient it starts from zero. -/
def floorMod (a b : Int64) : Option (Except Cause Int64) :=
  if b = 0 then some (.error .moduloByZero)
  else
    let r := (remainder a b).getD 0
    if r ≠ 0 ∧ decide (r < 0) ≠ decide (b < 0) then (sum r b).map .ok else some (.ok r)

theorem quotient_overflow : quotient Int64.minValue (-1) = none := by decide

theorem quotient_eq (hb : b ≠ 0) (h : ¬(a = Int64.minValue ∧ b = -1)) :
    quotient a b = some (a / b) := by
  rw [quotient, if_neg hb, narrow_eq_some_iff, toInt_div_eq h]

theorem remainder_eq (hb : b ≠ 0) (h : ¬(a = Int64.minValue ∧ b = -1)) :
    remainder a b = some (a % b) := by
  rw [remainder, quotient_eq hb h, Option.bind_some, narrow_eq_some_iff, Int64.toInt_mod]

theorem getD_remainder (hb : b ≠ 0) : (remainder a b).getD 0 = a % b := by
  by_cases h : a = Int64.minValue ∧ b = -1
  · obtain ⟨rfl, rfl⟩ := h
    decide
  · rw [remainder_eq hb h, Option.getD_some]

/-- **No step of a division goes beyond a word.** -/
theorem floorDiv_eq (a b : Int64) : floorDiv a b = some (Word.floorDiv a b) := by
  unfold floorDiv Word.floorDiv
  by_cases hb : b = 0
  · rw [if_pos hb, if_pos hb]
  rw [if_neg hb, if_neg hb]
  by_cases h : a = Int64.minValue ∧ b = -1
  · rw [if_pos h, h.1, h.2, quotient_overflow]
  rw [if_neg h, quotient_eq hb h]
  dsimp only
  rw [remainder_eq hb h, Option.bind_eq_bind, Option.bind_some]
  split_ifs with hc
  · have hone : difference (a / b) 1 = some (a / b - 1) := by
      rw [difference, narrow_eq_some_iff, toInt_div_sub_one hb hc.1, toInt_div_eq h,
        Int64.toInt_one]
    rw [hone, Option.map_some]
  · rfl

/-- **No step towards a remainder goes beyond a word.** -/
theorem floorMod_eq (a b : Int64) : floorMod a b = some (Word.floorMod a b) := by
  unfold floorMod Word.floorMod
  by_cases hb : b = 0
  · rw [if_pos hb, if_pos hb]
  rw [if_neg hb, if_neg hb, getD_remainder hb]
  dsimp only
  split_ifs with hc
  · have hsum : sum (a % b) b = some (a % b + b) := by
      rw [sum, narrow_eq_some_iff, toInt_mod_add (signs_differ_iff.1 hc.2), Int64.toInt_mod]
    rw [hsum, Option.map_some]
  · rfl

end Strict

/-! ## The operators -/

/-- What `/` and `%` of `Int` give for two words. -/
structure FloorDivision (a b : Int64) : Prop where
  divisionByZero : b = 0 → Literal.binary .div (.int a) (.int b) = .error .divisionByZero
  moduloByZero : b = 0 → Literal.binary .mod (.int a) (.int b) = .error .moduloByZero
  overflow : a = Int64.minValue → b = -1 →
    Literal.binary .div (.int a) (.int b) = .error (.integerOverflow "/") ∧
      Literal.binary .mod (.int a) (.int b) = .ok (.int 0)
  quotient : b ≠ 0 → ¬(a = Int64.minValue ∧ b = -1) →
    ∃ q, Literal.binary .div (.int a) (.int b) = .ok (.int q) ∧
      q.toInt = ⌊(a.toInt : ℚ) / b.toInt⌋
  remainder : b ≠ 0 →
    ∃ r, Literal.binary .mod (.int a) (.int b) = .ok (.int r) ∧
      r.toInt = a.toInt - b.toInt * ⌊(a.toInt : ℚ) / b.toInt⌋ ∧
      (r.toInt = 0 ∨ r.toInt.sign = b.toInt.sign) ∧ |r.toInt| < |b.toInt|
  together : ∀ q r, Literal.binary .div (.int a) (.int b) = .ok (.int q) →
    Literal.binary .mod (.int a) (.int b) = .ok (.int r) → q.toInt * b.toInt + r.toInt = a.toInt
  strictDiv : Strict.floorDiv a b = some (floorDiv a b)
  strictMod : Strict.floorMod a b = some (floorMod a b)

theorem binary_div_eq (a b : Int64) :
    Literal.binary .div (.int a) (.int b) = (floorDiv a b).map .int := rfl

theorem binary_mod_eq (a b : Int64) :
    Literal.binary .mod (.int a) (.int b) = (floorMod a b).map .int := rfl

theorem eq_ok_of_map {x : Except Cause Int64} {n : Int64}
    (h : x.map Literal.int = .ok (.int n)) : x = .ok n := by
  cases x with
  | error c => cases h
  | ok m => cases h; rfl

theorem sign_and_abs_of_between {r b : ℤ} (h : 0 ≤ r ∧ r < b ∨ b < r ∧ r ≤ 0) :
    (r = 0 ∨ r.sign = b.sign) ∧ |r| < |b| := by
  obtain ⟨hr, hlt⟩ | ⟨hlt, hr⟩ := h
  · rw [abs_of_nonneg hr, abs_of_pos (hr.trans_lt hlt)]
    refine ⟨?_, hlt⟩
    obtain rfl | hpos := hr.eq_or_lt
    · exact .inl rfl
    · exact .inr (by rw [Int.sign_eq_one_of_pos hpos, Int.sign_eq_one_of_pos (hpos.trans hlt)])
  · rw [abs_of_nonpos hr, abs_of_neg (hlt.trans_le hr)]
    refine ⟨?_, neg_lt_neg hlt⟩
    obtain rfl | hneg := hr.eq_or_lt
    · exact .inl rfl
    · rw [Int.sign_eq_neg_one_of_neg hneg, Int.sign_eq_neg_one_of_neg (hlt.trans hneg)]
      exact .inr rfl

/-- **Division of words is exact division rounded down.** It fails for zero divisors and for the one
quotient that is no word, and no step on the way goes beyond a word. -/
theorem floor_division (a b : Int64) : FloorDivision a b where
  divisionByZero hb := by rw [binary_div_eq, floorDiv, if_pos hb]; rfl
  moduloByZero hb := by rw [binary_mod_eq, floorMod, if_pos hb]; rfl
  overflow ha hb := by
    rw [ha, hb]
    exact ⟨rfl, rfl⟩
  quotient hb h := by
    obtain ⟨q, hq, hfloor⟩ := toInt_quotient hb h
    exact ⟨q, by rw [binary_div_eq, hq]; rfl, hfloor⟩
  remainder hb := by
    obtain ⟨r, hr, hfloor, hbetween⟩ := toInt_remainder (a := a) hb
    exact ⟨r, by rw [binary_mod_eq, hr]; rfl, hfloor, sign_and_abs_of_between hbetween⟩
  together q r hq hr := by
    have hq := eq_ok_of_map hq
    have hr := eq_ok_of_map hr
    have hb : b ≠ 0 := by
      rintro rfl
      cases hq
    have hexact : ¬(a = Int64.minValue ∧ b = -1) := by
      rintro ⟨rfl, rfl⟩
      cases hq
    obtain ⟨q', hq', hfloor⟩ := toInt_quotient hb hexact
    obtain ⟨r', hr', hleft, -⟩ := toInt_remainder (a := a) hb
    obtain rfl : q = q' := Except.ok.inj (hq.symm.trans hq')
    obtain rfl : r = r' := Except.ok.inj (hr.symm.trans hr')
    rw [hleft, hfloor, mul_comm]
    omega
  strictDiv := Strict.floorDiv_eq a b
  strictMod := Strict.floorMod_eq a b

example : floorDiv (-7) 2 = .ok (-4) ∧ floorMod (-7) 2 = .ok 1 := by decide

end Word

end Nominal
