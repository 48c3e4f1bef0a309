import Nominal.Proofs.Division

/-!
# Shifts of integers

A word shifted to the left may wrap around, and the shift is accepted if the shift back undoes it.
What has wrapped around differs from the product by a multiple of `2 ^ 64`. With fewer than 64 places
it is still a multiple of the power of two, so the shift back is exact and only undoes a product that
has not wrapped around. From 64 places on nothing but zero fits. To the right, only the sign is left
from 63 places on.

* `bmod_ediv_eq_iff`: which products are undone.
* `ediv_two_pow_eq`: the amounts that leave only the sign.
* `Word.toInt_shl`, `Word.toInt_shr`: shifts of words by fewer than 64 places.
* **`Word.shiftLeft_eq`**, **`Word.toInt_shiftRight`**: the two operations by any amount.
* **`Word.exact_shifts`**: shifts of all words.
-/

namespace Nominal

/-! ## Exact products and quotients -/

section Exact

variable {a n : ℤ} {k : ℕ}

theorem bmod_eq_self_iff : n.bmod (2 ^ 64) = n ↔ -2 ^ 63 ≤ n ∧ n < 2 ^ 63 := by
  constructor
  · intro h
    have hle := Int.le_bmod (x := n) (m := 2 ^ 64) (by decide)
    have hlt := Int.bmod_lt (x := n) (m := 2 ^ 64) (by decide)
    rw [h] at hle hlt
    omega
  · rintro ⟨hle, hlt⟩
    exact Int.bmod_eq_of_le (by omega) (by omega)

/-- What has wrapped around is a multiple of the power of two like the product. -/
theorem two_pow_dvd_bmod (a : ℤ) (hk : k ≤ 64) : (2 : ℤ) ^ k ∣ (a * 2 ^ k).bmod (2 ^ 64) := by
  have hturn : (2 : ℤ) ^ k ∣ ((2 ^ 64 : ℕ) : ℤ) := by
    exact_mod_cast pow_dvd_pow 2 hk
  have hsum := Int.bmod_add_bdiv (a * 2 ^ k) (2 ^ 64)
  rw [← eq_sub_iff_add_eq] at hsum
  rw [hsum]
  exact dvd_sub (Dvd.intro_left a rfl) (hturn.mul_right _)

/-- **Division undoes a product if and only if it has not wrapped around.** -/
theorem bmod_ediv_eq_iff (hk : k ≤ 64) :
    (a * 2 ^ k).bmod (2 ^ 64) / 2 ^ k = a ↔ -2 ^ 63 ≤ a * 2 ^ k ∧ a * 2 ^ k < 2 ^ 63 := by
  rw [← bmod_eq_self_iff]
  constructor
  · intro h
    conv_rhs => rw [← h]
    exact (Int.ediv_mul_cancel (two_pow_dvd_bmod a hk)).symm
  · intro h
    rw [h, Int.mul_ediv_cancel a (by positivity)]

/-- No product with a large power of two fits. -/
theorem not_fits_of_le (ha : a ≠ 0) (hk : 64 ≤ k) : a * 2 ^ k < -2 ^ 63 ∨ 2 ^ 63 ≤ a * 2 ^ k := by
  have hpow : (2 : ℤ) ^ 64 ≤ 2 ^ k := pow_le_pow_right₀ (by decide) hk
  obtain hneg | hpos := lt_or_gt_of_ne ha
  · left
    have hle : a * 2 ^ k ≤ -1 * 2 ^ k := mul_le_mul_of_nonneg_right (by omega) (by positivity)
    omega
  · right
    have hle : 1 * 2 ^ k ≤ a * 2 ^ k := mul_le_mul_of_nonneg_right (by omega) (by positivity)
    omega

/-- Only the sign is left of a word that is divided by a large power of two. -/
theorem ediv_two_pow_eq (hle : -2 ^ 63 ≤ a) (hlt : a < 2 ^ 63) (hk : 63 ≤ k) :
    a / 2 ^ k = if a < 0 then -1 else 0 := by
  have hpow : (2 : ℤ) ^ 63 ≤ 2 ^ k := pow_le_pow_right₀ (by decide) hk
  split_ifs with ha
  · exact Int.ediv_eq_neg_one_of_neg_of_le ha (by omega)
  · exact Int.ediv_eq_zero_of_lt (not_lt.1 ha) (by omega)

theorem floor_div_two_pow (a : ℤ) (k : ℕ) : ⌊(a : ℚ) / 2 ^ k⌋ = a / 2 ^ k := by
  have hfloor := Rat.floor_intCast_div_natCast a (2 ^ k)
  push_cast at hfloor
  exact hfloor

end Exact

namespace Word

variable {a b : Int64}

/-! ## Exact results -/

theorem exists_exact {n : ℤ} (operation : String) (hle : -2 ^ 63 ≤ n) (hlt : n < 2 ^ 63) :
    ∃ w, exact operation n = .ok w ∧ w.toInt = n := by
  have hn : Decimal.narrow n = some (Int64.ofInt n) :=
    narrow_eq_some_iff.2 (Int64.toInt_ofInt_of_le hle hlt)
  exact ⟨_, by rw [exact, hn], narrow_eq_some_iff.1 hn⟩

theorem exact_overflow {n : ℤ} (operation : String) (h : n < -2 ^ 63 ∨ 2 ^ 63 ≤ n) :
    exact operation n = .error (.integerOverflow operation) := by
  unfold exact
  split
  · next w hw =>
    have hle := w.le_toInt
    have hlt := w.toInt_lt
    rw [narrow_eq_some_iff.1 hw] at hle hlt
    omega
  · rfl

/-! ## Words -/

theorem toNat_amount (h : 0 ≤ b.toInt) (hlt : b.toInt < 64) :
    (b.toBitVec.smod 64).toNat = b.toInt.toNat := by
  have hamount : (b.toBitVec.smod 64).toInt = b.toInt := by
    rw [BitVec.toInt_smod, Int64.toInt_toBitVec]
    exact Int.fmod_eq_of_lt h hlt
  have hmsb : (b.toBitVec.smod 64).msb = false := by
    rw [BitVec.msb_eq_toInt, hamount]
    exact decide_eq_false (not_lt.2 h)
  rw [← BitVec.toNat_toInt_of_msb _ hmsb, hamount]

theorem toInt_shl (h : 0 ≤ b.toInt) (hlt : b.toInt < 64) :
    (a <<< b).toInt = (a.toInt * 2 ^ b.toInt.toNat).bmod (2 ^ 64) := by
  rw [← Int64.toInt_toBitVec, Int64.toBitVec_shiftLeft, BitVec.shiftLeft_eq', toNat_amount h hlt,
    BitVec.toInt_shiftLeft, Nat.shiftLeft_eq, ← Int64.toInt_toBitVec a,
    BitVec.toInt_eq_toNat_bmod a.toBitVec, Int.bmod_mul_bmod]
  push_cast
  rfl

theorem toInt_shr (h : 0 ≤ b.toInt) (hlt : b.toInt < 64) :
    (a >>> b).toInt = a.toInt / 2 ^ b.toInt.toNat := by
  rw [← Int64.toInt_toBitVec, Int64.toBitVec_shiftRight, BitVec.toInt_sshiftRight',
    toNat_amount h hlt, Int64.toInt_toBitVec, Int.shiftRight_eq_div_pow]
  push_cast
  rfl

/-! ## The operations -/

/-- **A shift to the left is the exact product, for every amount.** -/
theorem shiftLeft_eq (h : 0 ≤ b.toInt) :
    shiftLeft a b = exact "<<" (a.toInt * 2 ^ b.toInt.toNat) := by
  unfold shiftLeft
  rw [if_neg ((neg_iff_toInt b).not.2 (not_lt.2 h))]
  by_cases ha : a = 0
  · rw [if_pos ha, ha, Int64.toInt_zero, zero_mul]
    rfl
  rw [if_neg ha]
  by_cases hb : 64 ≤ b
  · have hk : 64 ≤ b.toInt.toNat := by
      have hle : 64 ≤ b.toInt := Int64.le_iff_toInt_le.1 hb
      omega
    rw [if_pos hb, exact_overflow _ (not_fits_of_le (toInt_ne_zero ha) hk)]
  have hlt : b.toInt < 64 := not_le.1 fun hle => hb (Int64.le_iff_toInt_le.2 hle)
  have hundone : (a <<< b) >>> b = a ↔
      -2 ^ 63 ≤ a.toInt * 2 ^ b.toInt.toNat ∧ a.toInt * 2 ^ b.toInt.toNat < 2 ^ 63 := by
    rw [← Int64.toInt_inj, toInt_shr h hlt, toInt_shl h hlt, bmod_ediv_eq_iff (by omega)]
  rw [if_neg hb]
  dsimp only
  split_ifs with hback
  · have hfits := hundone.1 hback
    rw [exact, narrow_eq_some_iff.2 ((toInt_shl h hlt).trans (bmod_eq_self_iff.2 hfits))]
  · have hlost := hundone.not.1 hback
    rw [exact_overflow _ (by omega)]

/-- **A shift to the right is the exact quotient rounded down, for every amount.** -/
theorem toInt_shiftRight (h : 0 ≤ b.toInt) :
    ∃ q, shiftRight a b = .ok q ∧ q.toInt = a.toInt / 2 ^ b.toInt.toNat := by
  unfold shiftRight
  rw [if_neg ((neg_iff_toInt b).not.2 (not_lt.2 h))]
  refine ⟨_, rfl, ?_⟩
  split_ifs with hb
  · have hk : 63 ≤ b.toInt := Int64.le_iff_toInt_le.1 hb
    have hclamped : (a >>> (63 : Int64)).toInt = a.toInt / 2 ^ 63 :=
      toInt_shr (b := 63) (by decide) (by decide)
    rw [hclamped, ediv_two_pow_eq a.le_toInt a.toInt_lt (le_refl 63),
      ediv_two_pow_eq a.le_toInt a.toInt_lt (by omega)]
  · have hlt : b.toInt < 63 := not_le.1 fun hle => hb (Int64.le_iff_toInt_le.2 hle)
    exact toInt_shr h (by omega)

/-! ## The operators -/

/-- What `<<` and `>>` of `Int` give for two words. -/
structure ExactShifts (a b : Int64) : Prop where
  negative : b.toInt < 0 →
    Literal.binary .shl (.int a) (.int b) = .error (.invalidShift b) ∧
      Literal.binary .shr (.int a) (.int b) = .error (.invalidShift b)
  left : 0 ≤ b.toInt → -2 ^ 63 ≤ a.toInt * 2 ^ b.toInt.toNat →
    a.toInt * 2 ^ b.toInt.toNat ≤ 2 ^ 63 - 1 →
    ∃ n, Literal.binary .shl (.int a) (.int b) = .ok (.int n) ∧
      n.toInt = a.toInt * 2 ^ b.toInt.toNat
  overflow : 0 ≤ b.toInt →
    ¬(-2 ^ 63 ≤ a.toInt * 2 ^ b.toInt.toNat ∧ a.toInt * 2 ^ b.toInt.toNat ≤ 2 ^ 63 - 1) →
    Literal.binary .shl (.int a) (.int b) = .error (.integerOverflow "<<")
  right : 0 ≤ b.toInt →
    ∃ n, Literal.binary .shr (.int a) (.int b) = .ok (.int n) ∧
      n.toInt = ⌊(a.toInt : ℚ) / 2 ^ b.toInt.toNat⌋

theorem binary_shl_eq (a b : Int64) :
    Literal.binary .shl (.int a) (.int b) = (shiftLeft a b).map .int := rfl

theorem binary_shr_eq (a b : Int64) :
    Literal.binary .shr (.int a) (.int b) = (shiftRight a b).map .int := rfl

/-- **Shifts of words are exact.** A negative amount is refused, a product that is no word is an
overflow, and a quotient is rounded down, whatever the amount. -/
theorem exact_shifts (a b : Int64) : ExactShifts a b where
  negative hb := by
    have hneg := (neg_iff_toInt b).2 hb
    rw [binary_shl_eq, binary_shr_eq, shiftLeft, shiftRight, if_pos hneg, if_pos hneg]
    exact ⟨rfl, rfl⟩
  left hb hle hlt := by
    obtain ⟨n, hn, hproduct⟩ := exists_exact "<<" hle (Int.lt_of_le_sub_one hlt)
    exact ⟨n, by rw [binary_shl_eq, shiftLeft_eq hb, hn]; rfl, hproduct⟩
  overflow hb hlost := by
    rw [binary_shl_eq, shiftLeft_eq hb, exact_overflow _ (by omega)]
    rfl
  right hb := by
    obtain ⟨q, hq, hquotient⟩ := toInt_shiftRight (a := a) hb
    exact ⟨q, by rw [binary_shr_eq, hq]; rfl, hquotient.trans (floor_div_two_pow _ _).symm⟩

example : shiftLeft (-1) 63 = .ok Int64.minValue ∧ shiftRight (-8) 4294967297 = .ok (-1) := by
  decide

end Word

end Nominal
