import QueryBench.Decimal.Basic
import QueryBench.Proofs.Arithmetic.Encoding

/-!
# The nearest value of a decimal

The conversion of a decimal number to binary64 is rounded once, whichever way it takes: numbers
that are far too large or too small are cut off, few digits and a small exponent are one exact
operation on exact operands, and everything else is one exact division or product.
-/

namespace QueryBench

open Binary64
open Float.Model (Format UnpackedFloat)
open Float.Model.UnpackedFloat

namespace Decimal

/-- The number without its sign. -/
def magnitude (d : Decimal) : ℚ := d.digits * 10 ^ d.exponent

def sign (d : Decimal) : Sign := if d.negative then .negative else .positive

theorem ten_zpow_pos (e : ℤ) : (0 : ℚ) < 10 ^ e := zpow_pos (by norm_num) e

theorem magnitude_nonneg (d : Decimal) : 0 ≤ d.magnitude :=
  mul_nonneg (Nat.cast_nonneg _) (ten_zpow_pos _).le

theorem toRat_eq (d : Decimal) : d.toRat = if d.negative then -d.magnitude else d.magnitude := by
  have hvalue : mkRat (d.digits * Nat.pow 10 d.exponent.toNat) (Nat.pow 10 (-d.exponent).toNat) =
      d.magnitude := by
    rw [Rat.mkRat_eq_div, magnitude]
    rw [zpow_eq_div (by norm_num), Nat.pow_eq, Nat.pow_eq]
    push_cast
    rw [mul_div_assoc]
  rw [toRat, hvalue]

/-! ## Digits -/

theorem lt_ten_pow_digitCount (n : ℕ) : n < 10 ^ digitCount n :=
  (Nat.length_toDigits_le_iff (by decide) Nat.length_toDigits_pos).mp le_rfl

theorem ten_pow_le_of_digitCount {n : ℕ} (hn : 0 < n) : 10 ^ (digitCount n - 1) ≤ n := by
  rcases Nat.eq_zero_or_pos (digitCount n - 1) with hzero | hpos
  · rw [hzero]
    exact hn
  · by_contra hlt
    have hle := (Nat.length_toDigits_le_iff (b := 10) (by decide) hpos).mpr (not_le.mp hlt)
    rw [digitCount] at hle hpos
    omega

theorem digitCount_le_log2 (n : ℕ) : digitCount n ≤ n.log2 + 1 := by
  apply (Nat.length_toDigits_le_iff (by decide) (Nat.succ_pos _)).mpr
  exact Nat.lt_log2_self.trans_le (Nat.pow_le_pow_left (by decide) _)

section Magnitude

variable {m : ℕ} {e : ℤ}

theorem magnitude_lt (m : ℕ) (e : ℤ) : (m : ℚ) * 10 ^ e < 10 ^ (e + digitCount m) := by
  have hlt : (m : ℚ) < 10 ^ (digitCount m : ℤ) := by
    exact_mod_cast lt_ten_pow_digitCount m
  calc
    (m : ℚ) * 10 ^ e < 10 ^ (digitCount m : ℤ) * 10 ^ e :=
      mul_lt_mul_of_pos_right hlt (ten_zpow_pos e)
    _ = 10 ^ (e + digitCount m) := by rw [← zpow_add₀ (by norm_num), add_comm]

theorem le_magnitude (hm : 0 < m) : (10 : ℚ) ^ (e + digitCount m - 1) ≤ m * 10 ^ e := by
  have hle : (10 : ℚ) ^ ((digitCount m : ℤ) - 1) ≤ m := by
    have hcount : 0 < digitCount m := Nat.length_toDigits_pos
    have hcast : ((digitCount m : ℤ) - 1) = ((digitCount m - 1 : ℕ) : ℤ) := by omega
    rw [hcast]
    exact_mod_cast ten_pow_le_of_digitCount hm
  calc
    (10 : ℚ) ^ (e + digitCount m - 1) = 10 ^ ((digitCount m : ℤ) - 1) * 10 ^ e := by
      rw [← zpow_add₀ (by norm_num)]
      congr 1
      ring
    _ ≤ m * 10 ^ e := mul_le_mul_of_nonneg_right hle (ten_zpow_pos e).le

end Magnitude

/-! ## The conversion -/

theorem holds_zero : Holds 0.0 .positive 0 := by
  have hzero : (0.0 : Float) = .ofModel (.pack (.zero .positive)) := by decide +kernel
  rw [hzero]
  exact holds_pack (.zero .positive)

theorem unpack_infinity : (1.0 / 0.0 : Float).toModel.unpack = .infinity .positive := by
  have hinfinity : (1.0 / 0.0 : Float) = .ofModel (.pack (.infinity .positive)) := by
    decide +kernel
  rw [hinfinity]
  exact unpack_pack_infinity .positive

theorem stores_ofNat {n : ℕ} (hn : 0 < n) :
    Stores (UnpackedFloat.ofNat Format.binary64 n) .positive (rounded n) := by
  have hstores := stores_normalize (m := n) (by omega) 0 .positive
  rw [zpow_zero, mul_one, Int.cast_natCast] at hstores
  exact hstores

theorem holds_powerOfTen {k : ℕ} (hk : k < Float.exactlyRepresentablePowersOfTen.size) :
    Holds Float.exactlyRepresentablePowersOfTen[k] .positive (10 ^ k) := by
  have hpowers : ∀ (j : ℕ) (hj : j < Float.exactlyRepresentablePowersOfTen.size),
      Float.exactlyRepresentablePowersOfTen[j] = .ofModel (.ofNat (10 ^ j)) := by
    decide +kernel
  have hexact : rounded (10 ^ k : ℕ) = 10 ^ k := by
    have hlt : 5 ^ k < 2 ^ 53 :=
      (Nat.pow_le_pow_right (by decide) (Nat.lt_succ_iff.mp hk)).trans_lt
        (by decide : 5 ^ 22 < 2 ^ 53)
    have hself := rounded_eq_self hlt (e := k) (by omega)
    have hsplit : ((5 ^ k : ℕ) : ℚ) * 2 ^ (k : ℤ) = (10 ^ k : ℕ) := by
      rw [zpow_natCast, Nat.cast_pow, Nat.cast_pow, ← mul_pow]
      norm_num
    rw [← hsplit, hself, hsplit, Nat.cast_pow, Nat.cast_ofNat]
  rw [hpowers k hk, ← hexact]
  exact holds_pack (stores_ofNat (Nat.pow_pos (by decide)))

/-- A number of few digits is held as it is. -/
theorem holds_ofNat {m : ℕ} (hm : 0 < m) (hlt : m < 2 ^ 53) :
    Holds (.ofModel (.ofNat m)) .positive m := by
  have hstores := stores_ofNat hm
  rw [rounded_natCast hlt] at hstores
  exact holds_pack hstores

theorem holds_toUInt64 {m : ℕ} (hm : 0 < m) (hlt : m < 2 ^ 53) :
    Holds m.toUInt64.toFloat .positive m := by
  have hnat : m.toUInt64.toNat = m := by
    rw [UInt64.toNat_ofNat', Nat.mod_eq_of_lt (by omega)]
  have hfloat : m.toUInt64.toFloat = .ofModel (.ofNat m.toUInt64.toNat) := rfl
  rw [hfloat, hnat]
  exact holds_ofNat hm hlt

theorem natCast_lt_limit {m : ℕ} (h : m < 2 ^ 53) : (m : ℚ) < limit := by
  calc
    (m : ℚ) < 2 ^ (53 : ℤ) := by exact_mod_cast h
    _ ≤ limit := zpow_le_zpow_right₀ (by norm_num) (by norm_num)

theorem ten_pow_lt_limit {k : ℕ} (h : k ≤ 22) : (10 : ℚ) ^ k < limit := by
  calc
    (10 : ℚ) ^ k ≤ 10 ^ 22 := pow_le_pow_right₀ (by norm_num) h
    _ < 2 ^ (74 : ℤ) := by norm_num
    _ ≤ limit := zpow_le_zpow_right₀ (by norm_num) (by norm_num)

/-- The mantissa of a product is lengthened, so that no digit of it is missing. -/
theorem stores_product {m : ℕ} (hm : 0 < m) (k : ℕ) :
    Stores (roundWithAccuracy Format.binary64 .positive (m <<< 53 * 10 ^ k) (-53) .exact)
      .positive (rounded (m * 10 ^ k)) := by
  have hpos : 0 < m <<< 53 * 10 ^ k := by
    rw [Nat.shiftLeft_eq]
    positivity
  have hvalue : (m : ℚ) * (10 : ℚ) ^ k = ((m <<< 53 * 10 ^ k : ℕ) : ℚ) * 2 ^ (-53 : ℤ) := by
    rw [Nat.shiftLeft_eq]
    push_cast
    rw [zpow_neg]
    norm_num
    ring
  rw [hvalue]
  apply stores_roundWithAccuracy _ (mul_two_zpow_pos hpos _)
  · rw [mul_div_cancel_right₀ _ (two_zpow_pos _).ne']
    exact .exact _
  · have hlog : 53 ≤ (m <<< 53 * 10 ^ k).log2 := by
      apply (Nat.le_log2 hpos.ne').mpr
      rw [Nat.shiftLeft_eq]
      exact (Nat.le_mul_of_pos_left _ hm).trans (Nat.le_mul_of_pos_right _ (by positivity))
    rw [ulpExponent, log_mul_two_zpow hpos]
    omega

/-- The conversion by one operation on numbers of many digits. -/
theorem stores_ofScientific {m : ℕ} (hm : 0 < m) {e : ℤ} (hlow : -(2048 + m.log2) ≤ e)
    (hhigh : e ≤ 2048) :
    Stores (UnpackedFloat.ofScientific Format.binary64 m e) .positive (rounded (m * 10 ^ e)) := by
  have hbits : (2 : ℤ) ^ Format.binary64.exponentBits = 2048 := by decide
  rw [UnpackedFloat.ofScientific, dif_neg hm.ne', hbits, if_neg (by omega), if_neg (by omega)]
  split_ifs with hsign
  · have hten : (10 : ℚ) ^ e = 10 ^ e.toNat := by
      rw [← zpow_natCast, Int.toNat_of_nonneg hsign]
    rw [hten]
    exact stores_product hm e.toNat
  · have hten : (10 : ℚ) ^ e = ((10 ^ (-e).toNat : ℕ) : ℚ)⁻¹ := by
      rw [Nat.cast_pow, Nat.cast_ofNat, ← zpow_natCast, Int.toNat_of_nonneg (by omega), zpow_neg,
        inv_inv]
    have hstores := stores_divCore (.positive / .positive) hm
      (Nat.pow_pos (n := (-e).toNat) (by decide : 0 < 10)) 0 0
    rw [zpow_zero, mul_one, mul_one] at hstores
    rw [hten, ← div_eq_mul_inv]
    exact hstores

section Scales

variable {m : ℕ} {e : ℤ}

/-- Numbers below the least scale are rounded to zero. -/
theorem rounded_below_scale (h : e + digitCount m < -scaleLimit) :
    rounded ((m : ℚ) * 10 ^ e) = 0 := by
  apply rounded_of_small (mul_nonneg (Nat.cast_nonneg m) (ten_zpow_pos e).le)
  have hexponent : e + digitCount m ≤ -401 := by
    rw [scaleLimit] at h
    omega
  calc
    (m : ℚ) * 10 ^ e < 10 ^ (e + digitCount m) := magnitude_lt m e
    _ ≤ 10 ^ (-401 : ℤ) := zpow_le_zpow_right₀ (by norm_num) hexponent
    _ ≤ 2 ^ (-1075 : ℤ) := by
      rw [zpow_neg, zpow_neg]
      apply inv_anti₀ (two_zpow_pos _)
      exact_mod_cast (by decide +kernel : 2 ^ 1075 ≤ 10 ^ 401)

/-- Numbers above the greatest scale are too large. -/
theorem limit_le_rounded (hm : 0 < m) (h : scaleLimit < e + digitCount m) :
    limit ≤ rounded (m * 10 ^ e) := by
  have hexponent : 400 ≤ e + digitCount m - 1 := by
    rw [scaleLimit] at h
    omega
  apply two_zpow_le_rounded (by norm_num)
  calc
    (2 : ℚ) ^ (1024 : ℤ) ≤ 10 ^ (400 : ℤ) := by
      exact_mod_cast (by decide +kernel : 2 ^ 1024 ≤ 10 ^ 400)
    _ ≤ 10 ^ (e + digitCount m - 1) := zpow_le_zpow_right₀ (by norm_num) hexponent
    _ ≤ m * 10 ^ e := le_magnitude hm

/-- What the library function makes of a number between the scales. -/
theorem holds_ofScientific (hm : 0 < m) (hlow : -(2048 + m.log2) ≤ e) (hhigh : e ≤ 2048) :
    Holds (Float.ofScientific m (decide (e < 0)) e.natAbs) .positive (rounded (m * 10 ^ e)) := by
  rw [Float.ofScientific]
  by_cases hfew : m < 2 ^ 53 ∧ e.natAbs ≤ 22
  · rw [dif_pos hfew]
    have hleft := holds_toUInt64 hm hfew.1
    have hright := holds_powerOfTen (Nat.lt_succ_iff.mpr hfew.2)
    have hlimit := natCast_lt_limit hfew.1
    have hlimit' := ten_pow_lt_limit hfew.2
    by_cases hsign : e < 0
    · have hten : (10 : ℚ) ^ e = (10 ^ e.natAbs)⁻¹ := by
        rw [← zpow_natCast, ← zpow_neg]
        congr 1
        omega
      dsimp only
      rw [if_pos (decide_eq_true hsign), hten, ← div_eq_mul_inv]
      exact hleft.div hright hlimit hlimit' (by positivity)
    · have hten : (10 : ℚ) ^ e = 10 ^ e.natAbs := by
        rw [← zpow_natCast]
        congr 1
        omega
      dsimp only
      rw [if_neg (by simpa using hsign), hten]
      exact hleft.mul hright hlimit hlimit'
  · rw [dif_neg hfew]
    have hexponent : (if decide (e < 0) = true then Int.negOfNat e.natAbs else Int.ofNat e.natAbs) =
        e := by
      by_cases hsign : e < 0
      · rw [if_pos (decide_eq_true hsign), Int.negOfNat_eq, Int.ofNat_eq_natCast]
        omega
      · rw [if_neg (by simpa using hsign), Int.ofNat_eq_natCast]
        omega
    dsimp only
    rw [hexponent]
    exact holds_pack (stores_ofScientific hm hlow hhigh)

end Scales

/-- The nearest value, whichever way it is found. -/
theorem holds_magnitudeToFloat (m : ℕ) (e : ℤ) :
    Holds (magnitudeToFloat m e) .positive (rounded (m * 10 ^ e)) := by
  rw [magnitudeToFloat]
  by_cases hsmall : m = 0 ∨ e + digitCount m < -scaleLimit
  · rw [if_pos hsmall]
    have hzero : rounded ((m : ℚ) * 10 ^ e) = 0 := by
      rcases hsmall with rfl | hscale
      · simp
      · exact rounded_below_scale hscale
    rw [hzero]
    exact holds_zero
  rw [if_neg hsmall]
  rw [not_or, not_lt] at hsmall
  obtain ⟨hne, hlow⟩ := hsmall
  have hm : 0 < m := Nat.pos_of_ne_zero hne
  by_cases hlarge : scaleLimit < e + digitCount m
  · rw [if_pos hlarge]
    exact ⟨fun hlt ↦ absurd hlt (not_lt.mpr (limit_le_rounded hm hlarge)), fun _ ↦ unpack_infinity⟩
  · rw [if_neg hlarge]
    have hlog := digitCount_le_log2 m
    rw [scaleLimit] at hlow hlarge
    exact holds_ofScientific hm (by omega) (by omega)

theorem holds_toFloat (d : Decimal) : Holds d.toFloat d.sign (rounded d.magnitude) := by
  have hholds := holds_magnitudeToFloat d.digits d.exponent
  rw [toFloat, sign]
  cases d.negative with
  | false => exact hholds
  | true => exact hholds.neg

end Decimal
end QueryBench
