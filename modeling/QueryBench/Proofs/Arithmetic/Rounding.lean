import Mathlib

/-!
# Rounding

A positive rational is rounded to a binary64 number: to the nearest multiple of its unit in
the last place, and halfway between two of them to the even one.  The unit is such that the
number has 53 digits, but it is not below `2 ^ (-1074)`.  Where this gives `2 ^ 1024` or more
the number is too large for binary64.
-/

namespace QueryBench
namespace Binary64

/-- The nearest natural number, and halfway between two of them the even one. -/
def roundEven (q : ℚ) : ℕ :=
  if q < ⌊q⌋₊ + 1 / 2 then ⌊q⌋₊
  else if q = ⌊q⌋₊ + 1 / 2 then ⌊q⌋₊ + ⌊q⌋₊ % 2
  else ⌊q⌋₊ + 1

/-- The exponent of the unit in the last place. -/
def ulpExponent (q : ℚ) : ℤ := max (Int.log 2 q - 52) (-1074)

/-- The nearest binary64 number, if it is below `2 ^ 1024`. -/
def rounded (q : ℚ) : ℚ := roundEven (q / 2 ^ ulpExponent q) * 2 ^ ulpExponent q

/-! ## Whole numbers -/

theorem abs_roundEven_sub_le {q : ℚ} (hq : 0 ≤ q) : |(roundEven q : ℚ) - q| ≤ 1 / 2 := by
  have hlow := Nat.floor_le hq
  have hhigh := Nat.lt_floor_add_one q
  rw [abs_le, roundEven]
  split_ifs with hlt heq
  · constructor <;> linarith
  · have hparity : ((⌊q⌋₊ % 2 : ℕ) : ℚ) ≤ 1 := by
      exact_mod_cast Nat.lt_succ_iff.mp (Nat.mod_lt _ (by decide))
    have hnonneg : (0 : ℚ) ≤ (⌊q⌋₊ % 2 : ℕ) := Nat.cast_nonneg _
    push_cast at hparity hnonneg ⊢
    constructor <;> linarith
  · push_cast
    constructor <;> linarith

@[simp] theorem roundEven_natCast (n : ℕ) : roundEven n = n := by
  rw [roundEven, Nat.floor_natCast, if_pos (by linarith)]

theorem roundEven_eq_zero {q : ℚ} (h : q < 1 / 2) : roundEven q = 0 := by
  have hfloor : ⌊q⌋₊ = 0 := Nat.floor_eq_zero.mpr (by linarith)
  rw [roundEven, hfloor, if_pos (by simpa using h)]

theorem le_roundEven {q : ℚ} {n : ℕ} (h : n ≤ q) : n ≤ roundEven q := by
  have hfloor : n ≤ ⌊q⌋₊ := Nat.le_floor h
  rw [roundEven]
  split_ifs <;> omega

theorem roundEven_le {q : ℚ} {n : ℕ} (hq : 0 ≤ q) (h : q ≤ n) : roundEven q ≤ n := by
  rcases h.eq_or_lt with rfl | hlt
  · rw [roundEven_natCast]
  · have hfloor : ⌊q⌋₊ < n := (Nat.floor_lt hq).mpr hlt
    rw [roundEven]
    split_ifs <;> omega

/-! ## Units -/

theorem two_zpow_pos (e : ℤ) : (0 : ℚ) < 2 ^ e := zpow_pos (by norm_num) e

theorem mul_two_zpow_pos {m : ℕ} (hm : 0 < m) (e : ℤ) : (0 : ℚ) < m * 2 ^ e :=
  mul_pos (Nat.cast_pos.mpr hm) (two_zpow_pos e)

theorem two_zpow_log_le {q : ℚ} (hq : 0 < q) : (2 : ℚ) ^ Int.log 2 q ≤ q := by
  exact_mod_cast Int.zpow_log_le_self (b := 2) (by decide) hq

theorem log_lt_iff {q : ℚ} (hq : 0 < q) {k : ℤ} : Int.log 2 q < k ↔ q < 2 ^ k := by
  exact_mod_cast (Int.lt_zpow_iff_log_lt (b := 2) (by decide) hq).symm

/-- A power is a quotient of powers of which one is of exponent zero. -/
theorem zpow_eq_div {b : ℚ} (hb : b ≠ 0) (e : ℤ) : b ^ e = b ^ e.toNat / b ^ (-e).toNat := by
  have hsplit : e = (e.toNat : ℤ) - ((-e).toNat : ℤ) := by omega
  rw [← zpow_natCast, ← zpow_natCast, ← zpow_sub₀ hb, ← hsplit]

theorem min_le_ulpExponent (q : ℚ) : -1074 ≤ ulpExponent q := le_max_right _ _

/-- A number has no more than 53 digits before its last place. -/
theorem div_ulp_lt {q : ℚ} : q / 2 ^ ulpExponent q < 2 ^ 53 := by
  have hlog : q < 2 ^ (Int.log 2 q + 1) := by
    exact_mod_cast Int.lt_zpow_succ_log_self (b := 2) (by decide) q
  have hle : (2 : ℚ) ^ (Int.log 2 q + 1) ≤ 2 ^ (53 + ulpExponent q) := by
    apply zpow_le_zpow_right₀ (by norm_num)
    rw [ulpExponent]
    omega
  rw [div_lt_iff₀ (two_zpow_pos _)]
  calc
    q < 2 ^ (Int.log 2 q + 1) := hlog
    _ ≤ 2 ^ (53 + ulpExponent q) := hle
    _ = 2 ^ 53 * 2 ^ ulpExponent q := zpow_add₀ (by norm_num) 53 _

/-- A number has 53 digits, unless its unit is the least one. -/
theorem le_div_ulp {q : ℚ} (hq : 0 < q) (h : ulpExponent q ≠ -1074) :
    2 ^ 52 ≤ q / 2 ^ ulpExponent q := by
  have hexponent : ulpExponent q = Int.log 2 q - 52 := by
    rw [ulpExponent] at h ⊢
    omega
  rw [le_div_iff₀ (two_zpow_pos _), hexponent]
  calc
    (2 : ℚ) ^ 52 * 2 ^ (Int.log 2 q - 52) = 2 ^ (52 + (Int.log 2 q - 52)) :=
      (zpow_add₀ (by norm_num) 52 _).symm
    _ = 2 ^ Int.log 2 q := by rw [add_sub_cancel]
    _ ≤ q := two_zpow_log_le hq

theorem log_eq {q : ℚ} {k : ℤ} (hlow : 2 ^ k ≤ q) (hhigh : q < 2 ^ (k + 1)) :
    Int.log 2 q = k := by
  have hq : 0 < q := (two_zpow_pos k).trans_le hlow
  have hle : k ≤ Int.log 2 q :=
    (Int.zpow_le_iff_le_log (b := 2) (by decide) hq).mp (by exact_mod_cast hlow)
  have hlt : Int.log 2 q < k + 1 := (log_lt_iff hq).mpr hhigh
  omega

/-! ## Rounded numbers -/

theorem rounded_nonneg (q : ℚ) : 0 ≤ rounded q :=
  mul_nonneg (Nat.cast_nonneg _) (two_zpow_pos _).le

@[simp] theorem rounded_zero : rounded 0 = 0 := by
  rw [rounded, zero_div, ← Nat.cast_zero, roundEven_natCast, Nat.cast_zero, zero_mul]

/-- A multiple of some unit that has no more than 53 digits is not rounded. -/
theorem rounded_eq_self {m : ℕ} (hm : m < 2 ^ 53) {e : ℤ} (he : -1074 ≤ e) :
    rounded (m * 2 ^ e) = m * 2 ^ e := by
  rcases Nat.eq_zero_or_pos m with rfl | hpos
  · simp
  have hlog : Int.log 2 ((m : ℚ) * 2 ^ e) < 53 + e := by
    have hmq : (m : ℚ) < 2 ^ 53 := by exact_mod_cast hm
    rw [log_lt_iff (mul_two_zpow_pos hpos e)]
    calc
      (m : ℚ) * 2 ^ e < 2 ^ 53 * 2 ^ e := mul_lt_mul_of_pos_right hmq (two_zpow_pos e)
      _ = 2 ^ (53 + e) := (zpow_add₀ (by norm_num) 53 e).symm
  have hunit : ulpExponent (m * 2 ^ e) ≤ e := by
    rw [ulpExponent]
    omega
  -- The number is a multiple of its own unit too.
  have hwhole : (m : ℚ) * 2 ^ e / 2 ^ ulpExponent (m * 2 ^ e) =
      (m * 2 ^ (e - ulpExponent (m * 2 ^ e)).toNat : ℕ) := by
    rw [mul_div_assoc, ← zpow_sub₀ (by norm_num), Nat.cast_mul, Nat.cast_pow, Nat.cast_ofNat,
      ← zpow_natCast, Int.toNat_of_nonneg (sub_nonneg.mpr hunit)]
  rw [rounded, hwhole, roundEven_natCast, ← hwhole, div_mul_cancel₀ _ (two_zpow_pos _).ne']

theorem rounded_natCast {m : ℕ} (hm : m < 2 ^ 53) : rounded m = m := by
  have hself := rounded_eq_self hm (e := 0) (by decide)
  rwa [zpow_zero, mul_one] at hself

/-- Powers of two are not crossed. -/
theorem two_zpow_le_rounded {q : ℚ} {k : ℤ} (hk : -1074 ≤ k) (h : 2 ^ k ≤ q) :
    2 ^ k ≤ rounded q := by
  have hq : 0 < q := (two_zpow_pos k).trans_le h
  set t := ulpExponent q with ht
  rcases le_or_gt t k with hle | hlt
  · have hwhole : (2 : ℚ) ^ k = (2 ^ (k - t).toNat : ℕ) * 2 ^ t := by
      rw [Nat.cast_pow, Nat.cast_ofNat, ← zpow_natCast, Int.toNat_of_nonneg (sub_nonneg.mpr hle),
        ← zpow_add₀ (by norm_num), sub_add_cancel]
    rw [rounded, hwhole]
    apply mul_le_mul_of_nonneg_right _ (two_zpow_pos t).le
    rw [Nat.cast_le]
    apply le_roundEven
    rw [le_div_iff₀ (two_zpow_pos t), ← hwhole]
    exact h
  · have hone : 1 ≤ roundEven (q / 2 ^ t) := by
      apply le_roundEven
      have hdigits := le_div_ulp hq (by omega : ulpExponent q ≠ -1074)
      rw [← ht] at hdigits
      exact (by norm_num : ((1 : ℕ) : ℚ) ≤ 2 ^ 52).trans hdigits
    calc
      (2 : ℚ) ^ k ≤ 2 ^ t := zpow_le_zpow_right₀ (by norm_num) hlt.le
      _ ≤ roundEven (q / 2 ^ t) * 2 ^ t :=
        le_mul_of_one_le_left (two_zpow_pos t).le (by exact_mod_cast hone)

theorem rounded_le_two_zpow {q : ℚ} (hq : 0 ≤ q) {k : ℤ} (hk : -1074 ≤ k) (h : q ≤ 2 ^ k) :
    rounded q ≤ 2 ^ k := by
  rcases hq.eq_or_lt with rfl | hpos
  · rw [rounded_zero]
    exact (two_zpow_pos k).le
  have hunit : ulpExponent q ≤ k := by
    have hlog : Int.log 2 q < k + 1 :=
      (log_lt_iff hpos).mpr (h.trans_lt (zpow_lt_zpow_right₀ (by norm_num) (lt_add_one k)))
    rw [ulpExponent]
    omega
  have hwhole : (2 : ℚ) ^ k = (2 ^ (k - ulpExponent q).toNat : ℕ) * 2 ^ ulpExponent q := by
    rw [Nat.cast_pow, Nat.cast_ofNat, ← zpow_natCast, Int.toNat_of_nonneg (sub_nonneg.mpr hunit),
      ← zpow_add₀ (by norm_num), sub_add_cancel]
  have hmost : roundEven (q / 2 ^ ulpExponent q) ≤ 2 ^ (k - ulpExponent q).toNat := by
    apply roundEven_le (div_nonneg hq (two_zpow_pos _).le)
    rw [div_le_iff₀ (two_zpow_pos _), ← hwhole]
    exact h
  rw [rounded, hwhole]
  exact mul_le_mul_of_nonneg_right (Nat.cast_le.mpr hmost) (two_zpow_pos _).le

/-- What is less than half of the least number is rounded to zero. -/
theorem rounded_of_small {q : ℚ} (hq : 0 ≤ q) (h : q < 2 ^ (-1075 : ℤ)) : rounded q = 0 := by
  rcases hq.eq_or_lt with rfl | hpos
  · exact rounded_zero
  have hlog : Int.log 2 q < -1075 := (log_lt_iff hpos).mpr h
  have hunit : ulpExponent q = -1074 := by
    rw [ulpExponent]
    omega
  have hless : q / 2 ^ (-1074 : ℤ) < 1 / 2 := by
    rw [div_lt_iff₀ (two_zpow_pos _)]
    refine h.trans_eq ?_
    rw [one_div, ← zpow_neg_one, ← zpow_add₀ (by norm_num)]
    norm_num
  rw [rounded, hunit, roundEven_eq_zero hless, Nat.cast_zero, zero_mul]

/-- Rounding moves a number by half a unit in its last place. -/
theorem abs_rounded_sub_le_ulp {q : ℚ} (hq : 0 ≤ q) :
    |rounded q - q| ≤ 2 ^ (-1 : ℤ) * 2 ^ ulpExponent q := by
  have hdiff : rounded q - q =
      (roundEven (q / 2 ^ ulpExponent q) - q / 2 ^ ulpExponent q) * 2 ^ ulpExponent q := by
    rw [sub_mul, div_mul_cancel₀ _ (two_zpow_pos _).ne']
    rfl
  rw [hdiff, abs_mul, abs_of_pos (two_zpow_pos _)]
  apply mul_le_mul_of_nonneg_right _ (two_zpow_pos _).le
  calc
    |(roundEven (q / 2 ^ ulpExponent q) : ℚ) - q / 2 ^ ulpExponent q| ≤ 1 / 2 :=
      abs_roundEven_sub_le (div_nonneg hq (two_zpow_pos _).le)
    _ = 2 ^ (-1 : ℤ) := by norm_num

/-- The unit of a normal number is a fraction of it. -/
theorem half_ulp_le {q : ℚ} (hq : 0 < q) (h : -1022 ≤ Int.log 2 q) :
    2 ^ (-1 : ℤ) * 2 ^ ulpExponent q ≤ 2 ^ (-53 : ℤ) * q := by
  have hunit : ulpExponent q = Int.log 2 q - 52 := by
    rw [ulpExponent]
    omega
  calc
    (2 : ℚ) ^ (-1 : ℤ) * 2 ^ ulpExponent q = 2 ^ (-53 : ℤ) * 2 ^ Int.log 2 q := by
      rw [hunit, ← zpow_add₀ (by norm_num), ← zpow_add₀ (by norm_num)]
      congr 1
      ring
    _ ≤ 2 ^ (-53 : ℤ) * q := mul_le_mul_of_nonneg_left (two_zpow_log_le hq) (two_zpow_pos _).le

theorem abs_rounded_sub_le_of_normal {q : ℚ} (h : 2 ^ (-1022 : ℤ) ≤ q) :
    |rounded q - q| ≤ 2 ^ (-53 : ℤ) * q := by
  have hpos : 0 < q := (two_zpow_pos _).trans_le h
  refine (abs_rounded_sub_le_ulp hpos.le).trans (half_ulp_le hpos ?_)
  exact (Int.zpow_le_iff_le_log (b := 2) (by decide) hpos).mp (by exact_mod_cast h)

theorem abs_rounded_sub_le {q : ℚ} (hq : 0 ≤ q) :
    |rounded q - q| ≤ 2 ^ (-53 : ℤ) * q + 2 ^ (-1075 : ℤ) := by
  have hfraction := mul_nonneg (two_zpow_pos (-53)).le hq
  rcases hq.eq_or_lt with rfl | hpos
  · rw [rounded_zero, sub_zero, abs_zero, mul_zero, zero_add]
    exact (two_zpow_pos _).le
  rcases le_or_gt (-1022) (Int.log 2 q) with hlog | hlog
  · have hhalf := (abs_rounded_sub_le_ulp hq).trans (half_ulp_le hpos hlog)
    exact hhalf.trans (le_add_of_nonneg_right (two_zpow_pos _).le)
  · have hsplit : (2 : ℚ) ^ (-1 : ℤ) * 2 ^ ulpExponent q = 2 ^ (-1075 : ℤ) := by
      have hunit : ulpExponent q = -1074 := by
        rw [ulpExponent]
        omega
      rw [hunit, ← zpow_add₀ (by norm_num)]
      norm_num
    have hhalf := abs_rounded_sub_le_ulp hq
    rw [hsplit] at hhalf
    exact hhalf.trans (le_add_of_nonneg_left hfraction)

end Binary64
end QueryBench
