import QueryBench.Proofs.Arithmetic.Rounding

/-!
# The range of binary64

Rounding takes a number out of the range of binary64 from half a unit below `2 ^ 1024` on, and
makes a number zero up to half of the least one.  At both ends the number halfway goes to the
even neighbour, which is `2 ^ 1024` at the upper end and zero at the lower one.
-/

namespace QueryBench
namespace Binary64

/-- A number is rounded to `n` or more if it is above the middle below `n`, or is this middle and
`n` is the even neighbour. -/
theorem le_roundEven_iff {q : ℚ} {n : ℕ} (hq : 0 ≤ q) :
    n ≤ roundEven q ↔ (n : ℚ) - 1 / 2 < q ∨ Even n ∧ (n : ℚ) - 1 / 2 = q := by
  have hlow := Nat.floor_le hq
  have hhigh := Nat.lt_floor_add_one q
  rw [Nat.even_iff]
  unfold roundEven
  generalize ⌊q⌋₊ = k at hlow hhigh ⊢
  constructor
  · intro h
    split_ifs at h with hlt heq
    · have hnk : (n : ℚ) ≤ k := by exact_mod_cast h
      exact .inl (by linarith)
    · rcases le_or_gt n k with hle | hgt
      · have hnk : (n : ℚ) ≤ k := by exact_mod_cast hle
        exact .inl (by linarith)
      · have hnk : (n : ℚ) = k + 1 := by exact_mod_cast (by omega : n = k + 1)
        exact .inr ⟨by omega, by linarith⟩
    · have hnk : (n : ℚ) ≤ k + 1 := by exact_mod_cast h
      have hne := lt_of_le_of_ne (not_lt.mp hlt) (Ne.symm heq)
      exact .inl (by linarith)
  · intro h
    have hle : (n : ℚ) - 1 / 2 ≤ q := h.elim le_of_lt fun h ↦ h.2.le
    have hnk : n ≤ k + 1 := by
      have hcast : (n : ℚ) < (k + 2 : ℕ) := by
        push_cast
        linarith
      have hless := Nat.cast_lt.mp hcast
      omega
    rcases hnk.eq_or_lt with rfl | hless
    · push_cast at h hle
      rw [if_neg (by linarith)]
      split_ifs with heq
      · -- This is the middle, so `k + 1` is even and `k` is odd.
        rcases h with h | ⟨heven, -⟩
        · linarith
        · omega
      · exact le_rfl
    · split_ifs <;> omega

/-- A number is rounded up to a power of two from half a unit in the last place below it on. -/
theorem rounded_lt_two_zpow_iff {q : ℚ} (hq : 0 ≤ q) {k : ℤ} (hk : -1021 ≤ k) :
    rounded q < 2 ^ k ↔ q < 2 ^ k - 2 ^ (k - 54) := by
  have hunits : (2 : ℚ) ^ k = 2 ^ 53 * 2 ^ (k - 53) := by
    rw [← zpow_natCast, ← zpow_add₀ (by norm_num)]
    congr 1
    omega
  have hbelow : (2 : ℚ) ^ k - 2 ^ (k - 54) = (2 ^ 53 - 1 / 2) * 2 ^ (k - 53) := by
    have hhalf : (2 : ℚ) ^ (k - 54) = 1 / 2 * 2 ^ (k - 53) := by
      rw [one_div, ← zpow_neg_one, ← zpow_add₀ (by norm_num)]
      congr 1
      omega
    rw [hunits, hhalf, ← sub_mul]
  rcases lt_or_ge q (2 ^ (k - 1)) with hlow | hlow
  · have hhalf : (2 : ℚ) ^ (k - 1) = 2 ^ 52 * 2 ^ (k - 53) := by
      rw [← zpow_natCast, ← zpow_add₀ (by norm_num)]
      congr 1
      omega
    refine iff_of_true ?_ ?_
    · exact (rounded_le_two_zpow hq (by omega) hlow.le).trans_lt
        (zpow_lt_zpow_right₀ (by norm_num) (sub_one_lt k))
    · rw [hhalf] at hlow
      exact hbelow ▸ hlow.trans (mul_lt_mul_of_pos_right (by norm_num) (two_zpow_pos _))
  rcases lt_or_ge q (2 ^ k) with hhigh | hhigh
  · have hunit : ulpExponent q = k - 53 := by
      rw [ulpExponent, log_eq hlow (by rwa [sub_add_cancel])]
      omega
    have heven : (2 ^ 53 : ℕ) ≤ roundEven (q / 2 ^ (k - 53)) ↔
        (2 : ℚ) ^ 53 - 1 / 2 ≤ q / 2 ^ (k - 53) := by
      rw [le_roundEven_iff (div_nonneg hq (two_zpow_pos _).le), le_iff_lt_or_eq]
      norm_num
    rw [rounded, hunit, hbelow, hunits, mul_lt_mul_iff_left₀ (two_zpow_pos _),
      ← div_lt_iff₀ (two_zpow_pos _), ← not_le, ← not_le, not_iff_not]
    exact_mod_cast heven
  · refine iff_of_false (not_lt.mpr (two_zpow_le_rounded (by omega) hhigh)) ?_
    exact not_lt.mpr ((sub_le_self _ (two_zpow_pos _).le).trans hhigh)

/-- From half a unit in the last place below `2 ^ 1024` on numbers are infinite. -/
def overflow : ℚ := 2 ^ (1024 : ℤ) - 2 ^ (970 : ℤ)

theorem rounded_lt_iff {q : ℚ} (hq : 0 ≤ q) : rounded q < 2 ^ (1024 : ℤ) ↔ q < overflow :=
  rounded_lt_two_zpow_iff hq (by norm_num)

theorem rounded_eq_zero_iff {q : ℚ} (hq : 0 ≤ q) : rounded q = 0 ↔ q ≤ 2 ^ (-1075 : ℤ) := by
  have hdiv := div_nonneg hq (two_zpow_pos (ulpExponent q)).le
  have hone : rounded q = 0 ↔ ¬ 1 ≤ roundEven (q / 2 ^ ulpExponent q) := by
    rw [rounded, mul_eq_zero_iff_right (two_zpow_pos _).ne', Nat.cast_eq_zero]
    omega
  have hodd : 1 ≤ roundEven (q / 2 ^ ulpExponent q) ↔ 1 / 2 < q / 2 ^ ulpExponent q := by
    rw [le_roundEven_iff hdiv]
    norm_num
  rw [hone, hodd, not_lt, div_le_iff₀ (two_zpow_pos _)]
  rcases eq_or_ne (ulpExponent q) (-1074) with hunit | hunit
  · have hhalf : (1 / 2 : ℚ) * 2 ^ (-1074 : ℤ) = 2 ^ (-1075 : ℤ) := by
      rw [one_div, ← zpow_neg_one, ← zpow_add₀ (by norm_num)]
      norm_num
    rw [hunit, hhalf]
  · rcases hq.eq_or_lt with rfl | hpos
    · exact iff_of_true (by positivity) (by positivity)
    -- A number of 53 digits is not close to zero.
    have hdigits := (le_div_iff₀ (two_zpow_pos _)).mp (le_div_ulp hpos hunit)
    have hleast : (2 : ℚ) ^ (-1074 : ℤ) ≤ 2 ^ ulpExponent q :=
      zpow_le_zpow_right₀ (by norm_num) (min_le_ulpExponent q)
    have hless : (2 : ℚ) ^ (-1075 : ℤ) < 2 ^ (-1074 : ℤ) :=
      zpow_lt_zpow_right₀ (by norm_num) (by norm_num)
    refine iff_of_false (not_le.mpr ?_) (not_le.mpr ?_)
    · norm_num
      linarith [two_zpow_pos (ulpExponent q)]
    · linarith

end Binary64
end QueryBench
