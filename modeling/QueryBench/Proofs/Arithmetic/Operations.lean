import QueryBench.Proofs.Arithmetic.PositiveSums
import QueryBench.Proofs.Arithmetic.Rounding

/-!
# Rounded results of binary64 operations

A mantissa whose last digits are cut off keeps two bits of them: the first one, and whether
any other is set.  That is enough to round it, so what the operations on binary64 numbers
give are the exact results rounded once.
-/

namespace QueryBench
namespace Binary64

open Float.Model (Format totalExponent UnpackedFloat)
open Float.Model.UnpackedFloat

/-! ## Cut mantissas -/

/-- The value of the bit behind the last place. -/
def half (roundBit : Bool) : ℚ := if roundBit then 1 / 2 else 0

@[simp] theorem half_true : half true = 1 / 2 := rfl

@[simp] theorem half_false : half false = 0 := rfl

theorem half_nonneg (roundBit : Bool) : 0 ≤ half roundBit := by
  cases roundBit <;> simp

theorem half_le (roundBit : Bool) : half roundBit ≤ 1 / 2 := by
  cases roundBit <;> simp

/-- A mantissa and the two bits behind it stand for a number: they are all of it exactly if no
other bit is set. -/
structure Represents (em : ExtendedMantissa) (q : ℚ) : Prop where
  le : em.mantissa + half em.roundBit ≤ q
  lt : q < em.mantissa + half em.roundBit + 1 / 2
  sticky : em.stickyBit = false ↔ q = em.mantissa + half em.roundBit

namespace Represents

theorem exact (m : ℕ) : Represents (.ofMantissaAndAccuracy m .exact) m where
  le := by simp [ExtendedMantissa.ofMantissaAndAccuracy]
  lt := by simp [ExtendedMantissa.ofMantissaAndAccuracy]
  sticky := by simp [ExtendedMantissa.ofMantissaAndAccuracy]

/-- What is left of a division tells the two bits. -/
theorem quotient (n : ℕ) {d : ℕ} (hd : 0 < d) :
    Represents (.ofMantissaAndAccuracy (n / d) (accuracyOfFraction (n % d) d)) (n / d : ℚ) := by
  have hd' : (0 : ℚ) < d := Nat.cast_pos.mpr hd
  have hsum : (n : ℚ) / d = (n / d : ℕ) + (n % d : ℕ) / d := by
    rw [eq_comm, ← eq_sub_iff_add_eq', div_eq_iff hd'.ne', sub_mul, div_mul_cancel₀ _ hd'.ne',
      eq_sub_iff_add_eq']
    exact_mod_cast Nat.div_add_mod' n d
  have hlt : ((n % d : ℕ) : ℚ) / d < 1 := by
    rw [div_lt_one hd']
    exact_mod_cast Nat.mod_lt n hd
  rw [accuracyOfFraction, hsum]
  split_ifs with hzero
  · rw [hzero, Nat.cast_zero, zero_div, add_zero]
    exact exact (n / d)
  · have hpos : (0 : ℚ) < (n % d : ℕ) / d :=
      div_pos (Nat.cast_pos.mpr (Nat.pos_of_ne_zero hzero)) hd'
    rcases lt_trichotomy (2 * (n % d)) d with h | h | h
    · have hside : ((n % d : ℕ) : ℚ) / d < 1 / 2 := by
        rw [div_lt_div_iff₀ hd' (by norm_num), one_mul]
        exact_mod_cast (by omega : n % d * 2 < d)
      rw [Nat.compare_eq_lt.mpr h]
      change Represents ⟨n / d, false, true⟩ _
      refine ⟨?_, ?_, iff_of_false Bool.noConfusion ?_⟩ <;> rw [half_false, add_zero]
      · exact le_add_of_nonneg_right hpos.le
      · exact add_lt_add_right hside _
      · exact (lt_add_of_pos_right _ hpos).ne'
    · have hside : ((n % d : ℕ) : ℚ) / d = 1 / 2 := by
        rw [div_eq_div_iff hd'.ne' (by norm_num), one_mul]
        exact_mod_cast (by omega : n % d * 2 = d)
      rw [Nat.compare_eq_eq.mpr h, hside]
      change Represents ⟨n / d, true, false⟩ _
      exact ⟨le_rfl, lt_add_of_pos_right _ (by norm_num), iff_of_true rfl rfl⟩
    · have hside : 1 / 2 < ((n % d : ℕ) : ℚ) / d := by
        rw [div_lt_div_iff₀ (by norm_num) hd', one_mul]
        exact_mod_cast (by omega : d < n % d * 2)
      rw [Nat.compare_eq_gt.mpr h]
      change Represents ⟨n / d, true, true⟩ _
      refine ⟨?_, ?_, iff_of_false Bool.noConfusion ?_⟩ <;> rw [half_true]
      · exact add_le_add_right hside.le _
      · linarith
      · exact (add_lt_add_right hside _).ne'

variable {em : ExtendedMantissa} {q : ℚ}

theorem shiftRightOne (h : Represents em q) : Represents em.shiftRightOne (q / 2) := by
  obtain ⟨m, roundBit, stickyBit⟩ := em
  obtain ⟨hle, hlt, hsticky⟩ := h
  have hm : (m : ℚ) = 2 * ((m / 2 : ℕ) + half (m % 2 != 0)) := by
    have hdiv : (m : ℚ) = 2 * (m / 2 : ℕ) + (m % 2 : ℕ) := by
      exact_mod_cast (Nat.div_add_mod m 2).symm
    rcases Nat.mod_two_eq_zero_or_one m with hparity | hparity
    · rw [hdiv, hparity]
      simp
    · rw [hdiv, hparity]
      simp [mul_add]
  dsimp only at hle hlt hsticky
  rw [hm] at hle hlt hsticky
  have hnonneg := half_nonneg roundBit
  have hhalf := half_le roundBit
  refine ⟨?_, ?_, ?_⟩
  · dsimp only [ExtendedMantissa.shiftRightOne]
    linarith
  · dsimp only [ExtendedMantissa.shiftRightOne]
    linarith
  · dsimp only [ExtendedMantissa.shiftRightOne]
    rw [Bool.or_eq_false_iff, hsticky]
    constructor
    · rintro ⟨rfl, hq⟩
      rw [half_false] at hq
      linarith
    · intro hq
      have hzero : half roundBit = 0 := by linarith
      cases roundBit with
      | false => exact ⟨rfl, by rw [hzero]; linarith⟩
      | true => norm_num at hzero

theorem shiftRight (h : Represents em q) (k : ℕ) : Represents (em >>> k) (q / 2 ^ k) := by
  induction k with
  | zero => simpa [HShiftRight.hShiftRight, Nat.repeat] using h
  | succ k ih =>
      rw [pow_succ, ← div_div]
      exact ih.shiftRightOne

theorem roundedMantissa (h : Represents em q) : em.roundedMantissa = roundEven q := by
  obtain ⟨m, roundBit, stickyBit⟩ := em
  obtain ⟨hle, hlt, hsticky⟩ := h
  dsimp only at hle hlt hsticky
  have hfloor : ⌊q⌋₊ = m := by
    have hnonneg := half_nonneg roundBit
    have hhalf := half_le roundBit
    rw [Nat.floor_eq_iff ((Nat.cast_nonneg m).trans (by linarith))]
    constructor <;> linarith
  rw [roundEven, hfloor, ExtendedMantissa.roundedMantissa]
  cases roundBit with
  | false =>
      rw [half_false, add_zero] at hlt
      rw [if_pos hlt]
      cases stickyBit <;> rfl
  | true =>
      rw [half_true] at hle hlt hsticky
      rw [if_neg (not_lt.mpr hle)]
      cases stickyBit with
      | false =>
          rw [if_pos (hsticky.mp rfl)]
          rfl
      | true =>
          rw [if_neg (fun hq ↦ Bool.noConfusion (hsticky.mpr hq))]
          rfl

end Represents

/-! ## Stored numbers -/

/-- The mantissa has 53 digits, or the exponent is the least one. -/
structure IsCanonical (m : ℕ) (e : ℤ) : Prop where
  mantissa_lt : m < 2 ^ 53
  min_le : -1074 ≤ e
  normal : e = -1074 ∨ 2 ^ 52 ≤ m

/-- A canonical number of some sign and magnitude. -/
inductive Stores : UnpackedFloat → Sign → ℚ → Prop
  | zero (s : Sign) : Stores (.zero s) s 0
  | finite (s : Sign) {m : ℕ} {e : ℤ} (hpos : 0 < m) (h : IsCanonical m e) :
      Stores (.finite s m e hpos) s (m * 2 ^ e)

theorem IsCanonical.rounded_eq {m : ℕ} {e : ℤ} (h : IsCanonical m e) :
    rounded (m * 2 ^ e) = m * 2 ^ e :=
  rounded_eq_self h.mantissa_lt h.min_le

theorem Stores.rounded_eq {u : UnpackedFloat} {s : Sign} {q : ℚ} (h : Stores u s q) :
    rounded q = q := by
  cases h with
  | zero => exact rounded_zero
  | finite _ _ h => exact h.rounded_eq

/-! ## Rounding a cut mantissa -/

theorem log_of_mantissa {m : ℕ} (hm : 0 < m) {e : ℤ} {q : ℚ} (hlow : m * 2 ^ e ≤ q)
    (hhigh : q < (m + 1) * 2 ^ e) : Int.log 2 q = m.log2 + e := by
  apply log_eq
  · rw [zpow_add₀ (by norm_num), zpow_natCast]
    refine (mul_le_mul_of_nonneg_right ?_ (two_zpow_pos e).le).trans hlow
    exact_mod_cast Nat.log2_self_le hm.ne'
  · rw [add_right_comm, zpow_add₀ (by norm_num)]
    refine hhigh.trans_le (mul_le_mul_of_nonneg_right ?_ (two_zpow_pos e).le)
    have hlt : m + 1 ≤ 2 ^ (m.log2 + 1) := Nat.lt_log2_self
    exact_mod_cast hlt

theorem log_mul_two_zpow {m : ℕ} (hm : 0 < m) (e : ℤ) :
    Int.log 2 ((m : ℚ) * 2 ^ e) = m.log2 + e :=
  log_of_mantissa hm le_rfl (mul_lt_mul_of_pos_right (lt_add_one _) (two_zpow_pos e))

/-- The exponent that a cut mantissa is moved to is that of the unit of its number. -/
theorem targetExponent_eq_ulpExponent {m : ℕ} {e : ℤ} {q : ℚ} (hq : 0 < q)
    (hlow : m * 2 ^ e ≤ q) (hhigh : q < (m + 1) * 2 ^ e) (he : e ≤ ulpExponent q) :
    Format.binary64.targetExponent (totalExponent m e) = ulpExponent q := by
  rw [targetExponent_eq, totalExponent]
  rcases Nat.eq_zero_or_pos m with rfl | hm
  · have hlog : Int.log 2 q < e := by
      rw [log_lt_iff hq]
      simpa using hhigh
    rw [ulpExponent] at he ⊢
    have hzero : ((Nat.log2 0 : ℕ) : ℤ) = 0 := rfl
    omega
  · rw [ulpExponent, log_of_mantissa hm hlow hhigh]
    congr 1
    ring

/-- A mantissa of no more than 53 digits is kept, and the one that follows loses a zero. -/
theorem shiftToTargetExponent_exact {n : ℕ} (hn : n ≤ 2 ^ 53) {e : ℤ} (he : -1074 ≤ e)
    (hnormal : e = -1074 ∨ 2 ^ 52 ≤ n) :
    IsCanonical (shiftToTargetExponent Format.binary64 n e .exact).1.mantissa
        (shiftToTargetExponent Format.binary64 n e .exact).2 ∧
      ((shiftToTargetExponent Format.binary64 n e .exact).1.mantissa : ℚ) *
        2 ^ (shiftToTargetExponent Format.binary64 n e .exact).2 = n * 2 ^ e := by
  rw [shiftToTargetExponent, shiftToExponent, mantissa_shiftRight, mantissa_ofMantissaAndAccuracy,
    targetExponent_eq, totalExponent]
  rcases hn.eq_or_lt with rfl | hlt
  · have hlog : Nat.log2 (2 ^ 53) = 53 := Nat.log2_two_pow
    have hshift : (max ((Nat.log2 (2 ^ 53) : ℤ) + 1 + e - 53) (-1074) - e).toNat = 1 := by
      rw [hlog]
      omega
    rw [hshift]
    refine ⟨⟨by decide, by push_cast; omega, .inr (by decide)⟩, ?_⟩
    rw [Nat.cast_one, zpow_add₀ (by norm_num), zpow_one]
    push_cast
    ring
  · have hlog : n.log2 < 53 := by
      rcases Nat.eq_zero_or_pos n with rfl | hpos
      · decide
      · exact (Nat.log2_lt hpos.ne').mpr hlt
    have hshift : (max ((n.log2 : ℤ) + 1 + e - 53) (-1074) - e).toNat = 0 := by omega
    rw [hshift, pow_zero, Nat.div_one, Nat.cast_zero, add_zero]
    exact ⟨⟨hlt, he, hnormal⟩, rfl⟩

theorem stores_roundWithAccuracy (s : Sign) {m : ℕ} {e : ℤ} {a : Accuracy} {q : ℚ} (hq : 0 < q)
    (h : Represents (.ofMantissaAndAccuracy m a) (q / 2 ^ e)) (he : e ≤ ulpExponent q) :
    Stores (roundWithAccuracy Format.binary64 s m e a) s (rounded q) := by
  have hle := h.le
  have hlt := h.lt
  rw [mantissa_ofMantissaAndAccuracy] at hle hlt
  have hlow : (m : ℚ) * 2 ^ e ≤ q := by
    rw [← le_div_iff₀ (two_zpow_pos e)]
    linarith [half_nonneg (ExtendedMantissa.ofMantissaAndAccuracy m a).roundBit]
  have hhigh : q < (m + 1) * 2 ^ e := by
    rw [← div_lt_iff₀ (two_zpow_pos e)]
    linarith [half_le (ExtendedMantissa.ofMantissaAndAccuracy m a).roundBit]
  have htarget := targetExponent_eq_ulpExponent hq hlow hhigh he
  set t := ulpExponent q with ht
  -- After the first move the unit is that of the number.
  have hshift : Represents (ExtendedMantissa.ofMantissaAndAccuracy m a >>> (t - e).toNat)
      (q / 2 ^ t) := by
    have hdiv : q / 2 ^ t = q / 2 ^ e / 2 ^ (t - e).toNat := by
      rw [div_div, ← zpow_natCast, ← zpow_add₀ (by norm_num), Int.toNat_of_nonneg (by omega),
        add_sub_cancel]
    rw [hdiv]
    exact h.shiftRight _
  have hplace : e + ((t - e).toNat : ℤ) = t := by omega
  set n := roundEven (q / 2 ^ t) with hn
  have hround : roundWithAccuracy Format.binary64 s m e a =
      if hzero : (shiftToTargetExponent Format.binary64 n t .exact).1.mantissa = 0 then .zero s
      else .finite s (shiftToTargetExponent Format.binary64 n t .exact).1.mantissa
        (shiftToTargetExponent Format.binary64 n t .exact).2 (Nat.pos_of_ne_zero hzero) := by
    rw [hn, ← hshift.roundedMantissa, roundWithAccuracy]
    simp only [shiftToTargetExponent, htarget, shiftToExponent, hplace]
    rfl
  have hmost : n ≤ 2 ^ 53 := by
    apply roundEven_le (div_nonneg hq.le (two_zpow_pos t).le)
    exact_mod_cast div_ulp_lt.le
  have hnormal : t = -1074 ∨ 2 ^ 52 ≤ n := by
    by_cases hmin : t = -1074
    · exact .inl hmin
    · exact .inr (le_roundEven (by exact_mod_cast le_div_ulp hq hmin))
  obtain ⟨hcanonical, hvalue⟩ :=
    shiftToTargetExponent_exact hmost (min_le_ulpExponent q) hnormal
  have hrounded : rounded q = n * 2 ^ t := rfl
  rw [hround, hrounded, ← hvalue]
  split_ifs with hzero
  · rw [hzero, Nat.cast_zero, zero_mul]
    exact .zero s
  · exact .finite s (Nat.pos_of_ne_zero hzero) hcanonical

theorem decreaseExponent_value (m : ℕ) (e t : ℤ) :
    ((decreaseExponent m e t).1 : ℚ) * 2 ^ (decreaseExponent m e t).2 = m * 2 ^ e := by
  rw [decreaseExponent, Nat.shiftLeft_eq, Nat.cast_mul, Nat.cast_pow, Nat.cast_ofNat,
    ← zpow_natCast, mul_assoc, ← zpow_add₀ (by norm_num), add_sub_cancel]

theorem decreaseExponent_of_le {e t : ℤ} (h : t ≤ e) (m : ℕ) :
    ((decreaseExponent m e t).1 : ℚ) * 2 ^ t = m * 2 ^ e := by
  have hplace : (decreaseExponent m e t).2 = t := by
    dsimp only [decreaseExponent]
    omega
  have hvalue := decreaseExponent_value m e t
  rwa [hplace] at hvalue

theorem decreaseExponent_pos {m : ℕ} (hm : 0 < m) (e t : ℤ) : 0 < (decreaseExponent m e t).1 := by
  rw [decreaseExponent, Nat.shiftLeft_eq]
  exact Nat.mul_pos hm (Nat.two_pow_pos _)

theorem stores_round (s : Sign) {m : ℕ} (hm : 0 < m) (e : ℤ) :
    Stores (round Format.binary64 s m e) s (rounded (m * 2 ^ e)) := by
  have htarget : Format.binary64.targetExponent (totalExponent m e) = ulpExponent (m * 2 ^ e) := by
    rw [targetExponent_eq, totalExponent, ulpExponent, log_mul_two_zpow hm]
    congr 1
    ring
  rw [UnpackedFloat.round, htarget]
  have hvalue := decreaseExponent_value m e (ulpExponent (m * 2 ^ e))
  apply stores_roundWithAccuracy s (mul_two_zpow_pos hm e)
  · rw [← eq_div_iff (two_zpow_pos _).ne'] at hvalue
    change Represents _ (_ / 2 ^ (decreaseExponent m e (ulpExponent (m * 2 ^ e))).2)
    rw [← hvalue]
    exact .exact _
  · omega

theorem stores_normalize {m : ℤ} (hm : 0 < m) (e : ℤ) (s : Sign) :
    Stores (normalize Format.binary64 m e s) .positive (rounded (m * 2 ^ e)) := by
  have hcast : (m : ℚ) = (m.toNat : ℕ) := by
    exact_mod_cast (Int.toNat_of_nonneg hm.le).symm
  rw [UnpackedFloat.normalize, Int.compare_eq_gt.mpr hm, hcast]
  exact stores_round .positive (by omega) e

/-! ## Exact results, rounded -/

section Operations

variable {u v : UnpackedFloat} {s s' : Sign} {p q : ℚ}

theorem stores_neg (h : Stores u s q) : Stores u.neg (-s) q := by
  cases h with
  | zero => exact .zero _
  | finite _ hpos h => exact .finite _ hpos h

theorem stores_add (hu : Stores u .positive p) (hv : Stores v .positive q) :
    Stores (UnpackedFloat.add Format.binary64 u v) .positive (rounded (p + q)) := by
  cases hu with
  | zero =>
      rw [zero_add, hv.rounded_eq]
      cases hv with
      | zero => exact .zero _
      | finite _ hpos h => exact .finite _ hpos h
  | @finite _ m e hpos h =>
      cases hv with
      | zero =>
          rw [add_zero, h.rounded_eq]
          exact .finite _ hpos h
      | @finite _ m' e' hpos' h' =>
          rw [← decreaseExponent_of_le (min_le_left e e') m,
            ← decreaseExponent_of_le (min_le_right e e') m', ← add_mul]
          have hpos₁ := decreaseExponent_pos hpos e (min e e')
          have hsum := stores_normalize (m := ((decreaseExponent m e (min e e')).1 +
            (decreaseExponent m' e' (min e e')).1 : ℕ)) (by omega) (min e e') .positive
          push_cast at hsum
          exact hsum

theorem stores_mul (hu : Stores u s p) (hv : Stores v s' q) :
    Stores (UnpackedFloat.mul Format.binary64 u v) (s * s') (rounded (p * q)) := by
  cases hu with
  | zero =>
      rw [zero_mul, rounded_zero]
      cases hv <;> exact .zero _
  | @finite _ m e hpos h =>
      cases hv with
      | zero =>
          rw [mul_zero, rounded_zero]
          exact .zero _
      | @finite _ m' e' hpos' h' =>
          have hproduct : (m : ℚ) * 2 ^ e * (m' * 2 ^ e') = (m * m' : ℕ) * 2 ^ (e + e') := by
            rw [zpow_add₀ (by norm_num), Nat.cast_mul]
            ring
          have hpos'' : 0 < m * m' := Nat.mul_pos hpos hpos'
          rw [hproduct]
          apply stores_roundWithAccuracy _ (mul_two_zpow_pos hpos'' _)
          · rw [mul_div_cancel_right₀ _ (two_zpow_pos _).ne']
            exact .exact _
          · -- One of the factors has 53 digits, or both exponents are the least one.
            rw [ulpExponent, log_mul_two_zpow hpos'']
            have hdigits : 2 ^ 52 ≤ m * m' → 52 ≤ (m * m').log2 := (Nat.le_log2 hpos''.ne').mpr
            rcases h.normal with he | hm
            · rcases h'.normal with he' | hm'
              · omega
              · have := hdigits (hm'.trans (Nat.le_mul_of_pos_left m' hpos))
                omega
            · have := hdigits (hm.trans (Nat.le_mul_of_pos_right m hpos'))
              omega

/-- The quotient of two magnitudes, which need not be canonical. -/
theorem stores_divCore (s : Sign) {m m' : ℕ} (hm : 0 < m) (hm' : 0 < m') (e e' : ℤ) :
    Stores (roundWithAccuracy Format.binary64 s (divCore Format.binary64 m e m' e').1
      (divCore Format.binary64 m e m' e').2.1 (divCore Format.binary64 m e m' e').2.2) s
      (rounded (m * 2 ^ e / (m' * 2 ^ e'))) := by
  have hq : (0 : ℚ) < m * 2 ^ e / (m' * 2 ^ e') :=
    div_pos (mul_two_zpow_pos hm e) (mul_two_zpow_pos hm' e')
  have hq' : (m : ℚ) * 2 ^ e / (m' * 2 ^ e') = m / m' * 2 ^ (e - e') := by
    rw [zpow_sub₀ (by norm_num), mul_div_mul_comm]
  -- The quotient has no more than one digit less than the exponents say.
  have hlog : (m.log2 : ℤ) + e - (m'.log2 + e') - 1 ≤
      Int.log 2 ((m : ℚ) * 2 ^ e / (m' * 2 ^ e')) := by
    apply (Int.zpow_le_iff_le_log (b := 2) (by decide) hq).mp
    have hlow : (2 : ℚ) ^ m.log2 ≤ m := by exact_mod_cast Nat.log2_self_le hm.ne'
    have hhigh : (m' : ℚ) ≤ 2 ^ (m'.log2 + 1) := by exact_mod_cast Nat.lt_log2_self.le
    have hexponent : (m.log2 : ℤ) + e - (m'.log2 + e') - 1 =
        (m.log2 : ℤ) - ((m'.log2 + 1 : ℕ) : ℤ) + (e - e') := by
      push_cast
      ring
    rw [hq', hexponent, zpow_add₀ (by norm_num), zpow_sub₀ (by norm_num), Nat.cast_ofNat,
      zpow_natCast, zpow_natCast]
    apply mul_le_mul_of_nonneg_right _ (two_zpow_pos _).le
    exact div_le_div₀ (Nat.cast_nonneg m) hlow (Nat.cast_pos.mpr hm') hhigh
  set t := min (e - e')
    (Format.binary64.targetExponent (totalExponent m e - totalExponent m' e')) with ht
  have htarget : t ≤ ulpExponent (m * 2 ^ e / (m' * 2 ^ e')) := by
    rw [targetExponent_eq, totalExponent, totalExponent] at ht
    rw [ulpExponent]
    omega
  apply stores_roundWithAccuracy s hq
  · have hshifted : (m : ℚ) * 2 ^ e / (m' * 2 ^ e') / 2 ^ t =
        (m <<< (e - e' - t).toNat : ℕ) / m' := by
      rw [Nat.shiftLeft_eq, Nat.cast_mul, Nat.cast_pow, Nat.cast_ofNat, ← zpow_natCast,
        Int.toNat_of_nonneg (by omega), hq', mul_div_assoc, ← zpow_sub₀ (by norm_num)]
      ring
    change Represents (.ofMantissaAndAccuracy _ _) (_ / 2 ^ t)
    rw [hshifted]
    exact .quotient _ hm'
  · exact htarget

theorem stores_div (hu : Stores u s p) (hv : Stores v s' q) (hq : 0 < q) :
    Stores (UnpackedFloat.div Format.binary64 u v) (s / s') (rounded (p / q)) := by
  cases hv with
  | zero => exact absurd hq (lt_irrefl 0)
  | finite _ hpos' h' =>
      cases hu with
      | zero =>
          rw [zero_div, rounded_zero]
          exact .zero _
      | finite _ hpos h => exact stores_divCore _ hpos hpos' _ _

end Operations

end Binary64
end QueryBench
