import Mathlib
import QueryBench.Scalar

/-!
# Sums of positive numbers

A positive number stays positive when a number that is not negative is added to it.  This
holds of binary64 numbers too, although they are rounded: a sum that is not zero never
rounds to zero, since the least binary64 number divides all of them.
-/

namespace QueryBench

open Float.Model (Format totalExponent UnpackedFloat)
open Float.Model.UnpackedFloat

/-- Arithmetic in which sums of positive numbers are positive. -/
class Scalar.PositiveSums (α : Type) [Scalar α] : Prop where
  not_neg_of_pos {a : α} (ha : 0 < a) : ¬ a < 0
  pos_zero_add {a : α} (ha : 0 < a) : ¬ 0 + a ≤ 0
  pos_add {a b : α} (ha : ¬ a ≤ 0) (hb : ¬ b < 0) : ¬ a + b ≤ 0

namespace Binary64

/-! ## Rounding -/

theorem targetExponent_eq (t : Int) : Format.binary64.targetExponent t = max (t - 53) (-1074) := by
  rfl

theorem mantissa_shiftRight (k : Nat) (em : ExtendedMantissa) :
    (em >>> k).mantissa = em.mantissa / 2 ^ k := by
  induction k with
  | zero => simp [HShiftRight.hShiftRight, Nat.repeat]
  | succ k ih =>
      change (ExtendedMantissa.shiftRightOne (em >>> k)).mantissa = _
      rw [ExtendedMantissa.shiftRightOne, ih, Nat.div_div_eq_div_mul, Nat.pow_succ]

theorem mantissa_ofMantissaAndAccuracy (m : Nat) (a : Accuracy) :
    (ExtendedMantissa.ofMantissaAndAccuracy m a).mantissa = m := by
  cases a with
  | exact => rfl
  | inexact o => cases o <;> rfl

theorem le_roundToNearestEven (m : Nat) (a : Accuracy) : m ≤ a.roundToNearestEven m := by
  cases a with
  | exact => exact Nat.le_refl m
  | inexact o =>
      cases o with
      | lt => exact Nat.le_refl m
      | eq => exact Nat.le_add_right m _
      | gt => exact Nat.le_succ m

/-- A mantissa that is moved to the exponent of its format keeps its first digit, and has no
more digits than fit. -/
theorem bounds_of_shiftToTargetExponent {m : Nat} (hm : 0 < m) {e : Int} (he : -1074 ≤ e)
    {a : Accuracy} {em : ExtendedMantissa} {e' : Int}
    (h : shiftToTargetExponent Format.binary64 m e a = (em, e')) :
    0 < em.mantissa ∧ em.mantissa < 2 ^ 53 ∧ -1074 ≤ e' := by
  obtain ⟨rfl, rfl⟩ := Prod.mk.inj h
  rw [mantissa_shiftRight, mantissa_ofMantissaAndAccuracy, targetExponent_eq, totalExponent]
  have hshift : (max ((m.log2 : Int) + 1 + e - 53) (-1074) - e).toNat = m.log2 - 52 := by omega
  have hlow : 2 ^ m.log2 ≤ m := Nat.log2_self_le (Nat.ne_of_gt hm)
  have hhigh : m < 2 ^ (m.log2 + 1) := Nat.lt_log2_self
  rw [hshift]
  refine ⟨?_, ?_, by omega⟩
  · apply Nat.div_pos ?_ (Nat.two_pow_pos _)
    exact (Nat.pow_le_pow_right (by decide) (Nat.sub_le _ _)).trans hlow
  · rw [Nat.div_lt_iff_lt_mul (Nat.two_pow_pos _), ← Nat.pow_add]
    exact hhigh.trans_le (Nat.pow_le_pow_right (by decide) (by omega))

/-- A number that is positive, infinite or undefined. -/
inductive Positive : UnpackedFloat → Prop
  | notANumber : Positive .notANumber
  | infinity : Positive (.infinity .positive)
  | finite {m : Nat} {e : Int} (hpos : 0 < m) (hm : m < 2 ^ 53) (he : -1074 ≤ e) :
      Positive (.finite .positive m e hpos)

theorem positive_roundWithAccuracy {m : Nat} (hm : 0 < m) {e : Int} (he : -1074 ≤ e)
    (a : Accuracy) : Positive (roundWithAccuracy Format.binary64 .positive m e a) := by
  rw [roundWithAccuracy]
  cases hfirst : shiftToTargetExponent Format.binary64 m e a with
  | mk em e₁ =>
      obtain ⟨hem, -, he₁⟩ := bounds_of_shiftToTargetExponent hm he hfirst
      -- Rounding up may give a digit too many, so the mantissa is moved once more.
      have hrounded : 0 < em.roundedMantissa := hem.trans_le (le_roundToNearestEven _ _)
      dsimp only
      cases hsecond : shiftToTargetExponent Format.binary64 em.roundedMantissa e₁ .exact with
      | mk em' e₂ =>
          obtain ⟨hlow, hhigh, he₂⟩ := bounds_of_shiftToTargetExponent hrounded he₁ hsecond
          rw [dif_neg (Nat.ne_of_gt hlow)]
          exact .finite hlow hhigh he₂

theorem positive_round {m : Nat} (hm : 0 < m) {e : Int} (he : -1074 ≤ e) :
    Positive (round Format.binary64 .positive m e) := by
  apply positive_roundWithAccuracy
  · rw [Nat.shiftLeft_eq]
    exact Nat.mul_pos hm (Nat.two_pow_pos _)
  · rw [targetExponent_eq]
    omega

/-! ## Encoding -/

theorem sign_unpack_packComponents (sign : Sign) (e : BitVec 11) (m : BitVec 52) :
    Sign.ofBitVec (unpackSign (packComponents Format.binary64 sign e m)) = sign := by
  simp only [unpackSign, packComponents, BitVec.extractLsb]
  rw [BitVec.extractLsb'_append_eq_of_le (by decide),
    BitVec.extractLsb'_append_eq_of_le (by decide)]
  cases sign <;> rfl

/-- What the bits of a number stand for. -/
theorem unpack_cases (b : BitVec Format.binary64.numBits) :
    unpack Format.binary64 b = .notANumber ∨
      unpack Format.binary64 b = .infinity (Sign.ofBitVec (unpackSign b)) ∨
      (unpack Format.binary64 b = .zero (Sign.ofBitVec (unpackSign b)) ∧
        unpackExponent b = 0 ∧ unpackMantissa b = 0) ∨
      ∃ m e hpos, unpack Format.binary64 b = .finite (Sign.ofBitVec (unpackSign b)) m e hpos ∧
        m < 2 ^ 53 ∧ -1074 ≤ e := by
  have hbias : (Format.binary64.exponentBias : Int) = 1023 := rfl
  rw [unpack]
  dsimp only
  split
  · split
    · exact .inr (.inl rfl)
    · exact .inl rfl
  · split
    · rename_i hexponent
      split
      · rename_i hmantissa
        exact .inr (.inr (.inl ⟨rfl, hexponent, hmantissa⟩))
      · have hlt : (unpackMantissa b).toNat < 2 ^ 52 := (unpackMantissa b).isLt
        have hpos : 0 < (unpackMantissa b).toNat := by
          rename_i hmantissa
          exact Nat.pos_of_ne_zero fun hzero ↦
            hmantissa (BitVec.toNat_inj.mp (by simpa using hzero))
        refine .inr (.inr (.inr ⟨_, _, hpos, rfl, ?_, ?_⟩)) <;> omega
    · rename_i hexponent
      have hlt : (1#1 ++ unpackMantissa b).toNat < 2 ^ 53 := (1#1 ++ unpackMantissa b).isLt
      have hne : (unpackExponent b).toNat ≠ 0 := by
        intro hzero
        exact hexponent (BitVec.toNat_inj.mp (by simpa using hzero))
      have hpos : 0 < (1#1 ++ unpackMantissa b).toNat := by
        rw [BitVec.toNat_append]
        exact Nat.lt_of_lt_of_le (by decide) Nat.left_le_or
      refine .inr (.inr (.inr ⟨_, _, hpos, rfl, hlt, ?_⟩))
      omega

theorem bounds_of_unpack {x : Float} {sign : Sign} {m : Nat} {e : Int} {hpos : 0 < m}
    (h : x.toModel.unpack = .finite sign m e hpos) : m < 2 ^ 53 ∧ -1074 ≤ e := by
  rcases unpack_cases x.toModel.toBits.toBitVec with hu | hu | ⟨hu, -, -⟩ | ⟨m', e', _, hu, hbounds⟩
  · cases h.symm.trans hu
  · cases h.symm.trans hu
  · cases h.symm.trans hu
  · cases h.symm.trans hu
    exact hbounds

theorem positive_unpack_packComponents {e : BitVec 11} {m : BitVec 52} (h : e ≠ 0 ∨ m ≠ 0) :
    Positive (unpack Format.binary64 (packComponents Format.binary64 .positive e m)) := by
  have hcases := unpack_cases (packComponents Format.binary64 .positive e m)
  rw [sign_unpack_packComponents, unpackExponent_packComponents,
    unpackMantissa_packComponents] at hcases
  rcases hcases with hu | hu | ⟨-, he, hm⟩ | ⟨m', e', hpos, hu, hm', he'⟩
  · exact hu ▸ .notANumber
  · exact hu ▸ .infinity
  · exact absurd h (by simp [he, hm])
  · exact hu ▸ .finite hpos hm' he'

theorem positive_unpack_pack {u : UnpackedFloat} (h : Positive u) :
    Positive (unpack Format.binary64 (pack Format.binary64 u)) := by
  cases h with
  | notANumber => exact .notANumber
  | infinity => exact .infinity
  | @finite m e hpos hm he =>
      have hbias : (Format.binary64.exponentBias : Int) = 1023 := rfl
      have hbits : Format.binary64.mantissaBits = 53 := rfl
      rw [pack]
      dsimp only
      split
      · exact .infinity
      · rename_i hsmall
        split
        · apply positive_unpack_packComponents
          left
          intro hzero
          have hnat := congrArg BitVec.toNat hzero
          rw [BitVec.toNat_ofNat, hbias] at hnat
          change _ % 2 ^ 11 = 0 at hnat
          rw [hbias] at hsmall
          omega
        · rename_i hlog
          apply positive_unpack_packComponents
          right
          intro hzero
          have hlt : m < 2 ^ 52 := by
            apply (Nat.log2_lt (Nat.ne_of_gt hpos)).mp
            have := (Nat.log2_lt (Nat.ne_of_gt hpos)).mpr hm
            omega
          have hnat := congrArg BitVec.toNat hzero
          rw [BitVec.toNat_ofNat, Nat.mod_eq_of_lt hlt] at hnat
          exact absurd hnat (Nat.ne_of_gt hpos)

/-! ## Sums -/

/-- A number that is not negative. -/
inductive NotNegative : UnpackedFloat → Prop
  | zero (sign : Sign) : NotNegative (.zero sign)
  | positive {u : UnpackedFloat} (h : Positive u) : NotNegative u

theorem positive_normalize {m : Int} (hm : 0 < m) {e : Int} (he : -1074 ≤ e) (sign : Sign) :
    Positive (UnpackedFloat.normalize Format.binary64 m e sign) := by
  rw [UnpackedFloat.normalize, Int.compare_eq_gt.mpr hm]
  exact positive_round (by omega) he

theorem positive_add {u v : UnpackedFloat} (hu : Positive u) (hv : NotNegative v) :
    Positive (UnpackedFloat.add Format.binary64 u v) := by
  cases hu with
  | notANumber => exact .notANumber
  | infinity =>
      cases hv with
      | zero => exact .infinity
      | positive hv =>
          cases hv with
          | notANumber => exact .notANumber
          | infinity => exact .infinity
          | finite => exact .infinity
  | @finite m e hpos hm he =>
      cases hv with
      | zero => exact .finite hpos hm he
      | positive hv =>
          cases hv with
          | notANumber => exact .notANumber
          | infinity => exact .infinity
          | @finite m' e' hpos' hm' he' =>
              have hshifted : ∀ {n : Nat} (k : Nat), 0 < n → 0 < n <<< k := by
                intro n k hn
                rw [Nat.shiftLeft_eq]
                exact Nat.mul_pos hn (Nat.two_pow_pos k)
              apply positive_normalize
              · have h₁ := hshifted (e - min e e').toNat hpos
                have h₂ := hshifted (e' - min e e').toNat hpos'
                simp only [Sign.apply]
                omega
              · exact le_min he he'

theorem positive_zero_add {u : UnpackedFloat} (h : Positive u) (sign : Sign) :
    Positive (UnpackedFloat.add Format.binary64 (.zero sign) u) := by
  cases h with
  | notANumber => exact .notANumber
  | infinity => exact .infinity
  | finite hpos hm he => exact .finite hpos hm he

/-- How a number compares with zero is read off its kind and its sign. -/
theorem sign_cases (x : Float) :
    (Positive x.toModel.unpack ∧ ¬ x < 0 ∧ ¬ x ≤ 0) ∨
      ((∃ sign, x.toModel.unpack = .zero sign) ∧ ¬ x < 0 ∧ x ≤ 0 ∧ ¬ 0 < x) ∨
        (¬ NotNegative x.toModel.unpack ∧ x < 0 ∧ x ≤ 0 ∧ ¬ 0 < x) := by
  have hlt : x < 0 ↔ UnpackedFloat.lt x.toModel.unpack (.zero .positive) = true :=
    decide_eq_true_iff
  have hle : x ≤ 0 ↔ UnpackedFloat.le x.toModel.unpack (.zero .positive) = true :=
    decide_eq_true_iff
  have hgt : 0 < x ↔ UnpackedFloat.lt (.zero .positive) x.toModel.unpack = true :=
    decide_eq_true_iff
  rw [hlt, hle, hgt]
  cases hx : x.toModel.unpack with
  | notANumber => exact .inl ⟨.notANumber, Bool.false_ne_true, Bool.false_ne_true⟩
  | infinity sign =>
      cases sign with
      | positive => exact .inl ⟨.infinity, Bool.false_ne_true, Bool.false_ne_true⟩
      | negative => exact .inr (.inr ⟨(fun | .positive h => nomatch h), rfl, rfl, Bool.false_ne_true⟩)
  | zero sign =>
      cases sign <;>
        exact .inr (.inl ⟨⟨_, rfl⟩, Bool.false_ne_true, rfl, Bool.false_ne_true⟩)
  | finite sign m e hpos =>
      obtain ⟨hm, he⟩ := bounds_of_unpack hx
      cases sign with
      | positive => exact .inl ⟨.finite hpos hm he, Bool.false_ne_true, Bool.false_ne_true⟩
      | negative => exact .inr (.inr ⟨(fun | .positive h => nomatch h), rfl, rfl, Bool.false_ne_true⟩)

theorem positive_unpack_iff {x : Float} : Positive x.toModel.unpack ↔ ¬ x ≤ 0 := by
  rcases sign_cases x with ⟨h, -, hle⟩ | ⟨⟨sign, hzero⟩, -, hle, -⟩ | ⟨h, -, hle, -⟩
  · exact iff_of_true h hle
  · rw [hzero]
    exact iff_of_false nofun (not_not_intro hle)
  · exact iff_of_false (fun hpos ↦ h (.positive hpos)) (not_not_intro hle)

theorem notNegative_unpack_iff {x : Float} : NotNegative x.toModel.unpack ↔ ¬ x < 0 := by
  rcases sign_cases x with ⟨h, hlt, -⟩ | ⟨⟨sign, hzero⟩, hlt, -, -⟩ | ⟨h, hlt, -, -⟩
  · exact iff_of_true (.positive h) hlt
  · rw [hzero]
    exact iff_of_true (.zero sign) hlt
  · exact iff_of_false h (not_not_intro hlt)

theorem not_le_of_lt {x : Float} (h : 0 < x) : ¬ x ≤ 0 := by
  rcases sign_cases x with ⟨-, -, hle⟩ | ⟨-, -, -, hgt⟩ | ⟨-, -, -, hgt⟩
  · exact hle
  · exact absurd h hgt
  · exact absurd h hgt

end Binary64

instance : Scalar.PositiveSums Float where
  not_neg_of_pos ha := by
    rw [← Binary64.notNegative_unpack_iff]
    exact .positive (Binary64.positive_unpack_iff.mpr (Binary64.not_le_of_lt ha))
  pos_zero_add ha := by
    rw [← Binary64.positive_unpack_iff]
    have hpos := Binary64.positive_unpack_iff.mpr (Binary64.not_le_of_lt ha)
    exact Binary64.positive_unpack_pack (Binary64.positive_zero_add hpos .positive)
  pos_add {a b} ha hb := by
    rw [← Binary64.positive_unpack_iff] at ha ⊢
    rw [← Binary64.notNegative_unpack_iff] at hb
    exact Binary64.positive_unpack_pack (Binary64.positive_add ha hb)

instance : Scalar.PositiveSums Rat where
  not_neg_of_pos ha := not_lt_of_gt ha
  pos_zero_add {a} ha := by
    have hsum : (0 : Rat) + a = a := zero_add a
    exact not_le_of_gt (hsum.symm ▸ ha)
  pos_add ha hb := not_le_of_gt (add_pos_of_pos_of_nonneg (not_le.mp ha) (not_lt.mp hb))

end QueryBench
