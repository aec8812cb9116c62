import QueryBench.Decimal.Binary
import QueryBench.Proofs.Arithmetic.Operations

/-!
# Encoded binary64 numbers

A canonical number is encoded and decoded without loss, or as an infinity where it is
`2 ^ 1024` or more.  The sum, the product and the quotient of numbers are therefore the exact
ones, rounded once.
-/

namespace QueryBench
namespace Binary64

open Float.Model (Format UnpackedFloat)
open Float.Model.UnpackedFloat

/-! ## Encoding -/

theorem unpack_packComponents_subnormal (s : Sign) {m : ℕ} (hpos : 0 < m) (hm : m < 2 ^ 52) :
    unpack Format.binary64 (packComponents Format.binary64 s 0#11 (BitVec.ofNat 52 m)) =
      .finite s m (-1074) hpos := by
  have hmantissa : (BitVec.ofNat 52 m).toNat = m := by
    rw [BitVec.toNat_ofNat, Nat.mod_eq_of_lt hm]
  have hne : BitVec.ofNat 52 m ≠ 0#52 := by
    intro hzero
    rw [← BitVec.toNat_inj, hmantissa] at hzero
    exact hpos.ne' hzero
  rw [unpack]
  simp only [unpackExponent_packComponents, unpackMantissa_packComponents,
    sign_unpack_packComponents]
  rw [if_neg (by decide), if_pos trivial, dif_neg hne]
  simp only [hmantissa]
  rfl

theorem unpack_packComponents_normal (s : Sign) {m : ℕ} (hpos : 0 < m) (hlow : 2 ^ 52 ≤ m)
    (hhigh : m < 2 ^ 53) {k : ℕ} (hk : 0 < k) (hk' : k < 2047) :
    unpack Format.binary64 (packComponents Format.binary64 s (BitVec.ofNat 11 k)
      (BitVec.ofNat 52 m)) = .finite s m (k - 1075) hpos := by
  have hexponent : (BitVec.ofNat 11 k).toNat = k := by
    rw [BitVec.toNat_ofNat, Nat.mod_eq_of_lt (by omega)]
  have hmantissa : (1#1 ++ BitVec.ofNat 52 m).toNat = m := by
    rw [BitVec.toNat_append, ← Nat.shiftLeft_add_eq_or_of_lt (BitVec.isLt _), BitVec.toNat_ofNat]
    change 2 ^ 52 + m % 2 ^ 52 = m
    omega
  have hne : BitVec.ofNat 11 k ≠ -1#11 := by
    intro hones
    rw [← BitVec.toNat_inj, hexponent] at hones
    exact hk'.ne hones
  have hne' : BitVec.ofNat 11 k ≠ 0#11 := by
    intro hzero
    rw [← BitVec.toNat_inj, hexponent] at hzero
    exact hk.ne' hzero
  rw [unpack]
  simp only [unpackExponent_packComponents, unpackMantissa_packComponents,
    sign_unpack_packComponents]
  rw [if_neg hne, if_neg hne']
  simp only [hmantissa, hexponent]
  rfl

theorem unpack_pack_zero (s : Sign) :
    unpack Format.binary64 (pack Format.binary64 (.zero s)) = .zero s := by
  cases s <;> rfl

theorem unpack_pack_infinity (s : Sign) :
    unpack Format.binary64 (pack Format.binary64 (.infinity s)) = .infinity s := by
  cases s <;> rfl

/-- A canonical number is stored as it is, or as an infinity where its exponent is too large. -/
theorem unpack_pack_finite (s : Sign) {m : ℕ} {e : ℤ} (hpos : 0 < m) (h : IsCanonical m e) :
    unpack Format.binary64 (pack Format.binary64 (.finite s m e hpos)) =
      if e < 972 then .finite s m e hpos else .infinity s := by
  obtain ⟨hlt, hmin, hnormal⟩ := h
  have hbias : (e + Format.binary64.exponentBias + Format.binary64.mantissaBitsWithoutImplicit) =
      e + 1075 := by
    rw [add_assoc]
    rfl
  rw [pack]
  dsimp only
  rw [hbias]
  by_cases he : e < 972
  · rw [if_pos he, if_neg (show ¬ 2 ^ 11 ≤ (e + 1075).toNat + 1 by omega)]
    by_cases hlog : m.log2 + 1 = Format.binary64.mantissaBits
    · have hlow : 2 ^ 52 ≤ m := by
        apply (Nat.le_log2 hpos.ne').mp
        have hbits : Format.binary64.mantissaBits = 53 := rfl
        omega
      rw [if_pos hlog]
      refine (unpack_packComponents_normal s hpos hlow hlt (by omega) (by omega)).trans ?_
      congr 1
      omega
    · have hlow : m < 2 ^ 52 := by
        apply (Nat.log2_lt hpos.ne').mp
        have hbits : Format.binary64.mantissaBits = 53 := rfl
        have hlog' := (Nat.log2_lt hpos.ne').mpr hlt
        omega
      rw [if_neg hlog, hnormal.resolve_right (not_le.mpr hlow)]
      exact unpack_packComponents_subnormal s hpos hlow
  · rw [if_neg he, if_pos (show 2 ^ 11 ≤ (e + 1075).toNat + 1 by omega)]
    exact unpack_pack_infinity s

/-! ## Numbers and infinities -/

/-- The binary64 numbers are below. -/
def limit : ℚ := 2 ^ (1024 : ℤ)

theorem limit_pos : 0 < limit := two_zpow_pos 1024

/-- Counts of 64 bits are not rounded to an infinity. -/
theorem rounded_natCast_lt_limit {n : ℕ} (h : n ≤ 2 ^ 64) : rounded n < limit := by
  have hle : rounded n ≤ 2 ^ (64 : ℤ) :=
    rounded_le_two_zpow (Nat.cast_nonneg n) (by norm_num) (by exact_mod_cast h)
  exact hle.trans_lt (zpow_lt_zpow_right₀ (by norm_num) (by norm_num))

theorem IsCanonical.lt_limit_iff {m : ℕ} {e : ℤ} (h : IsCanonical m e) :
    (m : ℚ) * 2 ^ e < limit ↔ e < 972 := by
  constructor
  · intro hlt
    by_contra he
    have hlow : (2 : ℚ) ^ (52 : ℤ) ≤ m := by
      exact_mod_cast h.normal.resolve_left (by omega)
    have hunit : (2 : ℚ) ^ (972 : ℤ) ≤ 2 ^ e := zpow_le_zpow_right₀ (by norm_num) (not_lt.mp he)
    refine hlt.not_ge ?_
    calc
      limit = 2 ^ (52 : ℤ) * 2 ^ (972 : ℤ) := zpow_add₀ (by norm_num) 52 972
      _ ≤ m * 2 ^ e := mul_le_mul hlow hunit (two_zpow_pos _).le (Nat.cast_nonneg m)
  · intro he
    have hhigh : (m : ℚ) < 2 ^ (53 : ℤ) := by exact_mod_cast h.mantissa_lt
    have hunit : (2 : ℚ) ^ e ≤ 2 ^ (971 : ℤ) := zpow_le_zpow_right₀ (by norm_num) (by omega)
    calc
      (m : ℚ) * 2 ^ e < 2 ^ (53 : ℤ) * 2 ^ e := mul_lt_mul_of_pos_right hhigh (two_zpow_pos e)
      _ ≤ 2 ^ (53 : ℤ) * 2 ^ (971 : ℤ) := mul_le_mul_of_nonneg_left hunit (two_zpow_pos _).le
      _ = limit := (zpow_add₀ (by norm_num) 53 971).symm

/-- A number of some sign and magnitude, which is infinite from the limit on. -/
structure Holds (x : Float) (s : Sign) (q : ℚ) : Prop where
  stores : q < limit → Stores x.toModel.unpack s q
  infinite : limit ≤ q → x.toModel.unpack = .infinity s

theorem holds_pack {u : UnpackedFloat} {s : Sign} {q : ℚ} (h : Stores u s q) :
    Holds (.ofModel (.pack u)) s q := by
  have hunpack : (Float.ofModel (.pack u)).toModel.unpack =
      unpack Format.binary64 (pack Format.binary64 u) := rfl
  cases h with
  | zero =>
      refine ⟨fun _ ↦ ?_, fun hle ↦ absurd hle (not_le.mpr limit_pos)⟩
      rw [hunpack, unpack_pack_zero]
      exact .zero s
  | @finite _ m e hpos h =>
      constructor
      · intro hlt
        rw [hunpack, unpack_pack_finite s hpos h, if_pos (h.lt_limit_iff.mp hlt)]
        exact .finite s hpos h
      · intro hle
        rw [hunpack, unpack_pack_finite s hpos h, if_neg (mt h.lt_limit_iff.mpr (not_lt.mpr hle))]

section Floats

variable {x y : Float} {s s' : Sign} {p q : ℚ}

theorem Holds.neg (h : Holds x s q) : Holds (-x) (-s) q := by
  rcases lt_or_ge q limit with hq | hq
  · exact holds_pack (stores_neg (h.stores hq))
  · refine ⟨fun hlt ↦ absurd hlt (not_lt.mpr hq), fun _ ↦ ?_⟩
    change unpack Format.binary64 (pack Format.binary64 x.toModel.unpack.neg) = _
    rw [h.infinite hq]
    exact unpack_pack_infinity (-s)

theorem Holds.add (hx : Holds x .positive p) (hy : Holds y .positive q) (hp : p < limit)
    (hq : q < limit) : Holds (x + y) .positive (rounded (p + q)) :=
  holds_pack (stores_add (hx.stores hp) (hy.stores hq))

theorem Holds.mul (hx : Holds x s p) (hy : Holds y s' q) (hp : p < limit) (hq : q < limit) :
    Holds (x * y) (s * s') (rounded (p * q)) :=
  holds_pack (stores_mul (hx.stores hp) (hy.stores hq))

theorem Holds.div (hx : Holds x s p) (hy : Holds y s' q) (hp : p < limit) (hq : q < limit)
    (hpos : 0 < q) : Holds (x / y) (s / s') (rounded (p / q)) :=
  holds_pack (stores_div (hx.stores hp) (hy.stores hq) hpos)

end Floats

/-! ## Decoding -/

def isNegative : Sign → Bool
  | .negative => true
  | .positive => false

theorem toNat_unpackExponent (bits : UInt64) :
    (@unpackExponent Format.binary64 bits.toBitVec).toNat =
      ((bits >>> 52) &&& 0x7FF).toNat := by
  have hmask : (0x7FF : UInt64).toNat = 2 ^ 11 - 1 := rfl
  rw [UInt64.toNat_and, UInt64.toNat_shiftRight, hmask, Nat.and_two_pow_sub_one_eq_mod]
  simp only [unpackExponent, BitVec.toNat_cast, BitVec.extractLsb_toNat]
  rfl

theorem toNat_unpackMantissa (bits : UInt64) :
    (@unpackMantissa Format.binary64 bits.toBitVec).toNat =
      (bits &&& 0xFFFFFFFFFFFFF).toNat := by
  have hmask : (0xFFFFFFFFFFFFF : UInt64).toNat = 2 ^ 52 - 1 := rfl
  rw [UInt64.toNat_and, hmask, Nat.and_two_pow_sub_one_eq_mod]
  simp only [unpackMantissa, BitVec.toNat_cast, BitVec.extractLsb_toNat]
  rfl

theorem isNegative_unpackSign (bits : UInt64) :
    isNegative (Sign.ofBitVec (@unpackSign Format.binary64 bits.toBitVec)) =
      (bits >>> 63 != 0) := by
  have hsign : (@unpackSign Format.binary64 bits.toBitVec).toNat =
      (bits >>> 63).toNat := by
    have hlt := bits.toNat_lt
    rw [UInt64.toNat_shiftRight]
    simp only [unpackSign, BitVec.toNat_cast, BitVec.extractLsb_toNat]
    change bits.toNat >>> 63 % 2 = bits.toNat >>> 63
    rw [Nat.shiftRight_eq_div_pow]
    omega
  have hzero : @unpackSign Format.binary64 bits.toBitVec = 0#1 ↔ bits >>> 63 = 0 := by
    rw [← BitVec.toNat_inj, hsign, ← UInt64.toNat_inj]
    rfl
  rw [Sign.ofBitVec]
  split_ifs with h
  · rw [hzero.mp h]
    rfl
  · rw [bne_iff_ne.mpr (mt hzero.mpr h)]
    rfl

/-- The class of a number tells what its bits stand for. -/
inductive Decodes : UnpackedFloat → FloatClass → Prop
  | notANumber : Decodes .notANumber .nan
  | infinity (s : Sign) : Decodes (.infinity s) (.infinite (isNegative s))
  | zero (s : Sign) (narrow : Bool) : Decodes (.zero s) (.finite ⟨isNegative s, 0, -1074, narrow⟩)
  | finite (s : Sign) {m m' : ℕ} {e e' : ℤ} (hpos : 0 < m) (narrow : Bool) (hm : m = m')
      (he : e = e') : Decodes (.finite s m e hpos) (.finite ⟨isNegative s, m', e', narrow⟩)

theorem decodes (x : Float) : Decodes x.toModel.unpack (FloatClass.ofFloat x) := by
  have hexponent := toNat_unpackExponent x.toBits
  have hmantissa := toNat_unpackMantissa x.toBits
  have hsign := isNegative_unpackSign x.toBits
  change Decodes (unpack Format.binary64 x.toBits.toBitVec) (FloatClass.ofBits x.toBits)
  rw [unpack, FloatClass.ofBits]
  dsimp only
  rw [← hexponent, ← hmantissa, ← hsign]
  clear hexponent hmantissa hsign
  set exponent := @unpackExponent Format.binary64 x.toBits.toBitVec
  set mantissa := @unpackMantissa Format.binary64 x.toBits.toBitVec
  have hones : exponent = -1#11 ↔ exponent.toNat = 2047 := BitVec.toNat_inj.symm
  have hzero : exponent = 0#11 ↔ exponent.toNat = 0 := BitVec.toNat_inj.symm
  have hnone : mantissa = 0#52 ↔ mantissa.toNat = 0 := BitVec.toNat_inj.symm
  by_cases he : exponent = -1#11
  · rw [if_pos he, if_pos (hones.mp he)]
    by_cases hm : mantissa = 0#52
    · rw [if_pos hm, if_pos (hnone.mp hm)]
      exact .infinity _
    · rw [if_neg hm, if_neg (mt hnone.mpr hm)]
      exact .notANumber
  · rw [if_neg he, if_neg (mt hones.mpr he)]
    by_cases he' : exponent = 0#11
    · rw [if_pos he', if_pos (hzero.mp he')]
      by_cases hm : mantissa = 0#52
      · rw [dif_pos hm, hnone.mp hm]
        exact .zero _ _
      · rw [dif_neg hm]
        have hplace : (exponent.toNat : ℤ) - (Format.binary64.exponentBias + 52) + 1 = -1074 := by
          rw [hzero.mp he']
          rfl
        exact .finite _ _ _ rfl hplace
    · rw [if_neg he', if_neg (mt hzero.mpr he')]
      have hplace : (exponent.toNat : ℤ) - (Format.binary64.exponentBias + 52) =
          exponent.toNat - 1075 := rfl
      have hdigits : (1#1 ++ mantissa).toNat = Nat.pow 2 52 + mantissa.toNat := by
        rw [BitVec.toNat_append, ← Nat.shiftLeft_add_eq_or_of_lt (BitVec.isLt _)]
        rfl
      exact .finite _ _ _ hdigits hplace

/-! ## Whole numbers -/

theorem numerator_div_denominator (b : Binary) :
    (b.numerator : ℚ) / b.denominator = b.mantissa * 2 ^ b.exponent := by
  rw [zpow_eq_div (by norm_num), Binary.numerator, Binary.denominator, Nat.pow_eq, Nat.pow_eq]
  push_cast
  rw [mul_div_assoc]

theorem denominator_pos (b : Binary) : 0 < b.denominator := Nat.two_pow_pos _

/-- The nearest whole number, halves upwards. -/
theorem roundDiv_awayFromZero (num : ℕ) {den : ℕ} (hden : 0 < den) :
    roundDiv num den .awayFromZero = ⌊(num : ℚ) / den + 1 / 2⌋₊ := by
  have hdoubled : (num : ℚ) / den + 1 / 2 = (2 * num + den : ℕ) / (2 * den : ℕ) := by
    have hne : (den : ℚ) ≠ 0 := Nat.cast_ne_zero.mpr hden.ne'
    push_cast
    field_simp
  have hdivision := Nat.div_add_mod num den
  have hmod := Nat.mod_lt num hden
  rw [hdoubled, Nat.floor_div_eq_div]
  unfold roundDiv
  dsimp only
  generalize num / den = quotient at hdivision ⊢
  generalize num % den = rest at hdivision hmod ⊢
  have hquotient : ∀ n : ℕ, n * (2 * den) ≤ 2 * num + den → 2 * num + den < (n + 1) * (2 * den) →
      n = (2 * num + den) / (2 * den) := fun n hlow hhigh ↦ (Nat.div_eq_of_lt_le hlow hhigh).symm
  rcases lt_trichotomy (2 * rest) den with h | h | h
  · rw [Nat.compare_eq_lt.mpr h]
    exact hquotient quotient (by nlinarith) (by nlinarith)
  · rw [Nat.compare_eq_eq.mpr h]
    exact hquotient (quotient + 1) (by nlinarith) (by nlinarith)
  · rw [Nat.compare_eq_gt.mpr h]
    exact hquotient (quotient + 1) (by nlinarith) (by nlinarith)

section Counts

variable {x : Float} {s : Sign} {q : ℚ}

theorem Holds.exists_finite (h : Holds x s q) (hq : q < limit) :
    ∃ b : Binary, FloatClass.ofFloat x = .finite b ∧ b.negative = isNegative s ∧
      (b.numerator : ℚ) / b.denominator = q := by
  have hdecodes := decodes x
  have hstores := h.stores hq
  generalize x.toModel.unpack = u at hdecodes hstores
  generalize FloatClass.ofFloat x = c at hdecodes
  cases hstores with
  | zero =>
      cases hdecodes with
      | zero _ narrow =>
          refine ⟨_, rfl, rfl, ?_⟩
          rw [numerator_div_denominator, Nat.cast_zero, zero_mul]
  | finite _ hpos hcanonical =>
      cases hdecodes with
      | finite _ _ narrow hm he =>
          refine ⟨_, rfl, rfl, ?_⟩
          rw [numerator_div_denominator, hm, he]

theorem Holds.isFinite_iff (h : Holds x s q) : x.isFinite = true ↔ q < limit := by
  have hfinite : x.isFinite = x.toModel.unpack.isFinite := rfl
  rw [hfinite]
  rcases lt_or_ge q limit with hq | hq
  · refine iff_of_true ?_ hq
    have hstores := h.stores hq
    generalize x.toModel.unpack = u at hstores
    cases hstores <;> rfl
  · refine iff_of_false ?_ (not_lt.mpr hq)
    rw [h.infinite hq]
    exact Bool.false_ne_true

/-- A number is below zero if it is negative and not zero. -/
theorem Holds.lt_zero_iff (h : Holds x s q) (hq : q < limit) :
    x < 0.0 ↔ s = .negative ∧ 0 < q := by
  have hlt : x < 0.0 ↔ UnpackedFloat.lt x.toModel.unpack (.zero .positive) = true :=
    decide_eq_true_iff
  have hstores := h.stores hq
  rw [hlt]
  generalize x.toModel.unpack = u at hstores
  cases hstores with
  | zero => exact iff_of_false (by cases s <;> exact Bool.false_ne_true) fun h ↦ lt_irrefl 0 h.2
  | @finite _ m e hpos hcanonical =>
      cases s with
      | negative => exact iff_of_true rfl ⟨rfl, mul_two_zpow_pos hpos e⟩
      | positive => exact iff_of_false Bool.false_ne_true fun h ↦ Sign.noConfusion h.1

theorem toNat_clampedInt {pick : Binary → ℤ} {b : Binary} {n : ℕ} (h : pick b = n) :
    (UInt64.ofNat ((FloatClass.finite b).clampedInt pick 0 (UInt64.size - 1)).toNat).toNat =
      min n (UInt64.size - 1) := by
  have hclamped : ((FloatClass.finite b).clampedInt pick 0 (UInt64.size - 1)).toNat =
      min n (UInt64.size - 1) := by
    rw [FloatClass.clampedInt, h]
    omega
  have hsize : UInt64.size = 2 ^ 64 := rfl
  rw [hclamped, UInt64.toNat_ofNat', Nat.mod_eq_of_lt (by omega)]

theorem signed_isNegative {n : ℕ} (h : s = .positive ∨ n = 0) :
    Binary.signed (isNegative s) n = n := by
  rcases h with rfl | rfl
  · rfl
  · cases s <;> rfl

/-- The count that is nearest to a number, or the largest count. -/
theorem Holds.toNat_nearest (h : Holds x s q) (hq : q < limit) (hs : s = .positive ∨ q = 0) :
    (UInt64.ofNat
      ((FloatClass.ofFloat x).clampedInt Binary.nearest 0 (UInt64.size - 1)).toNat).toNat =
      min ⌊q + 1 / 2⌋₊ (UInt64.size - 1) := by
  obtain ⟨b, hb, hnegative, hvalue⟩ := h.exists_finite hq
  have hround := roundDiv_awayFromZero b.numerator (denominator_pos b)
  rw [hvalue] at hround
  rw [hb]
  apply toNat_clampedInt
  rw [Binary.nearest, hnegative, hround]
  refine signed_isNegative (hs.imp_right ?_)
  rintro rfl
  norm_num

/-- The count that is the integer part of a number, or the largest count. -/
theorem Holds.toNat_integerPart (h : Holds x s q) (hq : q < limit) (hs : s = .positive ∨ q = 0) :
    (UInt64.ofNat
      ((FloatClass.ofFloat x).clampedInt Binary.integerPart 0 (UInt64.size - 1)).toNat).toNat =
      min ⌊q⌋₊ (UInt64.size - 1) := by
  obtain ⟨b, hb, hnegative, hvalue⟩ := h.exists_finite hq
  have hfloor : b.numerator / b.denominator = ⌊q⌋₊ := by
    rw [← hvalue, Nat.floor_div_eq_div]
  rw [hb]
  apply toNat_clampedInt
  rw [Binary.integerPart, hnegative, hfloor]
  refine signed_isNegative (hs.imp_right ?_)
  rintro rfl
  exact Nat.floor_zero

end Counts

end Binary64
end QueryBench
