import QueryBench.Proofs.Arithmetic.NonFinite

/-!
# Order and positive numbers

Binary64 numbers are ordered as the rationals that they hold, and an infinity is beyond all of
them.  A positive number stays positive under sums, and under products that do not make it
smaller, since the least number does not round to zero.
-/

namespace QueryBench
namespace Binary64

open Float.Model (Format UnpackedFloat)
open Float.Model.UnpackedFloat

/-! ## The order of what is unpacked -/

def signed : Sign → ℚ → ℚ
  | .positive, q => q
  | .negative, q => -q

theorem isCanonical_of_unpack {x : Float} {s : Sign} {m : ℕ} {e : ℤ} {hpos : 0 < m}
    (h : x.toModel.unpack = .finite s m e hpos) : IsCanonical m e ∧ (m : ℚ) * 2 ^ e < limit := by
  have hdecodes := decodes x
  rw [h] at hdecodes
  generalize hclass : FloatClass.ofFloat x = c at hdecodes
  cases hdecodes with
  | @finite _ _ m' _ e' _ narrow hm he =>
      subst hm he
      have hfraction : (x.toBits &&& 0xFFFFFFFFFFFFF).toNat < 2 ^ 52 :=
        toNat_unpackMantissa x.toBits ▸ BitVec.isLt _
      have hexponent : ((x.toBits >>> 52) &&& 0x7FF).toNat < 2 ^ 11 :=
        toNat_unpackExponent x.toBits ▸ BitVec.isLt _
      have hnat : Nat.pow 2 52 = 2 ^ 52 := rfl
      have hbounds : IsCanonical m e ∧ e < 972 := by
        rw [FloatClass.ofFloat, FloatClass.ofBits] at hclass
        split at hclass
        · split at hclass <;> cases hclass
        · split at hclass
          · obtain ⟨-, rfl, rfl, -⟩ := Binary.mk.inj (FloatClass.finite.inj hclass)
            exact ⟨⟨by omega, le_rfl, .inl rfl⟩, by norm_num⟩
          · obtain ⟨-, rfl, rfl, -⟩ := Binary.mk.inj (FloatClass.finite.inj hclass)
            exact ⟨⟨by omega, by omega, .inr (by omega)⟩, by omega⟩
      exact ⟨hbounds.1, hbounds.1.lt_limit_iff.mpr hbounds.2⟩

theorem IsCanonical.lt_of_exponent_lt {m m' : ℕ} {e e' : ℤ} (h : IsCanonical m e)
    (h' : IsCanonical m' e') (he : e < e') : (m : ℚ) * 2 ^ e < m' * 2 ^ e' := by
  have hm : (m : ℚ) < 2 ^ (53 : ℤ) := by exact_mod_cast h.mantissa_lt
  have hm' : (2 : ℚ) ^ (52 : ℤ) ≤ m' := by
    exact_mod_cast h'.normal.resolve_left (by have := h.min_le; omega)
  calc
    (m : ℚ) * 2 ^ e < 2 ^ (53 : ℤ) * 2 ^ e := mul_lt_mul_of_pos_right hm (two_zpow_pos e)
    _ = 2 ^ (53 + e) := (zpow_add₀ (by norm_num) _ _).symm
    _ ≤ 2 ^ (52 + e') := zpow_le_zpow_right₀ (by norm_num) (by omega)
    _ = 2 ^ (52 : ℤ) * 2 ^ e' := zpow_add₀ (by norm_num) _ _
    _ ≤ m' * 2 ^ e' := mul_le_mul_of_nonneg_right hm' (two_zpow_pos e').le

theorem IsCanonical.compares {m m' : ℕ} {e e' : ℤ} (h : IsCanonical m e)
    (h' : IsCanonical m' e') :
    ((compare e e').then (compare m m')).Compares ((m : ℚ) * 2 ^ e) (m' * 2 ^ e') := by
  rcases lt_trichotomy e e' with he | rfl | he
  · rw [compare_lt_iff_lt.mpr he]
    exact h.lt_of_exponent_lt h' he
  · rw [compare_eq_iff_eq.mpr rfl, Ordering.then]
    rcases lt_trichotomy m m' with hm | rfl | hm
    · rw [compare_lt_iff_lt.mpr hm]
      exact mul_lt_mul_of_pos_right (Nat.cast_lt.mpr hm) (two_zpow_pos e)
    · rw [compare_eq_iff_eq.mpr rfl]
      exact rfl
    · rw [compare_gt_iff_gt.mpr hm]
      exact mul_lt_mul_of_pos_right (Nat.cast_lt.mpr hm) (two_zpow_pos e)
  · rw [compare_gt_iff_gt.mpr he]
    exact h'.lt_of_exponent_lt h he

theorem compares_swap_neg {o : Ordering} {p q : ℚ} (h : o.Compares p q) :
    o.swap.Compares (-p) (-q) := by
  cases o with
  | lt => exact neg_lt_neg h
  | eq => exact congrArg _ h
  | gt => exact neg_lt_neg h

/-- A number or an infinity. -/
inductive IsNumber : UnpackedFloat → Prop
  | infinity (s : Sign) : IsNumber (.infinity s)
  | zero (s : Sign) : IsNumber (.zero s)
  | finite (s : Sign) {m : ℕ} {e : ℤ} (hpos : 0 < m) (h : IsCanonical m e)
      (hlt : (m : ℚ) * 2 ^ e < limit) : IsNumber (.finite s m e hpos)

/-- The rational that a number is ordered as, which is the limit for an infinity. -/
def unpackedValue : UnpackedFloat → ℚ
  | .notANumber => 0
  | .infinity s => signed s limit
  | .zero _ => 0
  | .finite s m e _ => signed s (m * 2 ^ e)

/-- The comparison of numbers is that of their rationals. -/
theorem IsNumber.exists_compare {u v : UnpackedFloat} (hu : IsNumber u) (hv : IsNumber v) :
    ∃ o, UnpackedFloat.compare u v = some o ∧ o.Compares (unpackedValue u) (unpackedValue v) := by
  have hlimit := limit_pos
  cases hu with
  | infinity s =>
      cases hv with
      | infinity t =>
          cases s <;> cases t
          exacts [⟨.eq, rfl, rfl⟩, ⟨.lt, rfl, neg_lt_self hlimit⟩, ⟨.gt, rfl, neg_lt_self hlimit⟩,
            ⟨.eq, rfl, rfl⟩]
      | zero t =>
          cases s
          exacts [⟨.lt, rfl, neg_lt_zero.mpr hlimit⟩, ⟨.gt, rfl, hlimit⟩]
      | @finite t m e hpos h hlt =>
          have hvalue := mul_two_zpow_pos hpos e
          cases s <;> cases t
          exacts [⟨.lt, rfl, neg_lt_neg hlt⟩, ⟨.lt, rfl, (neg_lt_zero.mpr hlimit).trans hvalue⟩,
            ⟨.gt, rfl, (neg_lt_zero.mpr hvalue).trans hlimit⟩, ⟨.gt, rfl, hlt⟩]
  | zero s =>
      cases hv with
      | infinity t =>
          cases t
          exacts [⟨.gt, rfl, neg_lt_zero.mpr hlimit⟩, ⟨.lt, rfl, hlimit⟩]
      | zero t => exact ⟨.eq, rfl, rfl⟩
      | @finite t m e hpos h hlt =>
          have hvalue := mul_two_zpow_pos hpos e
          cases t
          exacts [⟨.gt, rfl, neg_lt_zero.mpr hvalue⟩, ⟨.lt, rfl, hvalue⟩]
  | @finite s m e hpos h hlt =>
      have hvalue := mul_two_zpow_pos hpos e
      cases hv with
      | infinity t =>
          cases s <;> cases t
          exacts [⟨.gt, rfl, neg_lt_neg hlt⟩, ⟨.lt, rfl, (neg_lt_zero.mpr hvalue).trans hlimit⟩,
            ⟨.gt, rfl, (neg_lt_zero.mpr hlimit).trans hvalue⟩, ⟨.lt, rfl, hlt⟩]
      | zero t =>
          cases s
          exacts [⟨.lt, rfl, neg_lt_zero.mpr hvalue⟩, ⟨.gt, rfl, hvalue⟩]
      | @finite t m' e' hpos' h' hlt' =>
          have hvalue' := mul_two_zpow_pos hpos' e'
          cases s <;> cases t
          exacts [⟨_, rfl, compares_swap_neg (h.compares h')⟩,
            ⟨.lt, rfl, (neg_lt_zero.mpr hvalue).trans hvalue'⟩,
            ⟨.gt, rfl, (neg_lt_zero.mpr hvalue').trans hvalue⟩, ⟨_, rfl, h.compares h'⟩]

/-! ## The order of numbers -/

section Numbers

variable {x y : Float} {s : Sign} {p q : ℚ}

/-- The rational that a number is ordered as. -/
def value (x : Float) : ℚ := unpackedValue x.toModel.unpack

theorem isNumber_of_ne (h : x.toModel.unpack ≠ .notANumber) : IsNumber x.toModel.unpack := by
  cases hx : x.toModel.unpack with
  | notANumber => exact absurd hx h
  | infinity s => exact .infinity s
  | zero s => exact .zero s
  | finite s m e hpos =>
      obtain ⟨hcanonical, hlt⟩ := isCanonical_of_unpack hx
      exact .finite s hpos hcanonical hlt

theorem isNumber_of_isFinite (h : x.isFinite = true) : IsNumber x.toModel.unpack := by
  apply isNumber_of_ne
  intro hx
  have hfinite : x.toModel.unpack.isFinite = true := h
  rw [hx] at hfinite
  cases hfinite

theorem compare_eq_none (h : ¬ (IsNumber x.toModel.unpack ∧ IsNumber y.toModel.unpack)) :
    UnpackedFloat.compare x.toModel.unpack y.toModel.unpack = none := by
  by_cases hx : x.toModel.unpack = .notANumber
  · rw [hx]
    rfl
  · have hy : y.toModel.unpack = .notANumber := by
      by_contra hy
      exact h ⟨isNumber_of_ne hx, isNumber_of_ne hy⟩
    rw [hy]
    cases x.toModel.unpack <;> rfl

theorem compare_eq_some_iff {o : Ordering} :
    UnpackedFloat.compare x.toModel.unpack y.toModel.unpack = some o ↔
      IsNumber x.toModel.unpack ∧ IsNumber y.toModel.unpack ∧ o.Compares (value x) (value y) := by
  rw [← and_assoc]
  by_cases h : IsNumber x.toModel.unpack ∧ IsNumber y.toModel.unpack
  · obtain ⟨o', ho', hcompares⟩ := h.1.exists_compare h.2
    rw [ho', Option.some_inj]
    constructor
    · rintro rfl
      exact ⟨h, hcompares⟩
    · exact fun ho ↦ hcompares.inj ho.2
  · rw [compare_eq_none h]
    exact iff_of_false nofun fun h' ↦ h h'.1

theorem lt_iff :
    x < y ↔ IsNumber x.toModel.unpack ∧ IsNumber y.toModel.unpack ∧ value x < value y := by
  have hlt : x < y ↔ UnpackedFloat.lt x.toModel.unpack y.toModel.unpack = true :=
    decide_eq_true_iff
  rw [hlt, UnpackedFloat.lt, beq_iff_eq, compare_eq_some_iff]
  rfl

theorem le_iff :
    x ≤ y ↔ IsNumber x.toModel.unpack ∧ IsNumber y.toModel.unpack ∧ value x ≤ value y := by
  have hle : x ≤ y ↔ UnpackedFloat.le x.toModel.unpack y.toModel.unpack = true :=
    decide_eq_true_iff
  rw [hle, UnpackedFloat.le, Option.any_eq_true]
  simp only [compare_eq_some_iff]
  constructor
  · rintro ⟨o, ⟨hx, hy, hcompares⟩, ho⟩
    exact ⟨hx, hy, hcompares.ne_gt.mp (Ordering.isLE_iff_ne_gt.mp ho)⟩
  · rintro ⟨hx, hy, hle⟩
    rcases hle.lt_or_eq with hlt | heq
    · exact ⟨.lt, ⟨hx, hy, hlt⟩, rfl⟩
    · exact ⟨.eq, ⟨hx, hy, heq⟩, rfl⟩

theorem unpack_zero : (0 : Float).toModel.unpack = .zero .positive := by
  have hzero : (0 : Float) = .ofModel (.pack (.zero .positive)) := by decide +kernel
  rw [hzero]
  exact unpack_pack_zero .positive

theorem pos_iff : 0 < x ↔ IsNumber x.toModel.unpack ∧ 0 < value x := by
  rw [lt_iff, value, unpack_zero]
  exact and_iff_right (.zero .positive)

theorem nonneg_iff : 0 ≤ x ↔ IsNumber x.toModel.unpack ∧ 0 ≤ value x := by
  rw [le_iff, value, unpack_zero]
  exact and_iff_right (.zero .positive)

theorem nonneg_of_pos (h : 0 < x) : 0 ≤ x :=
  nonneg_iff.mpr ((pos_iff.mp h).imp_right le_of_lt)

theorem pos_of_pos_of_lt (hx : 0 < x) (h : x < y) : 0 < y := by
  obtain ⟨-, hy, hlt⟩ := lt_iff.mp h
  exact pos_iff.mpr ⟨hy, (pos_iff.mp hx).2.trans hlt⟩

theorem Holds.isNumber (h : Holds x s q) : IsNumber x.toModel.unpack := by
  apply isNumber_of_ne
  rcases lt_or_ge q limit with hq | hq
  · have hstores := h.stores hq
    generalize x.toModel.unpack = u at hstores
    cases hstores <;> nofun
  · rw [h.infinite hq]
    nofun

theorem Holds.value_eq (h : Holds x s q) : value x = signed s (min q limit) := by
  rcases lt_or_ge q limit with hq | hq
  · have hstores := h.stores hq
    rw [min_eq_left hq.le, value]
    generalize x.toModel.unpack = u at hstores
    cases hstores with
    | zero => cases s <;> rfl
    | finite => rfl
  · rw [min_eq_right hq, value, h.infinite hq]
    rfl

theorem IsNumber.exists_holds (h : IsNumber x.toModel.unpack) :
    ∃ s q, 0 ≤ q ∧ value x = signed s q ∧ Holds x s q := by
  rw [value]
  generalize hx : x.toModel.unpack = u at h
  cases h with
  | infinity s =>
      exact ⟨s, limit, limit_pos.le, rfl, fun hlt ↦ absurd hlt (lt_irrefl _), fun _ ↦ hx⟩
  | zero s =>
      exact ⟨s, 0, le_rfl, by cases s <;> rfl, fun _ ↦ hx ▸ .zero s,
        fun hle ↦ absurd hle limit_pos.not_ge⟩
  | finite s hpos hcanonical hlt =>
      exact ⟨s, _, (mul_two_zpow_pos hpos _).le, rfl,
        fun _ ↦ hx ▸ .finite s hpos hcanonical, fun hle ↦ absurd hle hlt.not_ge⟩

theorem exists_holds_of_nonneg (h : 0 ≤ x) :
    ∃ s, (s = .positive ∨ value x = 0) ∧ Holds x s (value x) := by
  obtain ⟨hx, hvalue⟩ := nonneg_iff.mp h
  obtain ⟨s, q, hq, heq, hholds⟩ := hx.exists_holds
  cases s with
  | positive => exact ⟨.positive, .inl rfl, heq ▸ hholds⟩
  | negative =>
      rw [heq] at hvalue ⊢
      obtain rfl : q = 0 := le_antisymm (neg_nonneg.mp hvalue) hq
      exact ⟨.negative, .inr neg_zero, by simpa [signed] using hholds⟩

theorem holds_of_pos (h : 0 < x) : Holds x .positive (value x) := by
  obtain ⟨s, hs, hholds⟩ := exists_holds_of_nonneg (nonneg_of_pos h)
  obtain rfl := hs.resolve_right (pos_iff.mp h).2.ne'
  exact hholds

theorem Holds.pos_iff (h : Holds x .positive q) : 0 < x ↔ 0 < q := by
  rw [Binary64.pos_iff, h.value_eq]
  exact (and_iff_right h.isNumber).trans (lt_min_iff.trans (and_iff_left limit_pos))

theorem Holds.nonneg_iff (h : Holds x .positive q) : 0 ≤ x ↔ 0 ≤ q := by
  rw [Binary64.nonneg_iff, h.value_eq]
  exact (and_iff_right h.isNumber).trans (le_min_iff.trans (and_iff_left limit_pos.le))

theorem Holds.value_zero (h : Holds x s 0) : value x = 0 := by
  rw [h.value_eq, min_eq_left limit_pos.le]
  cases s
  exacts [neg_zero, rfl]

theorem neg_lt_of_nonneg_of_pos (hx : 0 ≤ x) (hy : 0 < y) : -x < y := by
  obtain ⟨hy, hpos⟩ := Binary64.pos_iff.mp hy
  obtain ⟨s, hs, hholds⟩ := exists_holds_of_nonneg hx
  refine lt_iff.mpr ⟨hholds.neg.isNumber, hy, lt_of_le_of_lt ?_ hpos⟩
  have hmin : 0 ≤ min (value x) limit := le_min (Binary64.nonneg_iff.mp hx).2 limit_pos.le
  rw [hholds.neg.value_eq]
  rcases hs with rfl | hzero
  · exact neg_nonpos.mpr hmin
  · rw [hzero, min_eq_left limit_pos.le]
    cases s
    exacts [le_rfl, neg_zero.le]

theorem lt_of_not_le (hx : IsNumber x.toModel.unpack) (hy : IsNumber y.toModel.unpack)
    (h : ¬ x ≤ y) : y < x := by
  refine lt_iff.mpr ⟨hy, hx, ?_⟩
  by_contra hle
  exact h (le_iff.mpr ⟨hx, hy, not_lt.mp hle⟩)

theorem value_larger (hx : IsNumber x.toModel.unpack) (hy : IsNumber y.toModel.unpack) :
    IsNumber (Scalar.larger x y).toModel.unpack ∧
      value (Scalar.larger x y) = max (value x) (value y) := by
  rw [Scalar.larger]
  split_ifs with h
  · rcases h with hle | hself
    · exact ⟨hy, (max_eq_right (le_iff.mp hle).2.2).symm⟩
    · exact absurd (le_iff.mpr ⟨hx, hx, le_rfl⟩) hself
  · have hlt : y < x := lt_of_not_le hx hy fun hle ↦ h (.inl hle)
    exact ⟨hx, (max_eq_left (lt_iff.mp hlt).2.2.le).symm⟩

/-- The larger of two numbers is positive if one of them is. -/
theorem zero_lt_larger_iff (hx : 0 ≤ x) (hy : 0 ≤ y) :
    0 < Scalar.larger x y ↔ 0 < x ∨ 0 < y := by
  obtain ⟨hx, -⟩ := nonneg_iff.mp hx
  obtain ⟨hy, -⟩ := nonneg_iff.mp hy
  obtain ⟨hlarger, hvalue⟩ := value_larger hx hy
  simp [pos_iff, hx, hy, hlarger, hvalue]

theorem zero_le_larger (hx : 0 ≤ x) (hy : 0 ≤ y) : 0 ≤ Scalar.larger x y := by
  rw [Scalar.larger]
  split_ifs
  · exact hy
  · exact hx

end Numbers

/-! ## Operations on numbers that are not negative -/

section Operations

variable {x y : Float} {s : Sign} {p q : ℚ}

theorem Holds.unpack_cases (h : Holds x s q) :
    (q = 0 ∧ x.toModel.unpack = .zero s) ∨ (0 < q ∧ x.toModel.unpack = .infinity s) ∨
      0 < q ∧ ∃ m e hpos, x.toModel.unpack = .finite s m e hpos := by
  rcases lt_or_ge q limit with hq | hq
  · have hstores := h.stores hq
    generalize x.toModel.unpack = u at hstores
    cases hstores with
    | zero => exact .inl ⟨rfl, rfl⟩
    | @finite _ m e hpos => exact .inr (.inr ⟨mul_two_zpow_pos hpos e, m, e, hpos, rfl⟩)
  · exact .inr (.inl ⟨limit_pos.trans_le hq, h.infinite hq⟩)

/-- A number that is not zero is not below the least one. -/
theorem Holds.least_le (h : Holds x s q) (hq : 0 < q) : 2 ^ (-1074 : ℤ) ≤ q := by
  rcases lt_or_ge q limit with hlt | hle
  · have hstores := h.stores hlt
    generalize x.toModel.unpack = u at hstores
    cases hstores with
    | zero => exact absurd hq (lt_irrefl 0)
    | @finite _ m e hpos hcanonical =>
        have hunit : (2 : ℚ) ^ (-1074 : ℤ) ≤ 2 ^ e :=
          zpow_le_zpow_right₀ (by norm_num) hcanonical.min_le
        have hone : (1 : ℚ) ≤ m := by exact_mod_cast hpos
        exact hunit.trans (le_mul_of_one_le_left (two_zpow_pos e).le hone)
  · exact (zpow_le_zpow_right₀ (by norm_num) (by norm_num)).trans hle

theorem rounded_pos (h : 2 ^ (-1074 : ℤ) ≤ q) : 0 < rounded q :=
  (two_zpow_pos _).trans_le (two_zpow_le_rounded le_rfl h)

theorem holds_limit (h : x.toModel.unpack = .infinity s) : Holds x s limit :=
  ⟨fun hlt ↦ absurd hlt (lt_irrefl _), fun _ ↦ h⟩

/-- A positive sum has a positive summand. -/
theorem Holds.exists_add (hx : Holds x .positive p) (hy : Holds y .positive q) (hp : 0 ≤ p)
    (hq : 0 ≤ q) : ∃ r, Holds (x + y) .positive r ∧ (0 < r ↔ 0 < p ∨ 0 < q) := by
  have hunpack : (x + y).toModel.unpack = unpack Format.binary64 (pack Format.binary64
      (UnpackedFloat.add Format.binary64 x.toModel.unpack y.toModel.unpack)) := rfl
  rcases lt_or_ge p limit with hp' | hp'
  · rcases lt_or_ge q limit with hq' | hq'
    · refine ⟨_, hx.add hy hp' hq', ?_⟩
      constructor
      · intro hr
        by_contra hnone
        obtain ⟨hp₀, hq₀⟩ := not_or.mp hnone
        rw [le_antisymm (not_lt.mp hp₀) hp, le_antisymm (not_lt.mp hq₀) hq, add_zero,
          rounded_zero] at hr
        exact lt_irrefl 0 hr
      · rintro (hpos | hpos)
        · exact rounded_pos (le_add_of_le_of_nonneg (hx.least_le hpos) hq)
        · exact rounded_pos (le_add_of_nonneg_of_le hp (hy.least_le hpos))
    · refine ⟨limit, holds_limit ?_, iff_of_true limit_pos (.inr (limit_pos.trans_le hq'))⟩
      rw [hunpack, hy.infinite hq', ← unpack_pack_infinity]
      rcases hx.unpack_cases with ⟨-, hx⟩ | ⟨-, hx⟩ | ⟨-, m, e, hpos, hx⟩ <;> rw [hx] <;> rfl
  · refine ⟨limit, holds_limit ?_, iff_of_true limit_pos (.inl (limit_pos.trans_le hp'))⟩
    rw [hunpack, hx.infinite hp', ← unpack_pack_infinity]
    rcases hy.unpack_cases with ⟨-, hy⟩ | ⟨-, hy⟩ | ⟨-, m, e, hpos, hy⟩ <;> rw [hy] <;> rfl

/-- A positive number is not made zero by a factor of at least one. -/
theorem Holds.exists_mul (hx : Holds x .positive p) (hy : Holds y .positive q) (hp : 0 < p)
    (hq : 0 < q) (hone : 1 ≤ p ∨ 1 ≤ q) : ∃ r, 0 < r ∧ Holds (x * y) .positive r := by
  have hunpack : (x * y).toModel.unpack = unpack Format.binary64 (pack Format.binary64
      (UnpackedFloat.mul Format.binary64 x.toModel.unpack y.toModel.unpack)) := rfl
  rcases lt_or_ge p limit with hp' | hp'
  · rcases lt_or_ge q limit with hq' | hq'
    · refine ⟨_, rounded_pos ?_, hx.mul hy hp' hq'⟩
      rcases hone with hone | hone
      · exact (hy.least_le hq).trans (le_mul_of_one_le_left hq.le hone)
      · exact (hx.least_le hp).trans (le_mul_of_one_le_right hp.le hone)
    · refine ⟨limit, limit_pos, holds_limit ?_⟩
      rw [hunpack, hy.infinite hq', ← unpack_pack_infinity]
      rcases hx.unpack_cases with ⟨rfl, -⟩ | ⟨-, hx⟩ | ⟨-, m, e, hpos, hx⟩
      · exact absurd hp (lt_irrefl 0)
      · rw [hx]
        rfl
      · rw [hx]
        rfl
  · refine ⟨limit, limit_pos, holds_limit ?_⟩
    rw [hunpack, hx.infinite hp', ← unpack_pack_infinity]
    rcases hy.unpack_cases with ⟨rfl, -⟩ | ⟨-, hy⟩ | ⟨-, m, e, hpos, hy⟩
    · exact absurd hq (lt_irrefl 0)
    · rw [hy]
      rfl
    · rw [hy]
      rfl

theorem mul_pos_iff_left (hx : 0 ≤ x) (hy : Holds y .positive q) (hone : 1 ≤ q) (hq : q < limit) :
    0 < x * y ↔ 0 < x := by
  rcases (nonneg_iff.mp hx).2.eq_or_lt with hzero | hpos
  · obtain ⟨s, -, hholds⟩ := exists_holds_of_nonneg hx
    rw [← hzero] at hholds
    have hproduct := hholds.mul hy limit_pos hq
    rw [zero_mul, rounded_zero] at hproduct
    simp [pos_iff, hproduct.value_zero, hholds.value_zero]
  · have hx : 0 < x := pos_iff.mpr ⟨(nonneg_iff.mp hx).1, hpos⟩
    obtain ⟨r, hr, hproduct⟩ :=
      (holds_of_pos hx).exists_mul hy hpos (zero_lt_one.trans_le hone) (.inr hone)
    exact iff_of_true (hproduct.pos_iff.mpr hr) hx

/-- Zero times an infinity is undefined. -/
theorem Holds.not_isNumber_mul {t : Sign} (hx : Holds x s 0) (hy : Holds y t q) (hq : limit ≤ q) :
    ¬ IsNumber (x * y).toModel.unpack := by
  have hunpack : (x * y).toModel.unpack = unpack Format.binary64 (pack Format.binary64
      (UnpackedFloat.mul Format.binary64 x.toModel.unpack y.toModel.unpack)) := rfl
  have hundefined : (x * y).toModel.unpack = .notANumber := by
    rcases hx.unpack_cases with ⟨-, hx⟩ | ⟨hpos, -⟩ | ⟨hpos, -⟩
    · rw [hunpack, hx, hy.infinite hq]
      cases s <;> cases t <;> rfl
    · exact absurd hpos (lt_irrefl 0)
    · exact absurd hpos (lt_irrefl 0)
  rw [hundefined]
  nofun

theorem not_isNumber_add (hx : ¬ IsNumber x.toModel.unpack) (y : Float) :
    ¬ IsNumber (x + y).toModel.unpack := by
  have hunpack : (x + y).toModel.unpack = unpack Format.binary64 (pack Format.binary64
      (UnpackedFloat.add Format.binary64 x.toModel.unpack y.toModel.unpack)) := rfl
  have hsum : UnpackedFloat.add Format.binary64 .notANumber y.toModel.unpack = .notANumber := rfl
  have hundefined : (x + y).toModel.unpack = .notANumber := by
    rw [hunpack, not_not.mp (mt isNumber_of_ne hx), hsum]
    rfl
  rw [hundefined]
  nofun

theorem Holds.exists_div (hx : Holds x s p) (hy : Holds y .positive q) (hp : 0 ≤ p) (hq : 0 < q)
    (hq' : q < limit) : ∃ r, 0 ≤ r ∧ Holds (x / y) s r ∧ (p = 0 → r = 0) := by
  have hsign : s / .positive = s := by cases s <;> rfl
  rcases lt_or_ge p limit with hp' | hp'
  · refine ⟨_, rounded_nonneg _, hsign ▸ hx.div hy hp' hq' hq, ?_⟩
    rintro rfl
    rw [zero_div, rounded_zero]
  · refine ⟨limit, limit_pos.le, holds_limit ?_, fun hzero ↦ absurd limit_pos (hzero ▸ hp').not_gt⟩
    have hunpack : (x / y).toModel.unpack = unpack Format.binary64 (pack Format.binary64
        (UnpackedFloat.div Format.binary64 x.toModel.unpack y.toModel.unpack)) := rfl
    rw [hunpack, hx.infinite hp', ← unpack_pack_infinity]
    have hstores := hy.stores hq'
    generalize y.toModel.unpack = v at hstores
    cases hstores with
    | zero => exact absurd hq (lt_irrefl 0)
    | finite => cases s <;> rfl

theorem quotient_nonneg (hx : 0 ≤ x) (hy : Holds y .positive q) (hq : 0 < q) (hq' : q < limit) :
    0 ≤ x / y := by
  obtain ⟨s, hs, hholds⟩ := exists_holds_of_nonneg hx
  obtain ⟨r, hr, hquotient, hzero⟩ := hholds.exists_div hy (nonneg_iff.mp hx).2 hq hq'
  rcases hs with rfl | hx
  · exact hquotient.nonneg_iff.mpr hr
  · rw [hzero hx] at hquotient
    exact nonneg_iff.mpr ⟨hquotient.isNumber, hquotient.value_zero.ge⟩

theorem Stores.nonneg {u : UnpackedFloat} {s : Sign} (h : Stores u s q) : 0 ≤ q := by
  cases h with
  | zero => exact le_rfl
  | finite _ hpos => exact (mul_two_zpow_pos hpos _).le

theorem stores_sub {u v : UnpackedFloat} (hu : Stores u .positive p) (hv : Stores v .positive q)
    (h : q < p) : Stores (UnpackedFloat.sub Format.binary64 u v) .positive (rounded (p - q)) := by
  cases hu with
  | zero => exact absurd h (hv.nonneg).not_gt
  | @finite _ m e hpos hcanonical =>
      cases hv with
      | zero =>
          rw [sub_zero, hcanonical.rounded_eq]
          exact .finite _ hpos hcanonical
      | @finite _ m' e' hpos' hcanonical' =>
          rw [← decreaseExponent_of_le (min_le_left e e') m,
            ← decreaseExponent_of_le (min_le_right e e') m'] at h ⊢
          rw [← sub_mul]
          have hless := lt_of_mul_lt_mul_right h (two_zpow_pos _).le
          have hdifference := stores_normalize (m := ((decreaseExponent m e (min e e')).1 : ℤ) -
            (decreaseExponent m' e' (min e e')).1) (sub_pos.mpr (by exact_mod_cast hless))
            (min e e') .positive
          push_cast at hdifference
          exact hdifference

theorem Holds.sub (hx : Holds x .positive p) (hy : Holds y .positive q) (hp : p < limit)
    (hq : q < limit) (h : q < p) : Holds (x - y) .positive (rounded (p - q)) :=
  holds_pack (stores_sub (hx.stores hp) (hy.stores hq) h)

end Operations

end Binary64
end QueryBench
