import QueryBench.Proofs.Decimal.Nearest
import QueryBench.Proofs.Decimal.Numerals
import QueryBench.Proofs.Results.LogLines

/-!
# Times of logs

The seconds of a log are read as binary64 numbers, added and multiplied, and each step is
rounded.  So a latency can be a millisecond short of the sum that the log tells, where that is
a whole number of them.  It is off by no more than a few units in the last place before its
fraction is cut off.
-/

namespace QueryBench

open Binary64

namespace UmbraLog

/-- A numeral denotes a decimal number. -/
def Denotes (text : List Char) (q : ℚ) : Prop := ∃ d, Numeral.Spells text d ∧ d.toRat = q

/-! ## Numerals of times -/

theorem isTimeChar_of_times? {line execution compilation : List Char}
    (h : times? line = some (execution, compilation)) :
    (∀ c ∈ execution, isTimeChar c = true) ∧ ∀ c ∈ compilation, isTimeChar c = true := by
  rw [times?] at h
  split at h
  · cases h
  · split at h
    · cases h
    · cases h
      exact ⟨fun c hc ↦ List.mem_takeWhile_imp hc, fun c hc ↦ List.mem_takeWhile_imp hc⟩

theorem finite_of_isTimeChar {text : List Char} {n : Numeral} (h : Numeral.parse? text = some n)
    (htext : ∀ c ∈ text, isTimeChar c = true) : ∃ d, n = .finite d := by
  cases text with
  | nil => cases h
  | cons c rest =>
      have hhead : c.isDigit = true ∨ c = '.' := by
        have hc := htext c List.mem_cons_self
        rw [isTimeChar, Bool.or_eq_true, beq_iff_eq] at hc
        exact hc
      have hparse : Numeral.parse? (c :: rest) = _ := Numeral.parse?_of_head .none ⟨c, rfl, hhead⟩
      rw [h] at hparse
      obtain ⟨d, -, hd⟩ := Option.map_eq_some_iff.mp hparse.symm
      exact ⟨d, hd.symm⟩

theorem magnitude_of_isTimeChar {text : List Char} {d : Decimal} (h : Numeral.Spells text d)
    (htext : ∀ c ∈ text, isTimeChar c = true) : d.negative = false ∧ d.toRat = d.magnitude := by
  have hnegative : d.negative = false := by
    cases h with
    | intro hsign =>
        cases hsign with
        | none => rfl
        | plus => rfl
        | minus => exact absurd (htext '-' (by simp)) (by decide)
  refine ⟨hnegative, ?_⟩
  rw [Decimal.toRat_eq, hnegative]
  exact if_neg Bool.false_ne_true

/-- A time is read as the number nearest to it. -/
theorem holds_time {text : List Char} {d : Decimal} (h : Numeral.Spells text d)
    (htext : ∀ c ∈ text, isTimeChar c = true) :
    Holds d.toFloat .positive (rounded d.toRat) ∧ 0 ≤ d.toRat := by
  obtain ⟨hnegative, hvalue⟩ := magnitude_of_isTimeChar h htext
  have hholds := d.holds_toFloat
  rw [Decimal.sign, hnegative] at hholds
  rw [hvalue]
  exact ⟨hholds, d.magnitude_nonneg⟩

theorem holds_thousand : Holds 1000.0 .positive 1000 := by
  have hliteral : (1000.0 : Float) = .ofModel (.ofNat 1000) := by decide +kernel
  rw [hliteral]
  exact_mod_cast Decimal.holds_ofNat (m := 1000) (by decide) (by decide)

theorem holds_million : Holds 1000000.0 .positive 1000000 := by
  have hliteral : (1000000.0 : Float) = .ofModel (.ofNat 1000000) := by decide +kernel
  rw [hliteral]
  exact_mod_cast Decimal.holds_ofNat (m := 1000000) (by decide) (by decide)

/-! ## Rounding of times -/

theorem rounded_bounds {q : ℚ} (hq : 0 ≤ q) :
    q - q / 2 ^ 53 - 2 ^ (-1075 : ℤ) ≤ rounded q ∧
      rounded q ≤ q + q / 2 ^ 53 + 2 ^ (-1075 : ℤ) := by
  have habs := abs_le.mp (abs_rounded_sub_le hq)
  have hunit : (2 : ℚ) ^ (-53 : ℤ) * q = q / 2 ^ 53 := by
    rw [zpow_neg, div_eq_inv_mul]
    norm_num
  rw [hunit] at habs
  constructor <;> linarith

/-- A number is near another: three roundings move it by no more than three and a half units, and
what is lost below the least number is multiplied by no more than a million. -/
def IsNear (t p : ℚ) : Prop := |p - t| ≤ 7 / 2 ^ 54 * t + 2 ^ 20 * 2 ^ (-1075 : ℤ)

theorem isNear_latency {x y : ℚ} (hx : 0 ≤ x) (hy : 0 ≤ y) :
    IsNear (1000 * (x + y)) (rounded (1000 * rounded (rounded x + rounded y))) := by
  obtain ⟨hx₁, hx₂⟩ := rounded_bounds hx
  obtain ⟨hy₁, hy₂⟩ := rounded_bounds hy
  obtain ⟨hs₁, hs₂⟩ := rounded_bounds (add_nonneg (rounded_nonneg x) (rounded_nonneg y))
  obtain ⟨hp₁, hp₂⟩ := rounded_bounds
    (mul_nonneg (by norm_num : (0 : ℚ) ≤ 1000) (rounded_nonneg (rounded x + rounded y)))
  have hpos := two_zpow_pos (-1075)
  rw [IsNear, abs_le]
  constructor <;> linarith

theorem isNear_stall {y : ℚ} (hy : 0 ≤ y) :
    IsNear (1000000 * y) (rounded (1000000 * rounded y)) := by
  obtain ⟨hy₁, hy₂⟩ := rounded_bounds hy
  obtain ⟨hp₁, hp₂⟩ := rounded_bounds
    (mul_nonneg (by norm_num : (0 : ℚ) ≤ 1000000) (rounded_nonneg y))
  have hpos := two_zpow_pos (-1075)
  rw [IsNear, abs_le]
  constructor <;> linarith

theorem two_zpow_le_small {k : ℤ} (h : k ≤ -60) : (2 : ℚ) ^ k ≤ 1 / 2 ^ 60 := by
  calc
    (2 : ℚ) ^ k ≤ 2 ^ (-60 : ℤ) := zpow_le_zpow_right₀ (by norm_num) h
    _ = 1 / 2 ^ 60 := by norm_num

namespace IsNear

variable {t p : ℚ}

theorem lt (h : IsNear t p) (hlt : t < 2 ^ 53) : p < 2 ^ 60 := by
  obtain ⟨-, hhigh⟩ := abs_le.mp h
  have hleast := two_zpow_le_small (k := -1075) (by norm_num)
  linarith

/-- What is cut off to a whole number is that of a number that is near. -/
theorem floor_bounds (h : IsNear t p) (ht : 0 ≤ t) {c : ℚ} (hc : c ≤ 1 / 2) :
    ⌊t * (1 - 1 / 2 ^ 51) + c⌋₊ ≤ ⌊p + c⌋₊ ∧ ⌊p + c⌋₊ ≤ ⌊t * (1 + 1 / 2 ^ 51) + c⌋₊ := by
  obtain ⟨hlow, hhigh⟩ := abs_le.mp h
  rcases le_or_gt (2 ^ (-1000 : ℤ)) t with hle | hlt
  · -- The least number is far below half a unit of this one.
    have hleast : 2 ^ 75 * 2 ^ (-1075 : ℤ) ≤ t := by
      refine le_trans (le_of_eq ?_) hle
      rw [← zpow_natCast, ← zpow_add₀ (by norm_num)]
      norm_num
    exact ⟨Nat.floor_le_floor (by linarith), Nat.floor_le_floor (by linarith)⟩
  · have ht' := two_zpow_le_small (k := -1000) (by norm_num)
    have hleast := two_zpow_le_small (k := -1075) (by norm_num)
    have hzero : ⌊p + c⌋₊ = 0 := Nat.floor_eq_zero.mpr (by linarith)
    have hzero' : ⌊t * (1 - 1 / 2 ^ 51) + c⌋₊ = 0 := Nat.floor_eq_zero.mpr (by linarith)
    rw [hzero, hzero']
    exact ⟨le_rfl, Nat.zero_le _⟩

end IsNear

/-! ## Counts of trials -/

/-- A trial holds the seconds of execution and of compilation in its units.  The latency is
the integer part of what three roundings make of the milliseconds, and the stall the nearest
integer to what two roundings make of the microseconds; both lie between the counts of numbers
that are a little below and a little above the exact ones. -/
structure HoldsTimes (t : Trial) (x y : ℚ) : Prop where
  latency : t.reading.latencyMs.toNat = ⌊rounded (1000 * rounded (rounded x + rounded y))⌋₊
  le_latency : ⌊1000 * (x + y) * (1 - 1 / 2 ^ 51)⌋₊ ≤ t.reading.latencyMs.toNat
  latency_le : t.reading.latencyMs.toNat ≤ ⌊1000 * (x + y) * (1 + 1 / 2 ^ 51)⌋₊
  stall : ∃ n, t.reading.stallUs = some n ∧
    n.toNat = ⌊rounded (1000000 * rounded y) + 1 / 2⌋₊ ∧
    ⌊1000000 * y * (1 - 1 / 2 ^ 51) + 1 / 2⌋₊ ≤ n.toNat ∧
    n.toNat ≤ ⌊1000000 * y * (1 + 1 / 2 ^ 51) + 1 / 2⌋₊

theorem lt_limit_of_lt {q : ℚ} (h : q < 2 ^ 60) : q < limit := by
  refine h.trans_le ?_
  rw [← zpow_natCast]
  exact zpow_le_zpow_right₀ (by norm_num) (by norm_num)

theorem min_floor_eq {q : ℚ} (hq : 0 ≤ q) (h : q < 2 ^ 61) : min ⌊q⌋₊ (UInt64.size - 1) = ⌊q⌋₊ := by
  have hfloor : ⌊q⌋₊ < 2 ^ 61 := (Nat.floor_lt hq).mpr (by exact_mod_cast h)
  have hsize : UInt64.size = 2 ^ 64 := rfl
  omega

theorem holdsTimes_trial {log : UmbraLog} {execution compilation : Float} {x y : ℚ}
    (hx : Holds execution .positive (rounded x)) (hy : Holds compilation .positive (rounded y))
    (hx₀ : 0 ≤ x) (hy₀ : 0 ≤ y) (hms : 1000 * (x + y) < 2 ^ 53) (hus : 1000000 * y < 2 ^ 53) :
    HoldsTimes (log.trial execution compilation) x y := by
  have hleast := two_zpow_le_small (k := -1075) (by norm_num)
  obtain ⟨-, hx₁⟩ := rounded_bounds hx₀
  obtain ⟨-, hy₁⟩ := rounded_bounds hy₀
  obtain ⟨-, hs₁⟩ := rounded_bounds (add_nonneg (rounded_nonneg x) (rounded_nonneg y))
  have hnear := isNear_latency hx₀ hy₀
  have hnear' := isNear_stall hy₀
  have hlt := hnear.lt hms
  have hlt' := hnear'.lt hus
  -- Every step stays below the limit, so each of them is one rounding.
  have hsum := hx.add hy (lt_limit_of_lt (by linarith)) (lt_limit_of_lt (by linarith))
  have hlatency := holds_thousand.mul hsum (lt_limit_of_lt (by norm_num))
    (lt_limit_of_lt (by linarith))
  have hstall := holds_million.mul hy (lt_limit_of_lt (by norm_num)) (lt_limit_of_lt (by linarith))
  have hlatencyMs := hlatency.toNat_integerPart (lt_limit_of_lt hlt) (.inl rfl)
  have hstallUs := hstall.toNat_nearest (lt_limit_of_lt hlt') (.inl rfl)
  rw [min_floor_eq (rounded_nonneg _) (by linarith)] at hlatencyMs
  rw [min_floor_eq (add_nonneg (rounded_nonneg _) (by norm_num)) (by linarith)] at hstallUs
  obtain ⟨hlow, hhigh⟩ := hnear.floor_bounds (by linarith) (c := 0) (by norm_num)
  obtain ⟨hlow', hhigh'⟩ := hnear'.floor_bounds (by linarith) (c := 1 / 2) le_rfl
  rw [add_zero, add_zero, ← hlatencyMs] at hlow
  rw [add_zero, add_zero, ← hlatencyMs] at hhigh
  rw [← hstallUs] at hlow' hhigh'
  exact ⟨hlatencyMs, hlow, hhigh, _, rfl, hstallUs, hlow', hhigh'⟩

theorem seconds?_eq_some {line : List Char} {s s' : Float} (h : seconds? line = some (s, s')) :
    ∃ execution compilation n m,
      (line.splitOn '\n').findSome? times? = some (execution, compilation) ∧
        Numeral.parse? execution = some n ∧ Numeral.parse? compilation = some m ∧
        s = n.toFloat ∧ s' = m.toFloat := by
  rw [seconds?] at h
  split at h
  · cases h
  · rename_i execution compilation hcaptured
    split at h
    · rename_i n m hn hm
      cases h
      exact ⟨execution, compilation, n, m, hcaptured, hn, hm, rfl, rfl⟩
    · cases h

/-- The trials of a log are those of its lines, and each holds the times of its line, as far as
these are counts that binary64 can tell apart. -/
theorem log_times_are_rounded (log : UmbraLog) (text : String) {trials : List Trial}
    (h : log.trials text = .ok trials) :
    List.Forall₂ (fun line t ↦ ∃ execution compilation x y,
        (line.splitOn '\n').findSome? times? = some (execution, compilation) ∧
          Denotes execution x ∧ Denotes compilation y ∧
          (1000 * (x + y) < 2 ^ 53 → 1000000 * y < 2 ^ 53 → HoldsTimes t x y))
      ((Text.lines text.toList).filter fun l ↦ !l.all Text.isBlank) trials := by
  refine (trialsFrom_eq_ok_iff.mp h).imp fun line t hreports ↦ ?_
  obtain ⟨s, s', hseconds, rfl⟩ := hreports
  obtain ⟨execution, compilation, n, m, hcaptured, hn, hm, rfl, rfl⟩ := seconds?_eq_some hseconds
  obtain ⟨piece, -, htimes⟩ := List.exists_of_findSome?_eq_some hcaptured
  obtain ⟨hexecution, hcompilation⟩ := isTimeChar_of_times? htimes
  obtain ⟨d, rfl⟩ := finite_of_isTimeChar hn hexecution
  obtain ⟨d', rfl⟩ := finite_of_isTimeChar hm hcompilation
  have hspells := Numeral.parse?_eq_finite_iff.mp hn
  have hspells' := Numeral.parse?_eq_finite_iff.mp hm
  obtain ⟨hx, hx₀⟩ := holds_time hspells hexecution
  obtain ⟨hy, hy₀⟩ := holds_time hspells' hcompilation
  exact ⟨execution, compilation, d.toRat, d'.toRat, hcaptured, ⟨d, hspells, rfl⟩,
    ⟨d', hspells', rfl⟩, holdsTimes_trial hx hy hx₀ hy₀⟩

theorem Denotes.eq_toRat {text : List Char} {q : ℚ} (h : Denotes text q) {d : Decimal}
    (hparse : Numeral.parse? text = some (.finite d)) : q = d.toRat := by
  obtain ⟨d', hspells, rfl⟩ := h
  rw [← Numeral.parse?_eq_finite_iff, hparse] at hspells
  cases hspells
  rfl

def sampleName : UmbraLog := ⟨"q1", .adaptive, ⟨"1"⟩⟩

/-- One second and one millisecond. -/
def wholeLog : String := "execution: (1.001) compilation: (0)"

/-- They are 1001 milliseconds, and are recorded as 1000. -/
theorem wholeLog_recorded_short :
    ∃ t, sampleName.trials wholeLog = .ok [t] ∧ t.reading.latencyMs = 1000 ∧
      HoldsTimes t (1001 / 1000) 0 ∧ (1000 : ℚ) * (1001 / 1000 + 0) = 1001 := by
  have hlines : Text.lines wholeLog.toList = [wholeLog.toList] := by decide +kernel
  have hvisible : wholeLog.toList.all Text.isBlank = false := by decide +kernel
  have hseconds : seconds? wholeLog.toList = some (1.001, 0.0) := by decide +kernel
  have htrials : sampleName.trials wholeLog = .ok [sampleName.trial 1.001 0.0] := by
    rw [trials, hlines, trialsFrom, hvisible, hseconds]
    rfl
  have hcaptured : (wholeLog.toList.splitOn '\n').findSome? times? =
      some ("1.001".toList, "0".toList) := by
    decide +kernel
  have htimes := log_times_are_rounded sampleName wholeLog htrials
  rw [hlines, List.filter_cons, hvisible] at htimes
  obtain ⟨execution, compilation, x, y, hcaptured', hx, hy, hholds⟩ :=
    (List.forall₂_cons.mp htimes).1
  rw [hcaptured] at hcaptured'
  cases hcaptured'
  have hparse : Numeral.parse? "1.001".toList = some (.finite ⟨false, 1001, -3⟩) := by
    decide +kernel
  have hparse' : Numeral.parse? "0".toList = some (.finite ⟨false, 0, 0⟩) := by decide +kernel
  have hx' : x = 1001 / 1000 := by
    rw [hx.eq_toRat hparse]
    decide +kernel
  have hy' : y = 0 := by
    rw [hy.eq_toRat hparse']
    decide +kernel
  subst hx' hy'
  exact ⟨_, htrials, by decide +kernel, hholds (by norm_num) (by norm_num), by norm_num⟩

end UmbraLog
end QueryBench
