import QueryBench.Proofs.Arithmetic.Range
import QueryBench.Proofs.Results.TimingGrammar

/-!
# Readings of stalls

A stall that is no count is rounded to binary64 first and then to the nearest count, so it is
recorded within half a microsecond and what the first rounding loses.  Where its nearest count
does not fit 64 bits it is not refused, and the largest count is recorded.
-/

namespace QueryBench

open Binary64

namespace Timings

open Csv (text?)
open Numeral (Spells SpellsCount)

/-! ## Numbers -/

/-- The numbers that are accepted: those that are not rounded to an infinity, and of those below
zero the ones that are rounded to zero. -/
def IsAccepted (v : ℚ) : Prop := -2 ^ (-1075 : ℤ) ≤ v ∧ v < overflow

/-- The count that is recorded for a number is the nearest one, but for what is lost where the
number itself is rounded.  If there is no nearest count of 64 bits it is the largest count. -/
structure IsRecorded (v : ℚ) (n : UInt64) : Prop where
  near : v + 1 / 2 < 2 ^ 64 → |(n.toNat : ℚ) - v| ≤ 1 / 2 + |v| / 2 ^ 53
  nearest : v + 1 / 2 < 2 ^ 64 → rounded |v| = |v| → |(n.toNat : ℚ) - v| ≤ 1 / 2
  largest : 2 ^ 64 ≤ v + 1 / 2 → n.toNat = 2 ^ 64 - 1

theorem two_zpow_lt_half {k : ℤ} (hk : k < -1) : (2 : ℚ) ^ k < 1 / 2 := by
  calc
    (2 : ℚ) ^ k < 2 ^ (-1 : ℤ) := zpow_lt_zpow_right₀ (by norm_num) hk
    _ = 1 / 2 := by norm_num

theorem abs_rounded_sub_le_div {v : ℚ} (hv : 2 ^ (-1022 : ℤ) ≤ v) :
    |rounded v - v| ≤ v / 2 ^ 53 := by
  refine (abs_rounded_sub_le_of_normal hv).trans_eq ?_
  rw [zpow_neg, inv_mul_eq_div]
  norm_num

section Recorded

variable {v : ℚ} {n : UInt64}

theorem isRecorded_of_nearest (hv : 0 ≤ v)
    (hn : n.toNat = min ⌊rounded v + 1 / 2⌋₊ (UInt64.size - 1)) : IsRecorded v n := by
  have hsize : UInt64.size = 2 ^ 64 := rfl
  have hnonneg : 0 ≤ rounded v + 1 / 2 := by linarith [rounded_nonneg v]
  have hlow := Nat.floor_le hnonneg
  have hhigh := Nat.lt_floor_add_one (rounded v + 1 / 2)
  rw [hsize] at hn
  refine ⟨fun hfits ↦ ?near, fun hfits hheld ↦ ?nearest, fun hlarge ↦ ?largest⟩
  case near =>
    rw [abs_of_nonneg hv]
    rcases lt_or_ge v (2 ^ (-1022 : ℤ)) with hsmall | hnormal
    · -- Both roundings go to zero.
      have hhalf : (2 : ℚ) ^ (-1022 : ℤ) < 1 / 2 := two_zpow_lt_half (by norm_num)
      have hrounded := rounded_le_two_zpow hv (by norm_num) hsmall.le
      have hzero : ⌊rounded v + 1 / 2⌋₊ = 0 := Nat.floor_eq_zero.mpr (by linarith)
      have hfraction : 0 ≤ v / 2 ^ 53 := by positivity
      rw [hn, hzero, Nat.zero_min, Nat.cast_zero, zero_sub, abs_neg, abs_of_nonneg hv]
      linarith
    · obtain ⟨hbelow, habove⟩ := abs_le.mp (abs_rounded_sub_le_div hnormal)
      have hmost : (n.toNat : ℚ) ≤ ⌊rounded v + 1 / 2⌋₊ := by
        exact_mod_cast hn.le.trans (min_le_left _ _)
      rw [abs_le]
      refine ⟨?_, by linarith⟩
      rcases min_choice ⌊rounded v + 1 / 2⌋₊ (2 ^ 64 - 1) with hmin | hmin
      · rw [hn, hmin]
        linarith
      · rw [hn, hmin]
        have hfraction : 0 ≤ v / 2 ^ 53 := by positivity
        push_cast
        linarith
  case nearest =>
    rw [abs_of_nonneg hv] at hheld
    rw [hheld] at hlow hhigh hn
    have hless : ⌊v + 1 / 2⌋₊ < 2 ^ 64 := by
      exact_mod_cast hlow.trans_lt hfits
    rw [hn, Nat.min_eq_left (by omega), abs_le]
    constructor <;> linarith
  case largest =>
    have hbig : ¬ rounded v < 2 ^ (64 : ℤ) := by
      rw [rounded_lt_two_zpow_iff hv (by norm_num), not_lt]
      norm_num
      linarith
    have hcount : 2 ^ 64 ≤ ⌊rounded v + 1 / 2⌋₊ := by
      apply Nat.le_floor
      push_cast
      linarith [not_lt.mp hbig]
    omega

theorem isRecorded_of_eq (h : (n.toNat : ℚ) = v) : IsRecorded v n := by
  subst h
  have hless : (n.toNat : ℚ) + 1 ≤ 2 ^ 64 := by
    exact_mod_cast n.toNat_lt
  refine ⟨fun _ ↦ ?_, fun _ _ ↦ ?_, fun hlarge ↦ absurd hlarge ?_⟩
  · rw [sub_self, abs_zero]
    positivity
  · rw [sub_self, abs_zero]
    positivity
  · linarith

theorem isRecorded_zero (hlow : -2 ^ (-1075 : ℤ) ≤ v) (hhigh : v ≤ 0) (hn : n.toNat = 0) :
    IsRecorded v n := by
  have hhalf : (2 : ℚ) ^ (-1075 : ℤ) < 1 / 2 := two_zpow_lt_half (by norm_num)
  have habs : |(n.toNat : ℚ) - v| ≤ 1 / 2 := by
    rw [hn, Nat.cast_zero, abs_le]
    constructor <;> linarith
  refine ⟨fun _ ↦ habs.trans (le_add_of_nonneg_right (by positivity)), fun _ _ ↦ habs, ?_⟩
  intro hlarge
  linarith

end Recorded

/-! ## Fields -/

theorem isAccepted_iff {d : Decimal} :
    IsAccepted d.toRat ↔
      rounded d.magnitude < limit ∧ (d.negative = false ∨ rounded d.magnitude = 0) := by
  have hnonneg := d.magnitude_nonneg
  have hleast := two_zpow_pos (-1075)
  have hless : (2 : ℚ) ^ (-1075 : ℤ) < overflow := by
    rw [← rounded_lt_iff hleast.le, (rounded_eq_zero_iff hleast.le).mpr le_rfl]
    exact limit_pos
  rw [IsAccepted, d.toRat_eq, limit, rounded_lt_iff hnonneg, rounded_eq_zero_iff hnonneg]
  cases d.negative with
  | false =>
      rw [if_neg Bool.false_ne_true]
      exact ⟨fun h ↦ ⟨h.2, .inl rfl⟩, fun h ↦ ⟨(neg_nonpos.mpr hleast.le).trans hnonneg, h.1⟩⟩
  | true =>
      rw [if_pos rfl]
      constructor
      · rintro ⟨hlow, -⟩
        have hsmall := neg_le_neg_iff.mp hlow
        exact ⟨hsmall.trans_lt hless, .inr hsmall⟩
      · rintro ⟨-, hsign⟩
        have hsmall := hsign.resolve_left Bool.noConfusion
        exact ⟨neg_le_neg hsmall, (neg_nonpos.mpr hnonneg).trans_lt (hleast.trans hless)⟩

/-- Digits that are a count are a decimal numeral too. -/
theorem spells_of_spellsCount {cs : List Char} {n : UInt64} (h : SpellsCount cs n) :
    Spells cs ⟨false, n.toNat, 0⟩ := by
  rcases h with ⟨hne, hdigits, hvalue⟩ | ⟨hne, hdigits, hvalue⟩
  · simpa [hvalue] using Spells.intro .none hdigits .none (.inl hne) .none
  · simpa [hvalue] using Spells.intro .plus hdigits .none (.inl hne) .none

theorem spells_unique {cs : List Char} {d d' : Decimal} (h : Spells cs d) (h' : Spells cs d') :
    d = d' := by
  have hsame :=
    (Numeral.parse?_eq_finite_iff.mpr h).symm.trans (Numeral.parse?_eq_finite_iff.mpr h')
  exact Numeral.finite.inj (Option.some.inj hsame)

/-- What is accepted in a field, and what is recorded for it: a count is recorded as it is. -/
structure RecordsStall (field : String) (d : Decimal) (n : UInt64) : Prop where
  spells : Spells field.toList d
  accepted : IsAccepted d.toRat
  recorded : IsRecorded d.toRat n
  count : ∀ m, SpellsCount field.toList m → n = m

theorem toRat_count (n : UInt64) : (⟨false, n.toNat, 0⟩ : Decimal).toRat = n.toNat := by
  simp [Decimal.toRat_eq, Decimal.magnitude]

theorem isAccepted_count (n : UInt64) : IsAccepted n.toNat := by
  have hnonneg : (0 : ℚ) ≤ n.toNat := Nat.cast_nonneg _
  exact ⟨(neg_nonpos.mpr (two_zpow_pos _).le).trans hnonneg,
    (rounded_lt_iff hnonneg).mp (rounded_natCast_lt_limit n.toNat_lt.le)⟩

theorem exists_recordsStall {field : String} {n : UInt64} (h : SpellsStall field n) :
    ∃ d, RecordsStall field d n := by
  cases h with
  | count hcount =>
      refine ⟨_, spells_of_spellsCount hcount, ?_, ?_, fun m hm ↦ ?_⟩
      · exact toRat_count n ▸ isAccepted_count n
      · exact isRecorded_of_eq (toRat_count n).symm
      · exact Option.some.inj
          ((Numeral.count?_eq_some_iff.mpr hcount).symm.trans (Numeral.count?_eq_some_iff.mpr hm))
  | @number d _ hcount hspells hfinite hsign hvalue =>
      have haccepted := isAccepted_iff.mpr ⟨hfinite, hsign⟩
      refine ⟨d, hspells, haccepted, ?_, fun m hm ↦ absurd hm (hcount m)⟩
      cases hnegative : d.negative with
      | false =>
          have hvalue' : d.toRat = d.magnitude := by
            rw [d.toRat_eq, hnegative, if_neg Bool.false_ne_true]
          rw [hvalue']
          exact isRecorded_of_nearest d.magnitude_nonneg hvalue
      | true =>
          have hrounded := hsign.resolve_left (by simp [hnegative])
          have hvalue' : d.toRat ≤ 0 := by
            rw [d.toRat_eq, hnegative, if_pos rfl]
            exact neg_nonpos.mpr d.magnitude_nonneg
          refine isRecorded_zero haccepted.1 hvalue' ?_
          rw [hvalue, hrounded]
          norm_num

theorem exists_spellsStall_iff {field : String} :
    (∃ n, SpellsStall field n) ↔ ∃ d, Spells field.toList d ∧ IsAccepted d.toRat := by
  constructor
  · rintro ⟨n, hn⟩
    obtain ⟨d, hd⟩ := exists_recordsStall hn
    exact ⟨d, hd.spells, hd.accepted⟩
  · rintro ⟨d, hspells, haccepted⟩
    by_cases hcount : ∃ m, SpellsCount field.toList m
    · obtain ⟨m, hm⟩ := hcount
      exact ⟨m, .count hm⟩
    · obtain ⟨hfinite, hsign⟩ := isAccepted_iff.mp haccepted
      have hfits : min ⌊rounded d.magnitude + 1 / 2⌋₊ (UInt64.size - 1) < UInt64.size :=
        (min_le_right _ _).trans_lt (by decide)
      refine ⟨.ofNat (min ⌊rounded d.magnitude + 1 / 2⌋₊ (UInt64.size - 1)), ?_⟩
      exact .number (not_exists.mp hcount) hspells hfinite hsign (UInt64.toNat_ofNat_of_lt hfits)

/-! ## Rows and tables -/

/-- The stall that a row is read with. -/
inductive HasStall : List String → Option UInt64 → Prop
  | missing (engine query sf latency : String) : HasStall [engine, query, sf, latency] none
  | empty (engine query sf latency : String) : HasStall [engine, query, sf, latency, ""] none
  | recorded (engine query sf latency : String) {stall : String} {d : Decimal} {n : UInt64}
      (h : RecordsStall stall d n) : HasStall [engine, query, sf, latency, stall] (some n)

theorem hasStall_of_isRow {texts : List String} {t : Trial} (h : IsRow texts t) :
    HasStall texts t.reading.stallUs := by
  cases h with
  | bare => exact .missing ..
  | unstalled => exact .empty ..
  | stalled _ hstall =>
      obtain ⟨d, hd⟩ := exists_recordsStall hstall
      exact .recorded _ _ _ _ hd

/-- The latency of a row is a count, and its stall is no number that is accepted. -/
def RefusesStall (r : Csv.Record) (stall : String) : Prop :=
  ∃ engine query sf latency ms,
    r.fields.map text? = [engine, query, sf, latency, stall].map some ∧
      SpellsCount latency.toList ms ∧ stall ≠ "" ∧
      ∀ d, Spells stall.toList d → ¬ IsAccepted d.toRat

theorem faulty_stall_iff {r : Csv.Record} {line : ℕ} {stall : String} :
    Faulty r (.number line "stall" stall) ↔ line = r.line ∧ RefusesStall r stall := by
  have hrefused : (∀ us, ¬ SpellsStall stall us) ↔
      ∀ d, Spells stall.toList d → ¬ IsAccepted d.toRat := by
    simpa using not_congr (@exists_spellsStall_iff stall)
  constructor
  · rintro ⟨texts, htexts, hfault⟩
    generalize hd : Defect.number line "stall" stall = d at hfault
    cases hfault with
    | width => cases hd
    | latency => simp at hd
    | stall hlatency hne hstall =>
        cases hd
        exact ⟨rfl, _, _, _, _, _, htexts, hlatency, hne, hrefused.mp hstall⟩
  · rintro ⟨rfl, engine, query, sf, latency, ms, htexts, hlatency, hne, hstall⟩
    exact ⟨_, htexts, .stall hlatency hne (hrefused.mpr hstall)⟩

/-- Every stall of a table that is read is recorded within half a microsecond and what the
rounding to binary64 loses, or as the largest count.  A stall is to blame exactly if it is in the
first row that is not read and denotes no number, or one that is rounded to an infinity or stays
below zero. -/
theorem stalls_are_recorded_or_refused (source : String) (limit : ℕ) (table : Bytes) :
    (∀ trials, parseFrom source limit table = .ok trials →
      List.Forall₂ (fun r t ↦ ∃ texts : List String, r.fields.map text? = texts.map some ∧
        HasStall texts t.reading.stallUs) (rows table) trials) ∧
    ∀ line stall,
      parseFrom source limit table = .error ⟨source, .number line "stall" stall⟩ ↔
        ∃ front r back, rows table = front ++ r :: back ∧ front.length < limit ∧
          (∀ r' ∈ front, ∃ t, ReadsAs r' t) ∧ line = r.line ∧ RefusesStall r stall := by
  constructor
  · intro trials htrials
    rw [parseFrom_eq_ok_iff, parse_eq_ok_iff_rows] at htrials
    refine htrials.1.imp ?_
    rintro r t ⟨texts, htexts, hrow⟩
    exact ⟨texts, htexts, hasStall_of_isRow hrow⟩
  · intro line stall
    rw [parseFrom_eq_error_iff, parse, ofRecords_eq_number_iff]
    simp only [Stops, faulty_stall_iff, rows]
    constructor
    · rintro ⟨-, front, r, back, hrows, hfront, ⟨-, ⟨⟩⟩ | ⟨hroom, hline, hrefuses⟩⟩
      exact ⟨front, r, back, hrows, hroom, hfront, hline, hrefuses⟩
    · rintro ⟨front, r, back, hrows, hroom, hfront, hline, hrefuses⟩
      exact ⟨trivial, front, r, back, hrows, hfront, .inr ⟨hroom, hline, hrefuses⟩⟩

/-- A stall that does not fit 64 bits. -/
def hugeTable : Bytes := Bytes.ofString "duckdb,q1,1,120,1e30\n"

/-- It is recorded as the largest count. -/
theorem hugeTable_is_read :
    parseFrom "in.csv" 9 hugeTable =
        .ok [⟨⟨"duckdb", "q1", ⟨"1"⟩⟩, ⟨120, some 18446744073709551615, none⟩⟩] ∧
      ∃ d, RecordsStall "1e30" d 18446744073709551615 ∧ d.toRat = 10 ^ 30 := by
  have hrows : rows hugeTable =
      [⟨["duckdb", "q1", "1", "120", "1e30"].map Bytes.ofString, 0, 1, 0⟩] := by
    decide +kernel
  have htexts : (["duckdb", "q1", "1", "120", "1e30"].map Bytes.ofString).map text? =
      ["duckdb", "q1", "1", "120", "1e30"].map some := by
    decide +kernel
  have hread : parseFrom "in.csv" 9 hugeTable =
      .ok [⟨⟨"duckdb", "q1", ⟨"1"⟩⟩, ⟨120, some 18446744073709551615, none⟩⟩] := by
    have hlatency : SpellsCount "120".toList 120 :=
      Numeral.count?_eq_some_iff.mp (by decide +kernel)
    have hstall : SpellsStall "1e30" 18446744073709551615 :=
      stall?_eq_some_iff.mp (by decide +kernel)
    rw [parseFrom_eq_ok_iff, parse_eq_ok_iff_rows, hrows]
    exact ⟨.cons ⟨_, htexts, .stalled hlatency hstall⟩ .nil, by decide⟩
  have hstalls := (stalls_are_recorded_or_refused "in.csv" 9 hugeTable).1 _ hread
  rw [hrows] at hstalls
  obtain ⟨⟨texts, htexts', hstall⟩, -⟩ := List.forall₂_cons.mp hstalls
  have hrow := texts_injective (htexts'.symm.trans htexts)
  refine ⟨hread, ?_⟩
  generalize hlargest : (some 18446744073709551615 : Option UInt64) = us at hstall
  cases hstall with
  | missing => cases hlargest
  | empty => cases hlargest
  | @recorded _ _ _ _ stall d n h =>
      cases hrow
      cases hlargest
      have hspells : Spells "1e30".toList ⟨false, 1, 30⟩ :=
        Numeral.parse?_eq_finite_iff.mp (by decide +kernel)
      refine ⟨d, h, ?_⟩
      rw [spells_unique h.spells hspells]
      decide +kernel

end Timings
end QueryBench
