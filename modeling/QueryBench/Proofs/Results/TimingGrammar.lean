import QueryBench.Proofs.Csv.TextTables
import QueryBench.Proofs.Decimal.Nearest
import QueryBench.Proofs.Decimal.Numerals
import QueryBench.Proofs.Results.AppendedTables

/-!
# The grammar of timing tables

Which rows a timing table may have, and what is reported of the first one that it may not have.
The row that exceeds the limit is not looked at, so the limit takes precedence over what the row
holds, and a table that is read under some limit is read under every limit that its rows fit.
-/

namespace QueryBench

open Binary64

namespace Timings

open Csv (text?)
open Float.Model.UnpackedFloat (Sign)

/-! ## Stalls -/

/-- A stall is a count, or else a number whose nearest binary64 value is finite and not below
zero; it is then the count nearest to this value. -/
inductive SpellsStall : String → UInt64 → Prop
  | count {field : String} {n : UInt64} (h : Numeral.SpellsCount field.toList n) :
      SpellsStall field n
  | number {field : String} {d : Decimal} {n : UInt64}
      (hcount : ∀ m, ¬ Numeral.SpellsCount field.toList m)
      (hnumber : Numeral.Spells field.toList d) (hfinite : rounded d.magnitude < limit)
      (hsign : d.negative = false ∨ rounded d.magnitude = 0)
      (hvalue : n.toNat = min ⌊rounded d.magnitude + 1 / 2⌋₊ (UInt64.size - 1)) :
      SpellsStall field n

theorem not_isFinite_nan : (0.0 / 0.0 : Float).isFinite = false := by decide +kernel

theorem not_isFinite_infinite (negative : Bool) :
    (Numeral.infinite negative).toFloat.isFinite = false := by
  cases negative <;> decide +kernel

theorem sign_eq_negative_iff (d : Decimal) : d.sign = .negative ↔ d.negative = true := by
  rw [Decimal.sign]
  cases d.negative <;> simp

/-- The nearest value of a numeral passes for a stall. -/
theorem toFloat_passes_iff (d : Decimal) :
    (!d.toFloat.isFinite || decide (d.toFloat < 0.0)) = false ↔
      rounded d.magnitude < limit ∧ (d.negative = false ∨ rounded d.magnitude = 0) := by
  have hholds := d.holds_toFloat
  rw [Bool.or_eq_false_iff, Bool.not_eq_false', hholds.isFinite_iff, decide_eq_false_iff_not]
  refine and_congr_right fun hfinite ↦ ?_
  rw [hholds.lt_zero_iff hfinite, sign_eq_negative_iff, not_and_or, Bool.not_eq_true, not_lt]
  exact or_congr_right ⟨fun hle ↦ le_antisymm hle (rounded_nonneg _), fun h ↦ h.le⟩

theorem toNat_nearestStall {d : Decimal} (hfinite : rounded d.magnitude < limit)
    (hsign : d.negative = false ∨ rounded d.magnitude = 0) :
    (UInt64.ofNat
      ((FloatClass.ofFloat d.toFloat).clampedInt Binary.nearest 0 maxCount).toNat).toNat =
      min ⌊rounded d.magnitude + 1 / 2⌋₊ (UInt64.size - 1) := by
  refine d.holds_toFloat.toNat_nearest hfinite (hsign.imp_left fun h ↦ ?_)
  rw [Decimal.sign, h]
  rfl

/-- What a numeral that is no count makes of a stall. -/
theorem stall?_of_not_count {field : String} (hcount : Numeral.count? field.toList = none)
    {n : UInt64} :
    stall? field = some n ↔ ∃ d, Numeral.parse? field.toList = some (.finite d) ∧
      rounded d.magnitude < limit ∧ (d.negative = false ∨ rounded d.magnitude = 0) ∧
      n.toNat = min ⌊rounded d.magnitude + 1 / 2⌋₊ (UInt64.size - 1) := by
  rw [stall?, hcount]
  dsimp only
  rw [Numeral.float?]
  cases hparse : Numeral.parse? field.toList with
  | none => simp
  | some numeral =>
      rw [Option.map_some]
      dsimp only
      cases numeral with
      | nan =>
          have hnan : (!(Numeral.nan).toFloat.isFinite) = true := by
            rw [Numeral.toFloat, not_isFinite_nan]
            rfl
          rw [hnan]
          simp
      | infinite negative =>
          rw [not_isFinite_infinite]
          simp
      | finite d =>
          rw [Numeral.toFloat]
          by_cases hpasses : rounded d.magnitude < limit ∧
              (d.negative = false ∨ rounded d.magnitude = 0)
          · rw [(toFloat_passes_iff d).mpr hpasses, if_neg Bool.false_ne_true, Option.some.injEq,
              ← UInt64.toNat_inj, toNat_nearestStall hpasses.1 hpasses.2]
            constructor
            · intro hvalue
              exact ⟨d, rfl, hpasses.1, hpasses.2, hvalue.symm⟩
            · rintro ⟨d', hd', -, -, hvalue⟩
              cases hd'
              exact hvalue.symm
          · rw [Bool.eq_true_of_not_eq_false (mt (toFloat_passes_iff d).mp hpasses), if_pos rfl]
            constructor
            · rintro ⟨⟩
            · rintro ⟨d', hd', hfinite, hsign, -⟩
              cases hd'
              exact absurd ⟨hfinite, hsign⟩ hpasses

theorem count?_eq_none_iff {cs : List Char} :
    Numeral.count? cs = none ↔ ∀ n, ¬ Numeral.SpellsCount cs n := by
  rw [Option.eq_none_iff_forall_ne_some]
  exact forall_congr' fun n ↦ not_congr Numeral.count?_eq_some_iff

theorem stall?_eq_some_iff {field : String} {n : UInt64} :
    stall? field = some n ↔ SpellsStall field n := by
  cases hcount : Numeral.count? field.toList with
  | some m =>
      have hm := Numeral.count?_eq_some_iff.mp hcount
      rw [stall?, hcount]
      constructor
      · intro h
        cases h
        exact .count hm
      · rintro (h | ⟨hnone, -⟩)
        · rw [← Numeral.count?_eq_some_iff, hcount] at h
          exact h
        · exact absurd hm (hnone m)
  | none =>
      have hnone := count?_eq_none_iff.mp hcount
      rw [stall?_of_not_count hcount]
      constructor
      · rintro ⟨d, hparse, hfinite, hsign, hvalue⟩
        exact .number hnone (Numeral.parse?_eq_finite_iff.mp hparse) hfinite hsign hvalue
      · rintro (h | ⟨-, hspells, hfinite, hsign, hvalue⟩)
        · exact absurd h (hnone n)
        · exact ⟨_, Numeral.parse?_eq_finite_iff.mpr hspells, hfinite, hsign, hvalue⟩

/-! ## Rows -/

/-- What a row holds: a count of milliseconds, and a stall unless it is missing or empty. -/
inductive IsRow : List String → Trial → Prop
  | bare {engine query sf latency : String} {ms : UInt64}
      (hlatency : Numeral.SpellsCount latency.toList ms) :
      IsRow [engine, query, sf, latency] ⟨⟨engine, query, .ofText sf⟩, ⟨ms, none, none⟩⟩
  | unstalled {engine query sf latency : String} {ms : UInt64}
      (hlatency : Numeral.SpellsCount latency.toList ms) :
      IsRow [engine, query, sf, latency, ""] ⟨⟨engine, query, .ofText sf⟩, ⟨ms, none, none⟩⟩
  | stalled {engine query sf latency stall : String} {ms us : UInt64}
      (hlatency : Numeral.SpellsCount latency.toList ms) (hstall : SpellsStall stall us) :
      IsRow [engine, query, sf, latency, stall]
        ⟨⟨engine, query, .ofText sf⟩, ⟨ms, some us, none⟩⟩

/-- What is wrong with the texts of a row: its width, or else its latency, or else its stall. -/
inductive RowFault (line : ℕ) : List String → Defect → Prop
  | width {texts : List String} (hfour : texts.length ≠ 4) (hfive : texts.length ≠ 5) :
      RowFault line texts (.width line texts.length)
  | latency {engine query sf latency : String} {rest : List String} (hrest : rest.length ≤ 1)
      (hlatency : ∀ ms, ¬ Numeral.SpellsCount latency.toList ms) :
      RowFault line (engine :: query :: sf :: latency :: rest) (.number line "latency" latency)
  | stall {engine query sf latency stall : String} {ms : UInt64}
      (hlatency : Numeral.SpellsCount latency.toList ms) (hne : stall ≠ "")
      (hstall : ∀ us, ¬ SpellsStall stall us) :
      RowFault line [engine, query, sf, latency, stall] (.number line "stall" stall)

section Rows

variable {line : ℕ} {texts : List String}

theorem trial_of_isRow {t : Trial} (h : IsRow texts t) : trial line texts = .ok t := by
  cases h with
  | bare hlatency =>
      simp [trial, Numeral.count?_eq_some_iff.mpr hlatency, stallField, Except.map]
  | unstalled hlatency =>
      simp [trial, Numeral.count?_eq_some_iff.mpr hlatency, stallField, Except.map]
  | @stalled _ _ _ _ stall _ us hlatency hstall =>
      have hus := stall?_eq_some_iff.mpr hstall
      have hne : stall ≠ "" := by
        rintro rfl
        cases hus
      simp [trial, Numeral.count?_eq_some_iff.mpr hlatency, stallField, Except.map, hus, hne]

theorem trial_of_rowFault {d : Defect} (h : RowFault line texts d) :
    trial line texts = .error d := by
  cases h with
  | width hfour hfive =>
      rw [trial.eq_def]
      split
      · rename_i engine query sf latency rest
        rw [List.length_cons, List.length_cons, List.length_cons, List.length_cons] at hfour hfive
        rw [if_pos (by omega)]
        congr 2
        simp only [List.length_cons]
        omega
      · rfl
  | latency hrest hlatency =>
      rw [trial, if_neg (by omega), count?_eq_none_iff.mpr hlatency]
  | @stall _ _ _ _ stall _ hlatency hne hstall =>
      have hnone : stall? stall = none := by
        rw [Option.eq_none_iff_forall_ne_some]
        exact fun us hus ↦ hstall us (stall?_eq_some_iff.mp hus)
      simp [trial, Numeral.count?_eq_some_iff.mpr hlatency, stallField, Except.map, hnone, hne]

/-- Every sequence of texts is a row or has a fault. -/
theorem isRow_or_rowFault (line : ℕ) (texts : List String) :
    (∃ t, IsRow texts t) ∨ ∃ d, RowFault line texts d := by
  have hcount : ∀ cs, (∃ n, Numeral.SpellsCount cs n) ∨ ∀ n, ¬ Numeral.SpellsCount cs n :=
    fun cs ↦ (em _).imp_right not_exists.mp
  match texts with
  | [] | [_] | [_, _] | [_, _, _] => exact .inr ⟨_, .width (by simp) (by simp)⟩
  | [engine, query, sf, latency] =>
      rcases hcount latency.toList with ⟨ms, hms⟩ | hnone
      · exact .inl ⟨_, .bare hms⟩
      · exact .inr ⟨_, .latency (by simp) hnone⟩
  | [engine, query, sf, latency, stall] =>
      rcases hcount latency.toList with ⟨ms, hms⟩ | hnone
      · by_cases hempty : stall = ""
        · subst hempty
          exact .inl ⟨_, .unstalled hms⟩
        · rcases em (∃ us, SpellsStall stall us) with ⟨us, hus⟩ | hstall
          · exact .inl ⟨_, .stalled hms hus⟩
          · exact .inr ⟨_, .stall hms hempty (not_exists.mp hstall)⟩
      · exact .inr ⟨_, .latency (by simp) hnone⟩
  | _ :: _ :: _ :: _ :: _ :: _ :: rest => exact .inr ⟨_, .width (by simp) (by simp)⟩

theorem trial_eq_ok_iff {t : Trial} : trial line texts = .ok t ↔ IsRow texts t := by
  refine ⟨fun h ↦ ?_, trial_of_isRow⟩
  rcases isRow_or_rowFault line texts with ⟨t', ht'⟩ | ⟨d, hd⟩
  · rw [trial_of_isRow ht'] at h
    cases h
    exact ht'
  · rw [trial_of_rowFault hd] at h
    cases h

theorem trial_eq_error_iff {d : Defect} : trial line texts = .error d ↔ RowFault line texts d := by
  refine ⟨fun h ↦ ?_, trial_of_rowFault⟩
  rcases isRow_or_rowFault line texts with ⟨t, ht⟩ | ⟨d', hd'⟩
  · rw [trial_of_isRow ht] at h
    cases h
  · rw [trial_of_rowFault hd'] at h
    cases h
    exact hd'

end Rows

/-! ## Records -/

/-- The records whose fields are not all empty. -/
def filled (records : List Csv.Record) : List Csv.Record :=
  records.filter fun r ↦ !r.fields.all fun f ↦ decide (text? f = some "")

/-- The fields of a record are the texts of a row. -/
def ReadsAs (r : Csv.Record) (t : Trial) : Prop :=
  ∃ texts : List String, r.fields.map text? = texts.map some ∧ IsRow texts t

/-- The fields of a record are texts that are no row. -/
def Faulty (r : Csv.Record) (d : Defect) : Prop :=
  ∃ texts : List String, r.fields.map text? = texts.map some ∧ RowFault r.line texts d

section Readings

variable {r : Csv.Record} {texts : List String} {d : Defect}

theorem faulty_iff (htexts : r.fields.map text? = texts.map some) :
    Faulty r d ↔ trial r.line texts = .error d := by
  rw [trial_eq_error_iff]
  constructor
  · rintro ⟨texts', htexts', hfault⟩
    rwa [texts_injective (htexts.symm.trans htexts')]
  · exact fun hfault ↦ ⟨texts, htexts, hfault⟩

theorem exists_readsAs_iff (htexts : r.fields.map text? = texts.map some) :
    (∃ t, ReadsAs r t) ↔ ∃ t, trial r.line texts = .ok t := by
  simp only [trial_eq_ok_iff]
  constructor
  · rintro ⟨t, texts', htexts', hrow⟩
    rw [← texts_injective (htexts.symm.trans htexts')] at hrow
    exact ⟨t, hrow⟩
  · rintro ⟨t, hrow⟩
    exact ⟨t, texts, htexts, hrow⟩

end Readings

theorem all_blank_iff {fields : List Bytes} :
    (fields.all fun f ↦ decide (text? f = some "")) = true ↔ ∀ f ∈ fields, text? f = some "" := by
  simp

theorem filled_blank {r : Csv.Record} (h : ∀ f ∈ r.fields, text? f = some "")
    (records : List Csv.Record) : filled (r :: records) = filled records := by
  rw [filled, List.filter_cons, all_blank_iff.mpr h]
  rfl

theorem filled_cons {r : Csv.Record} (h : ¬ ∀ f ∈ r.fields, text? f = some "")
    (records : List Csv.Record) : filled (r :: records) = r :: filled records := by
  rw [filled, List.filter_cons, Bool.eq_false_iff.mpr (mt all_blank_iff.mp h)]
  rfl

theorem reads_iff_forall₂ {records : List Csv.Record} {trials : List Trial} :
    Reads (records.map Csv.Record.fields) trials ↔
      List.Forall₂ ReadsAs (filled records) trials := by
  induction records generalizing trials with
  | nil =>
      rw [List.map_nil, filled, List.filter_nil, List.forall₂_nil_left_iff]
      constructor
      · rintro ⟨⟩
        rfl
      · rintro rfl
        exact .nil
  | cons r records ih =>
      rw [List.map_cons]
      by_cases hblank : ∀ f ∈ r.fields, text? f = some ""
      · rw [reads_blank_iff hblank, filled_blank hblank, ih]
      · rw [filled_cons hblank, List.forall₂_cons_left_iff]
        constructor
        · intro h
          cases h with
          | blank hall => exact absurd hall hblank
          | row htexts htrial hrest =>
              exact ⟨_, _, ⟨_, htexts, trial_eq_ok_iff.mp htrial⟩, ih.mp hrest, rfl⟩
        · rintro ⟨t, rest, ⟨texts, htexts, hrow⟩, hrest, rfl⟩
          exact .row htexts (trial_eq_ok_iff.mpr hrow) (ih.mpr hrest)

/-! ## First faults -/

/-- The first record of some rows that is not read: the one that exceeds the room, whatever it
holds, or one that is no row.  All rows before it are. -/
def Stops (limit room : ℕ) (rows : List Csv.Record) (d : Defect) : Prop :=
  ∃ front r back, rows = front ++ r :: back ∧ (∀ r' ∈ front, ∃ t, ReadsAs r' t) ∧
    (front.length = room ∧ d = .rowLimit limit ∨ front.length < room ∧ Faulty r d)

section Stops

variable {limit room : ℕ} {r : Csv.Record} {rows : List Csv.Record} {d : Defect}

theorem not_stops_nil : ¬ Stops limit room [] d := by
  rintro ⟨front, r, back, h, -⟩
  cases front <;> cases h

theorem stops_zero_iff : Stops limit 0 (r :: rows) d ↔ d = .rowLimit limit := by
  constructor
  · rintro ⟨front, r', back, -, -, ⟨-, hd⟩ | ⟨hlt, -⟩⟩
    · exact hd
    · exact absurd hlt (Nat.not_lt_zero _)
  · exact fun hd ↦ ⟨[], r, rows, rfl, nofun, .inl ⟨rfl, hd⟩⟩

theorem stops_succ_iff :
    Stops limit (room + 1) (r :: rows) d ↔
      Faulty r d ∨ (∃ t, ReadsAs r t) ∧ Stops limit room rows d := by
  rw [Stops, exists_first_cons_iff (Q := fun n r ↦ n = room + 1 ∧ d = .rowLimit limit ∨
    n < room + 1 ∧ Faulty r d)]
  simp [Stops]

/-- A record of texts is blank, or it stops the reading, or what follows does. -/
theorem ofRecords_cons_eq_error_iff {texts : List String} {records : List Csv.Record}
    (hok : r.fields.map text? = texts.map some)
    (ih : ∀ room, ofRecords limit room records = .error d ↔ Stops limit room (filled records) d) :
    ofRecords limit room (r :: records) = .error d ↔
      Stops limit room (filled (r :: records)) d := by
  rw [ofRecords.eq_def]
  dsimp only
  rw [Csv.texts_eq_ok_iff.mpr hok]
  dsimp only
  by_cases hblank : ∀ f ∈ r.fields, text? f = some ""
  · rw [if_pos ((blank_iff hok).mp hblank), filled_blank hblank, ih]
  · rw [if_neg (mt (blank_iff hok).mpr hblank), filled_cons hblank]
    cases room with
    | zero =>
        rw [stops_zero_iff]
        dsimp only
        rw [Except.error.injEq, eq_comm]
    | succ room =>
        rw [stops_succ_iff, ← ih, faulty_iff hok, exists_readsAs_iff hok]
        dsimp only
        cases trial r.line texts with
        | error d' => simp
        | ok t => simp [map_eq_error_iff]

/-- Records of texts fail at the first record that is not read. -/
theorem ofRecords_eq_error_iff {records : List Csv.Record}
    (htexts : ∀ r ∈ records, ∀ f ∈ r.fields, (text? f).isSome) :
    ofRecords limit room records = .error d ↔ Stops limit room (filled records) d := by
  induction records generalizing room with
  | nil => exact iff_of_false nofun not_stops_nil
  | cons r records ih =>
      obtain ⟨texts, hok⟩ := Csv.exists_texts_iff.mpr (htexts r List.mem_cons_self)
      exact ofRecords_cons_eq_error_iff hok fun room ↦
        ih fun r' hr' ↦ htexts r' (List.mem_cons_of_mem r hr')

/-- A number is to blame in a record of texts only, so the other records may be anything. -/
theorem ofRecords_eq_number_iff {records : List Csv.Record} {line : ℕ} {column value : String} :
    ofRecords limit room records = .error (.number line column value) ↔
      Stops limit room (filled records) (.number line column value) := by
  induction records generalizing room with
  | nil => exact iff_of_false (by simp [ofRecords]) not_stops_nil
  | cons r records ih =>
      cases htexts : r.texts with
      | ok texts => exact ofRecords_cons_eq_error_iff (Csv.texts_eq_ok_iff.mp htexts) fun room ↦ ih
      | error fault =>
          have hnone : ∀ texts : List String, r.fields.map text? ≠ texts.map some := by
            intro texts hok
            rw [Csv.texts_eq_ok_iff.mpr hok] at htexts
            cases htexts
          have hblank : ¬ ∀ f ∈ r.fields, text? f = some "" := by
            intro hall
            obtain ⟨texts, hok⟩ := Csv.exists_texts_iff.mpr fun f hf ↦ (hall f hf) ▸ rfl
            exact hnone texts hok
          rw [ofRecords, htexts, filled_cons hblank]
          refine iff_of_false (by simp) fun hstops ↦ ?_
          cases room with
          | zero => cases stops_zero_iff.mp hstops
          | succ room =>
              rw [stops_succ_iff] at hstops
              rcases hstops with ⟨texts, hok, -⟩ | ⟨⟨t, texts, hok, -⟩, -⟩
              · exact hnone texts hok
              · exact hnone texts hok

end Stops

/-! ## Tables -/

/-- The rows of a table: its records that are not entirely empty. -/
def rows (table : Bytes) : List Csv.Record := filled (Csv.records table)

theorem parse_eq_ok_iff_rows {limit : ℕ} {table : Bytes} {trials : List Trial} :
    parse limit table = .ok trials ↔
      List.Forall₂ ReadsAs (rows table) trials ∧ (rows table).length ≤ limit := by
  rw [parse, ofRecords_eq_ok_iff, reads_iff_forall₂]
  refine and_congr_right fun hrows ↦ ?_
  rw [← hrows.length_eq]
  rfl

theorem parseFrom_eq_ok_iff {source : String} {limit : ℕ} {table : Bytes} {trials : List Trial} :
    parseFrom source limit table = .ok trials ↔ parse limit table = .ok trials :=
  mapError_eq_ok_iff

theorem parseFrom_eq_error_iff {source : String} {limit : ℕ} {table : Bytes} {fault : FileFault} :
    parseFrom source limit table = .error fault ↔
      fault.path = source ∧ parse limit table = .error fault.defect := by
  rw [parseFrom, mapError_eq_error_iff]
  constructor
  · rintro ⟨d, hd, rfl⟩
    exact ⟨rfl, hd⟩
  · rintro ⟨rfl, hd⟩
    exact ⟨_, hd, rfl⟩

theorem stops_rows_iff {limit : ℕ} {s : String} {d : Defect} :
    parse limit (Bytes.ofString s) = .error d ↔ Stops limit limit (rows (Bytes.ofString s)) d :=
  ofRecords_eq_error_iff (Csv.isSome_text?_of_ofString s)

/-- A table of text is read exactly if all its rows are and there are no more of them than the
limit; each row is then a trial, in order.  Otherwise the first row that is not read is reported,
where the row that exceeds the limit is not looked at.  What has been read under one limit is read
under every limit that the rows fit, and under no other. -/
theorem table_is_read_iff_rows_are (source s : String) (limit : ℕ) :
    (∀ trials, parseFrom source limit (Bytes.ofString s) = .ok trials ↔
        List.Forall₂ ReadsAs (rows (Bytes.ofString s)) trials ∧
          (rows (Bytes.ofString s)).length ≤ limit) ∧
      (∀ fault, parseFrom source limit (Bytes.ofString s) = .error fault ↔
        fault.path = source ∧ Stops limit limit (rows (Bytes.ofString s)) fault.defect) ∧
      ∀ trials, parseFrom source limit (Bytes.ofString s) = .ok trials → ∀ limit',
        parseFrom source limit' (Bytes.ofString s) =
          if (rows (Bytes.ofString s)).length ≤ limit' then .ok trials
          else .error ⟨source, .rowLimit limit'⟩ := by
  refine ⟨fun trials ↦ ?_, fun fault ↦ ?_, fun trials h limit' ↦ ?_⟩
  · rw [parseFrom_eq_ok_iff, parse_eq_ok_iff_rows]
  · rw [parseFrom_eq_error_iff, stops_rows_iff]
  · rw [parseFrom_eq_ok_iff, parse_eq_ok_iff_rows] at h
    obtain ⟨hrows, -⟩ := h
    split_ifs with hfits
    · rw [parseFrom_eq_ok_iff, parse_eq_ok_iff_rows]
      exact ⟨hrows, hfits⟩
    · rw [parseFrom_eq_error_iff, stops_rows_iff]
      rw [not_le] at hfits
      refine ⟨rfl, (rows (Bytes.ofString s)).take limit', (rows (Bytes.ofString s))[limit'],
        (rows (Bytes.ofString s)).drop (limit' + 1), ?_, fun r hr ↦ ?_, .inl ⟨?_, rfl⟩⟩
      · rw [List.getElem_cons_drop, List.take_append_drop]
      · obtain ⟨k, hk, rfl⟩ := List.mem_iff_getElem.mp (List.mem_of_mem_take hr)
        exact ⟨_, hrows.get hk (hrows.length_eq ▸ hk)⟩
      · rw [List.length_take, Nat.min_eq_left hfits.le]

/-- A latency with a sign, a stall halfway between two counts, and a blank record. -/
def signedTable : String := "a,q1,1,+5,2.5\n , \nb,q1,1,7,\n"

/-- Its two rows are read under every limit from two on. -/
theorem signedTable_is_read_from_two_on :
    parseFrom "in.csv" 2 (Bytes.ofString signedTable) =
        .ok [⟨⟨"a", "q1", ⟨"1"⟩⟩, ⟨5, some 3, none⟩⟩, ⟨⟨"b", "q1", ⟨"1"⟩⟩, ⟨7, none, none⟩⟩] ∧
      (rows (Bytes.ofString signedTable)).length = 2 ∧
      parseFrom "in.csv" 1 (Bytes.ofString signedTable) = .error ⟨"in.csv", .rowLimit 1⟩ := by
  have hrecords : Csv.records (Bytes.ofString signedTable) =
      [⟨["a", "q1", "1", "+5", "2.5"].map Bytes.ofString, 0, 1, 0⟩,
        ⟨[" ", " "].map Bytes.ofString, 1, 2, 14⟩,
        ⟨["b", "q1", "1", "7", ""].map Bytes.ofString, 2, 3, 18⟩] := by
    decide +kernel
  have hread : parseFrom "in.csv" 2 (Bytes.ofString signedTable) =
      .ok [⟨⟨"a", "q1", ⟨"1"⟩⟩, ⟨5, some 3, none⟩⟩, ⟨⟨"b", "q1", ⟨"1"⟩⟩, ⟨7, none, none⟩⟩] := by
    rw [parseFrom_eq_ok_iff, parse, hrecords]
    rfl
  have hlength : (rows (Bytes.ofString signedTable)).length = 2 := by
    rw [rows, hrecords]
    decide +kernel
  have hbelow := (table_is_read_iff_rows_are "in.csv" signedTable 2).2.2 _ hread 1
  rw [hlength] at hbelow
  exact ⟨hread, hlength, hbelow⟩

end Timings
end QueryBench
