import QueryBench.Proofs.Arithmetic.Range
import QueryBench.Proofs.Cost.NonFiniteMeans
import QueryBench.Proofs.Results.CounterColumns
import QueryBench.Proofs.Results.ReportedLines

/-!
# Readings of counter tables

A counter may be read as an infinity or as an undefined number: the cells that stop the reading
are those that denote nothing at all, and not those that denote no finite number.  What is read
then spreads to the mean of its group and to the cost report.
-/

namespace QueryBench

open Binary64 (overflow rounded)

/-! ## Cells -/

namespace Numeral

/-- A decimal that is not rounded to an infinity. -/
def DenotesFinite (s : String) : Prop :=
  ∃ d, Spells s.toList d ∧ |d.toRat| < overflow

theorem abs_toRat (d : Decimal) : |d.toRat| = d.magnitude := by
  rw [d.toRat_eq]
  split_ifs
  · rw [abs_neg, abs_of_nonneg d.magnitude_nonneg]
  · exact abs_of_nonneg d.magnitude_nonneg

theorem isFinite_toFloat_iff {numeral : Numeral} :
    numeral.toFloat.isFinite = true ↔ ∃ d, numeral = .finite d ∧ |d.toRat| < overflow := by
  cases numeral with
  | nan => simp [toFloat, Timings.not_isFinite_nan]
  | infinite negative => simp [Timings.not_isFinite_infinite]
  | finite d =>
      rw [toFloat, d.holds_toFloat.isFinite_iff, Binary64.limit,
        Binary64.rounded_lt_iff d.magnitude_nonneg, ← abs_toRat]
      simp

/-- What a text that denotes something is read as. -/
structure IsReading (s : String) (x : Float) : Prop where
  exists_numeral : ∃ numeral, Denotes s.toList numeral ∧ x = numeral.toFloat
  isFinite_iff : x.isFinite = true ↔ DenotesFinite s

theorem float?_eq_some_iff {s : String} {x : Float} : float? s = some x ↔ IsReading s x := by
  have hparse : float? s = some x ↔ ∃ numeral, Denotes s.toList numeral ∧ x = numeral.toFloat := by
    simp only [float?, Option.map_eq_some_iff, parse?_eq_some_iff, @eq_comm _ _ x]
  rw [hparse]
  refine ⟨fun h ↦ ⟨h, ?_⟩, fun h ↦ h.exists_numeral⟩
  obtain ⟨numeral, hdenotes, rfl⟩ := h
  rw [isFinite_toFloat_iff]
  constructor
  · rintro ⟨d, rfl, hless⟩
    exact ⟨d, parse?_eq_finite_iff.mp (parse?_eq_some_iff.mpr hdenotes), hless⟩
  · rintro ⟨d, hspells, hless⟩
    have hsame := (parse?_eq_some_iff.mpr hdenotes).symm.trans (parse?_eq_finite_iff.mpr hspells)
    exact ⟨d, Option.some.inj hsame, hless⟩

theorem float?_eq_none_iff {s : String} :
    float? s = none ↔ ∀ numeral, ¬ Denotes s.toList numeral := by
  rw [float?, Option.map_eq_none_iff, parse?_eq_none_iff]

end Numeral

namespace CounterTable

open Csv (headerTexts_eq_ok_iff text? texts_eq_ok_iff)
open Numeral (Denotes IsReading float?_eq_none_iff float?_eq_some_iff)

/-- The text of a row in the first column of a name. -/
def HasCell (names texts : List String) (name value : String) : Prop :=
  ∃ k, names.idxOf? name = some k ∧ texts[k]? = some value

/-- A sample has the labels of its row, and each of its counters is what a cell is read as. -/
structure IsSample (names texts : List String) (s : Sample) : Prop where
  engine : HasCell names texts "backend" s.group.engine
  query : HasCell names texts "query" s.group.query
  scaleFactor : ∃ label, HasCell names texts "sf" label ∧ s.group.scaleFactor = .ofText label
  reading : ∀ c : Counter, ∃ value, HasCell names texts c.inputName value ∧
    IsReading value (s.reading.get c)

/-- The first counter, in their own order, whose cell denotes nothing. -/
def FirstUnread (names texts : List String) (c : Counter) (value : String) : Prop :=
  ∃ front back, Counter.all = front ++ c :: back ∧
    (∀ c' ∈ front, ∃ value' x, HasCell names texts c'.inputName value' ∧ IsReading value' x) ∧
      HasCell names texts c.inputName value ∧ ∀ numeral, ¬ Denotes value.toList numeral

theorem HasCell.unique {names texts : List String} {name value value' : String}
    (h : HasCell names texts name value) (h' : HasCell names texts name value') :
    value = value' := by
  obtain ⟨k, hk, hvalue⟩ := h
  obtain ⟨k', hk', hvalue'⟩ := h'
  cases hk.symm.trans hk'
  exact Option.some.inj (hvalue.symm.trans hvalue')

/-! ## Columns -/

/-- The columns that are found under a header. -/
structure FindsColumns (names : List String) (c : Columns) : Prop where
  backend : column names "backend" = .ok c.backend
  query : column names "query" = .ok c.query
  scaleFactor : column names "sf" = .ok c.scaleFactor
  counters : c.counters.map Prod.fst = Counter.all
  found : ∀ p ∈ c.counters, column names p.1.inputName = .ok p.2

section Columns

variable {names : List String}

theorem column_eq_ok_iff {name : String} {k : Nat} :
    column names name = .ok k ↔ names.idxOf? name = some k := by
  rw [column]
  cases names.idxOf? name <;> simp

theorem exists_column_iff {name : String} : (∃ k, column names name = .ok k) ↔ name ∈ names :=
  ⟨fun ⟨_, hk⟩ ↦ List.mem_of_getElem? (column_eq_ok hk), exists_column⟩

theorem counterColumns_eq_ok_iff {counters : List Counter} {cs : List (Counter × Nat)} :
    counterColumns names counters = .ok cs ↔
      cs.map Prod.fst = counters ∧ ∀ p ∈ cs, column names p.1.inputName = .ok p.2 := by
  induction counters generalizing cs with
  | nil =>
      rw [counterColumns, List.map_eq_nil_iff]
      constructor
      · rintro ⟨⟩
        exact ⟨rfl, List.forall_mem_nil _⟩
      · rintro ⟨rfl, -⟩
        rfl
  | cons c counters ih =>
      simp only [counterColumns, bind_eq_ok_iff, ih, pure, Except.pure, Except.ok.injEq]
      constructor
      · rintro ⟨k, hk, others, ⟨rfl, hothers⟩, rfl⟩
        exact ⟨rfl, List.forall_mem_cons.mpr ⟨hk, hothers⟩⟩
      · rintro ⟨hcounters, hfound⟩
        obtain ⟨⟨_, k⟩, others, rfl, rfl, rfl⟩ := List.map_eq_cons_iff.mp hcounters
        obtain ⟨hk, hothers⟩ := List.forall_mem_cons.mp hfound
        exact ⟨k, hk, others, ⟨rfl, hothers⟩, rfl⟩

theorem exists_counterColumns_iff {counters : List Counter} :
    (∃ cs, counterColumns names counters = .ok cs) ↔
      ∀ c ∈ counters, ∃ k, column names c.inputName = .ok k := by
  induction counters with
  | nil => simp [counterColumns]
  | cons c counters ih =>
      simp only [List.forall_mem_cons, ← ih, counterColumns, bind_eq_ok_iff]
      constructor
      · rintro ⟨_, k, hk, others, hothers, -⟩
        exact ⟨⟨k, hk⟩, others, hothers⟩
      · rintro ⟨⟨k, hk⟩, others, hothers⟩
        exact ⟨_, k, hk, others, hothers, rfl⟩

theorem columns_eq_ok_iff {c : Columns} : columns names = .ok c ↔ FindsColumns names c := by
  simp only [columns, bind_eq_ok_iff]
  constructor
  · rintro ⟨backend, hbackend, query, hquery, sf, hsf, counters, hcounters, ⟨⟩⟩
    obtain ⟨hall, hfound⟩ := counterColumns_eq_ok_iff.mp hcounters
    exact ⟨hbackend, hquery, hsf, hall, hfound⟩
  · rintro ⟨hbackend, hquery, hsf, hall, hfound⟩
    exact ⟨_, hbackend, _, hquery, _, hsf, _, counterColumns_eq_ok_iff.mpr ⟨hall, hfound⟩, rfl⟩

theorem exists_findsColumns_iff :
    (∃ c, FindsColumns names c) ↔ ∀ name ∈ requiredNames, name ∈ names := by
  simp only [requiredNames, List.forall_mem_cons, List.forall_mem_map]
  simp only [← @exists_column_iff names, ← exists_counterColumns_iff, ← columns_eq_ok_iff, columns,
    bind_eq_ok_iff]
  constructor
  · rintro ⟨_, backend, hbackend, query, hquery, sf, hsf, counters, hcounters, -⟩
    exact ⟨⟨_, hbackend⟩, ⟨_, hquery⟩, ⟨_, hsf⟩, _, hcounters⟩
  · rintro ⟨⟨_, hbackend⟩, ⟨_, hquery⟩, ⟨_, hsf⟩, _, hcounters⟩
    exact ⟨_, _, hbackend, _, hquery, _, hsf, _, hcounters, rfl⟩

end Columns

/-! ## Rows -/

section Rows

variable {names texts : List String} {c : Columns} {line : Nat}

/-- A column that is found has a cell in every row that is as wide as the header. -/
theorem hasCell_iff (hlength : texts.length = names.length) {name : String} {k : Nat}
    (hk : column names name = .ok k) {value : String} :
    HasCell names texts name value ↔ cell texts k = value := by
  have hfound := column_eq_ok_iff.mp hk
  have hlt : k < texts.length := hlength ▸ (List.getElem?_eq_some_iff.mp (column_eq_ok hk)).1
  simp [HasCell, hfound, cell, List.getD_eq_getElem?_getD, List.getElem?_eq_getElem hlt]

/-- What one cell gives. -/
def readingAt (line : Nat) (texts : List String) (p : Counter × Nat) :
    Except Defect (Counter × Float) :=
  match Numeral.float? (cell texts p.2) with
  | none => .error (.number line p.1.inputName (cell texts p.2))
  | some x => .ok (p.1, x)

theorem readings_takesInOrder :
    TakesInOrder (readingAt line texts) List.cons [] (readings line texts) where
  nil := rfl
  cons := by
    intro p cs
    rw [readings, readingAt]
    cases Numeral.float? (cell texts p.2) <;> rfl

theorem readingAt_eq_ok_iff {p : Counter × Nat} {x : Counter × Float} :
    readingAt line texts p = .ok x ↔ x.1 = p.1 ∧ IsReading (cell texts p.2) x.2 := by
  rw [← float?_eq_some_iff, readingAt]
  cases Numeral.float? (cell texts p.2) with
  | none => simp
  | some y => simp [Prod.ext_iff, eq_comm]

theorem readingAt_eq_error_iff {p : Counter × Nat} {d : Defect} :
    readingAt line texts p = .error d ↔
      (∀ numeral, ¬ Denotes (cell texts p.2).toList numeral) ∧
        d = .number line p.1.inputName (cell texts p.2) := by
  rw [← float?_eq_none_iff, readingAt]
  cases Numeral.float? (cell texts p.2) with
  | none => simp [eq_comm]
  | some y => simp

theorem readings_eq_ok_iff {cs : List (Counter × Nat)} {xs : List (Counter × Float)} :
    readings line texts cs = .ok xs ↔
      List.Forall₂ (fun p x ↦ x.1 = p.1 ∧ IsReading (cell texts p.2) x.2) cs xs := by
  rw [readings_takesInOrder.eq_ok_iff]
  simp only [List.foldr_cons_nil, exists_eq_right', readingAt_eq_ok_iff]

theorem readings_eq_error_iff {cs : List (Counter × Nat)} {d : Defect} :
    readings line texts cs = .error d ↔
      ∃ front counter k back, cs = front ++ (counter, k) :: back ∧
        (∀ p ∈ front, ∃ x, IsReading (cell texts p.2) x) ∧
        (∀ numeral, ¬ Denotes (cell texts k).toList numeral) ∧
        d = .number line counter.inputName (cell texts k) := by
  have hread : ∀ p : Counter × Nat, (∃ x, readingAt line texts p = .ok x) ↔
      ∃ x, IsReading (cell texts p.2) x := by
    intro p
    simp only [readingAt_eq_ok_iff]
    exact ⟨fun ⟨x, _, hx⟩ ↦ ⟨x.2, hx⟩, fun ⟨x, hx⟩ ↦ ⟨(p.1, x), rfl, hx⟩⟩
  rw [readings_takesInOrder.eq_error_iff]
  simp only [hread, readingAt_eq_error_iff, Prod.exists]

/-- The reading that is looked up is that of the cell of the counter. -/
theorem isReading_readingOf {cs : List (Counter × Nat)} {xs : List (Counter × Float)}
    (hnodup : (cs.map Prod.fst).Nodup)
    (h : List.Forall₂ (fun p x ↦ x.1 = p.1 ∧ IsReading (cell texts p.2) x.2) cs xs) :
    ∀ p ∈ cs, IsReading (cell texts p.2) (readingOf xs p.1) := by
  induction h with
  | nil => nofun
  | @cons p x cs xs hp _ ih =>
      obtain ⟨hcounter, hreading⟩ := hp
      obtain ⟨hfresh, hnodup⟩ := List.nodup_cons.mp hnodup
      rw [List.forall_mem_cons]
      refine ⟨by simpa [readingOf, hcounter] using hreading, fun q hq ↦ ?_⟩
      have hne : x.1 ≠ q.1 := by
        intro heq
        exact hfresh (List.mem_map.mpr ⟨q, hq, heq.symm.trans hcounter⟩)
      simpa [readingOf, hne] using ih hnodup q hq

theorem isSample_of_sample (hc : FindsColumns names c) (hlength : texts.length = names.length)
    {s : Sample} (h : sample c line texts = .ok s) : IsSample names texts s := by
  obtain ⟨xs, hxs, rfl⟩ := map_eq_ok_iff.mp h
  have hnodup : (c.counters.map Prod.fst).Nodup := by
    rw [hc.counters]
    decide
  have hreadings := isReading_readingOf hnodup (readings_eq_ok_iff.mp hxs)
  refine ⟨(hasCell_iff hlength hc.backend).mpr rfl, (hasCell_iff hlength hc.query).mpr rfl,
    ⟨_, (hasCell_iff hlength hc.scaleFactor).mpr rfl, rfl⟩, fun counter ↦ ?_⟩
  have hall : counter ∈ c.counters.map Prod.fst := by
    rw [hc.counters]
    cases counter <;> decide
  obtain ⟨p, hp, rfl⟩ := List.mem_map.mp hall
  refine ⟨_, (hasCell_iff hlength (hc.found p hp)).mpr rfl, ?_⟩
  simpa using hreadings p hp

theorem sample_eq_error_iff (hc : FindsColumns names c) (hlength : texts.length = names.length)
    {d : Defect} : sample c line texts = .error d ↔
      ∃ counter value, FirstUnread names texts counter value ∧
        d = .number line counter.inputName value := by
  rw [sample, map_eq_error_iff, readings_eq_error_iff]
  constructor
  · rintro ⟨front, counter, k, back, hsplit, hfront, hnothing, rfl⟩
    have hfound : ∀ p ∈ front ++ (counter, k) :: back, column names p.1.inputName = .ok p.2 :=
      hsplit ▸ hc.found
    have hk := hfound (counter, k) List.mem_append_cons_self
    refine ⟨counter, _, ⟨front.map Prod.fst, back.map Prod.fst, ?_, ?_,
      (hasCell_iff hlength hk).mpr rfl, hnothing⟩, rfl⟩
    · simp [← hc.counters, hsplit]
    · intro counter' hcounter'
      obtain ⟨p, hp, rfl⟩ := List.mem_map.mp hcounter'
      obtain ⟨x, hx⟩ := hfront p hp
      have hp' := hfound p (List.mem_append_left _ hp)
      exact ⟨_, x, (hasCell_iff hlength hp').mpr rfl, hx⟩
  · rintro ⟨counter, value, ⟨front, back, hall, hfront, hvalue, hnothing⟩, rfl⟩
    rw [← hc.counters] at hall
    obtain ⟨front', rest, hsplit, rfl, hrest⟩ := List.map_eq_append_iff.mp hall
    obtain ⟨⟨counter, k⟩, back', rfl, rfl, rfl⟩ := List.map_eq_cons_iff.mp hrest
    have hfound : ∀ p ∈ front' ++ (counter, k) :: back', column names p.1.inputName = .ok p.2 :=
      hsplit ▸ hc.found
    obtain rfl := (hasCell_iff hlength (hfound (counter, k) List.mem_append_cons_self)).mp hvalue
    refine ⟨front', counter, k, back', hsplit, fun p hp ↦ ?_, hnothing, rfl⟩
    obtain ⟨value', x, hvalue', hx⟩ := hfront p.1 (List.mem_map_of_mem hp)
    obtain rfl := (hasCell_iff hlength (hfound p (List.mem_append_left _ hp))).mp hvalue'
    exact ⟨x, hx⟩

theorem IsSample.unique {s s' : Sample} (h : IsSample names texts s)
    (h' : IsSample names texts s') : s = s' := by
  obtain ⟨⟨engine, query, sf⟩, reading⟩ := s
  obtain ⟨⟨engine', query', sf'⟩, reading'⟩ := s'
  obtain ⟨label, hlabel, hsf⟩ := h.scaleFactor
  obtain ⟨label', hlabel', hsf'⟩ := h'.scaleFactor
  obtain rfl : engine = engine' := h.engine.unique h'.engine
  obtain rfl : query = query' := h.query.unique h'.query
  obtain rfl := hlabel.unique hlabel'
  obtain rfl : sf = sf' := hsf.trans hsf'.symm
  have hreading : reading = reading' := by
    refine Counters.ext_get fun k ↦ ?_
    obtain ⟨value, hvalue, hreads⟩ := h.reading k
    obtain ⟨value', hvalue', hreads'⟩ := h'.reading k
    obtain rfl := hvalue.unique hvalue'
    exact Option.some.inj
      ((float?_eq_some_iff.mpr hreads).symm.trans (float?_eq_some_iff.mpr hreads'))
  rw [hreading]

theorem IsSample.not_firstUnread {s : Sample} (h : IsSample names texts s) {counter : Counter}
    {value : String} : ¬ FirstUnread names texts counter value := by
  rintro ⟨front, back, -, -, hvalue, hnothing⟩
  obtain ⟨value', hvalue', hreads⟩ := h.reading counter
  obtain rfl := hvalue.unique hvalue'
  obtain ⟨numeral, hdenotes, -⟩ := hreads.exists_numeral
  exact hnothing numeral hdenotes

theorem sample_eq_ok_iff (hc : FindsColumns names c) (hlength : texts.length = names.length)
    {s : Sample} : sample c line texts = .ok s ↔ IsSample names texts s := by
  refine ⟨isSample_of_sample hc hlength, fun h ↦ ?_⟩
  cases hread : sample c line texts with
  | ok s' => rw [h.unique (isSample_of_sample hc hlength hread)]
  | error d =>
      obtain ⟨counter, value, hfirst, -⟩ := (sample_eq_error_iff hc hlength).mp hread
      exact absurd hfirst h.not_firstUnread

end Rows

/-! ## Records -/

/-- The fields of a record are as many texts as there are names, and these are a sample. -/
def ReadsAs (names : List String) (r : Csv.Record) (s : Sample) : Prop :=
  ∃ texts : List String, texts.length = names.length ∧ r.fields.map text? = texts.map some ∧
    IsSample names texts s

/-- The fields of a record are as many texts as there are names, and one of them is to blame. -/
def UnreadAt (names : List String) (r : Csv.Record) (c : Counter) (value : String) : Prop :=
  ∃ texts : List String, texts.length = names.length ∧ r.fields.map text? = texts.map some ∧
    FirstUnread names texts c value

/-- The reading fails at the first record that is no sample, because of one of its cells, if there
is room for the record. -/
def FailsAtCell (names : List String) (room : Nat) (rows : List Csv.Record) (d : Defect) : Prop :=
  ∃ front r back counter value, rows = front ++ r :: back ∧ front.length < room ∧
    (∀ r' ∈ front, ∃ s, ReadsAs names r' s) ∧ UnreadAt names r counter value ∧
    d = .number r.line counter.inputName value

section Records

variable {names : List String} {c : Columns} {r : Csv.Record} {rows : List Csv.Record}

theorem rowTexts_eq_ok_iff {texts : List String} :
    rowTexts names.length r = .ok texts ↔
      texts.length = names.length ∧ r.fields.map text? = texts.map some := by
  have hlengths : r.fields.map text? = texts.map some → r.fields.length = texts.length := by
    intro h
    simpa using congrArg List.length h
  rw [rowTexts]
  split_ifs with hwidth
  · rw [texts_eq_ok_iff]
    exact ⟨fun h ↦ ⟨(hlengths h).symm.trans hwidth, h⟩, fun h ↦ h.2⟩
  · refine iff_of_false (by rintro ⟨⟩) ?_
    rintro ⟨hlength, htexts⟩
    exact hwidth ((hlengths htexts).trans hlength)

theorem readsAs_iff (hc : FindsColumns names c) {s : Sample} :
    ReadsAs names r s ↔
      ∃ texts, rowTexts names.length r = .ok texts ∧ sample c r.line texts = .ok s := by
  simp only [ReadsAs, rowTexts_eq_ok_iff, and_assoc]
  refine exists_congr fun texts ↦ and_congr_right fun hlength ↦ and_congr_right fun _ ↦ ?_
  exact (sample_eq_ok_iff hc hlength).symm

theorem exists_unreadAt_iff (hc : FindsColumns names c) {d : Defect} :
    (∃ counter value, UnreadAt names r counter value ∧
        d = .number r.line counter.inputName value) ↔
      ∃ texts, rowTexts names.length r = .ok texts ∧ sample c r.line texts = .error d := by
  simp only [UnreadAt, rowTexts_eq_ok_iff]
  constructor
  · rintro ⟨counter, value, ⟨texts, hlength, htexts, hfirst⟩, rfl⟩
    exact ⟨texts, ⟨hlength, htexts⟩, (sample_eq_error_iff hc hlength).mpr ⟨_, _, hfirst, rfl⟩⟩
  · rintro ⟨texts, ⟨hlength, htexts⟩, herror⟩
    obtain ⟨counter, value, hfirst, rfl⟩ := (sample_eq_error_iff hc hlength).mp herror
    exact ⟨counter, value, ⟨texts, hlength, htexts, hfirst⟩, rfl⟩

theorem ofRecords_eq_ok_iff (hc : FindsColumns names c) {limit room : Nat}
    {samples : List Sample} :
    ofRecords c names.length limit room rows = .ok samples ↔
      rows.length ≤ room ∧ List.Forall₂ (ReadsAs names) rows samples := by
  induction rows generalizing room samples with
  | nil => cases room <;> simp [ofRecords, eq_comm]
  | cons r rows ih =>
      cases room with
      | zero => simp [ofRecords]
      | succ room =>
          rw [ofRecords, List.forall₂_cons_left_iff, List.length_cons, Nat.add_le_add_iff_right]
          simp only [readsAs_iff hc]
          cases rowTexts names.length r with
          | error fault => simp
          | ok texts =>
              dsimp only
              cases hread : sample c r.line texts with
              | error d => simp [hread]
              | ok s =>
                  simp only [map_eq_ok_iff, ih]
                  constructor
                  · rintro ⟨rest, ⟨hroom, hrest⟩, rfl⟩
                    exact ⟨hroom, s, rest, ⟨texts, rfl, hread⟩, hrest, rfl⟩
                  · rintro ⟨hroom, s', rest, ⟨_, ⟨⟩, hread'⟩, hrest, rfl⟩
                    cases hread.symm.trans hread'
                    exact ⟨rest, ⟨hroom, hrest⟩, rfl⟩

theorem failsAtCell_nil {room : Nat} {d : Defect} : ¬ FailsAtCell names room [] d := by
  rintro ⟨front, r, back, counter, value, hsplit, -⟩
  exact List.append_ne_nil_of_right_ne_nil front (List.cons_ne_nil r back) hsplit.symm

theorem failsAtCell_zero {d : Defect} : ¬ FailsAtCell names 0 rows d := by
  rintro ⟨front, r, back, counter, value, -, hroom, -⟩
  exact Nat.not_lt_zero _ hroom

theorem failsAtCell_succ_iff {room : Nat} {d : Defect} :
    FailsAtCell names (room + 1) (r :: rows) d ↔
      (∃ counter value, UnreadAt names r counter value ∧
        d = .number r.line counter.inputName value) ∨
      (∃ s, ReadsAs names r s) ∧ FailsAtCell names room rows d := by
  constructor
  · rintro ⟨front, r', back, counter, value, hsplit, hroom, hfront, hunread, rfl⟩
    cases front with
    | nil =>
        cases hsplit
        exact .inl ⟨counter, value, hunread, rfl⟩
    | cons r front =>
        cases hsplit
        obtain ⟨hr, hfront⟩ := List.forall_mem_cons.mp hfront
        exact .inr ⟨hr, front, r', back, counter, value, rfl, Nat.lt_of_succ_lt_succ hroom, hfront,
          hunread, rfl⟩
  · rintro (⟨counter, value, hunread, rfl⟩ |
      ⟨hr, front, r', back, counter, value, rfl, hroom, hfront, hunread, rfl⟩)
    · exact ⟨[], r, rows, counter, value, rfl, Nat.succ_pos room, nofun, hunread, rfl⟩
    · exact ⟨r :: front, r', back, counter, value, rfl, Nat.succ_lt_succ hroom,
        List.forall_mem_cons.mpr ⟨hr, hfront⟩, hunread, rfl⟩

theorem ofRecords_eq_number_iff (hc : FindsColumns names c) {limit room line : Nat}
    {column value : String} :
    ofRecords c names.length limit room rows = .error (.number line column value) ↔
      FailsAtCell names room rows (.number line column value) := by
  induction rows generalizing room with
  | nil => cases room <;> exact iff_of_false nofun failsAtCell_nil
  | cons r rows ih =>
      cases room with
      | zero => exact iff_of_false nofun failsAtCell_zero
      | succ room =>
          simp only [ofRecords, failsAtCell_succ_iff, exists_unreadAt_iff hc, readsAs_iff hc, ← ih]
          cases rowTexts names.length r with
          | error fault => simp
          | ok texts =>
              dsimp only
              cases hread : sample c r.line texts with
              | error d => simp [hread]
              | ok s => simp [hread, map_eq_error_iff]

end Records

/-! ## Tables -/

/-- The first record of a table names the required columns, and the others are its rows. -/
def HasRows (table : Bytes) (names : List String) (rows : List Csv.Record) : Prop :=
  ∃ header, Csv.records table = header :: rows ∧ header.fields.map text? = names.map some ∧
    ∀ name ∈ requiredNames, name ∈ names

section Tables

variable {source : String} {limit : Nat} {table : Bytes}

theorem parse_of_hasRows {names : List String} {rows : List Csv.Record}
    (h : HasRows table names rows) :
    ∃ c, FindsColumns names c ∧
      parse limit table = ofRecords c names.length limit limit rows := by
  obtain ⟨header, hrecords, hnames, hrequired⟩ := h
  obtain ⟨c, hc⟩ := exists_findsColumns_iff.mpr hrequired
  have hwidth : header.fields.length = names.length := by
    simpa using congrArg List.length hnames
  refine ⟨c, hc, ?_⟩
  rw [parse, hrecords]
  dsimp only
  rw [headerTexts_eq_ok_iff.mpr hnames]
  dsimp only
  rw [columns_eq_ok_iff.mpr hc, hwidth]

/-- A table without such a header is not read, and no number is to blame. -/
theorem parse_of_not_hasRows (h : ∀ names rows, ¬ HasRows table names rows) :
    ∃ d, parse limit table = .error d ∧ ∀ line column value, d ≠ .number line column value := by
  rw [parse]
  cases hrecords : Csv.records table with
  | nil => exact ⟨.missingColumn "backend", rfl, by rintro _ _ _ ⟨⟩⟩
  | cons header rows =>
      dsimp only
      cases hheader : header.headerTexts with
      | error fault => exact ⟨.table fault, rfl, by rintro _ _ _ ⟨⟩⟩
      | ok names =>
          dsimp only
          cases hcolumns : columns names with
          | error d =>
              refine ⟨d, rfl, ?_⟩
              rintro line column value rfl
              exact reportsOnlyAt_columns names _ hcolumns line rfl
          | ok c =>
              have hrequired := exists_findsColumns_iff.mp ⟨c, columns_eq_ok_iff.mp hcolumns⟩
              exact absurd ⟨header, hrecords, headerTexts_eq_ok_iff.mp hheader, hrequired⟩ (h _ _)

theorem HasRows.unique {names names' : List String} {rows rows' : List Csv.Record}
    (h : HasRows table names rows) (h' : HasRows table names' rows') :
    names = names' ∧ rows = rows' := by
  obtain ⟨header, hrecords, hnames, -⟩ := h
  obtain ⟨header', hrecords', hnames', -⟩ := h'
  cases hrecords.symm.trans hrecords'
  exact ⟨Timings.texts_injective (hnames.symm.trans hnames'), rfl⟩

/-- What a table with a header gives is what its rows give.  A table without one gives a fault
that no number is to blame for. -/
theorem parse_eq_iff {outcome : Except Defect (List Sample)}
    {P : List String → List Csv.Record → Prop}
    (hrows : ∀ {names rows c}, FindsColumns names c →
      (ofRecords c names.length limit limit rows = outcome ↔ P names rows))
    (hnumber : ∀ d, outcome = .error d → ∃ line column value, d = .number line column value) :
    parse limit table = outcome ↔ ∃ names rows, HasRows table names rows ∧ P names rows := by
  by_cases h : ∃ names rows, HasRows table names rows
  · obtain ⟨names, rows, h⟩ := h
    obtain ⟨c, hc, hparse⟩ := parse_of_hasRows h
    rw [hparse, hrows hc]
    refine ⟨fun hp ↦ ⟨names, rows, h, hp⟩, ?_⟩
    rintro ⟨names', rows', h', hp⟩
    obtain ⟨rfl, rfl⟩ := h.unique h'
    exact hp
  · simp only [not_exists] at h
    obtain ⟨d, hd, hother⟩ := parse_of_not_hasRows h
    rw [hd]
    refine iff_of_false (fun heq ↦ ?_) fun ⟨names, rows, hhas, _⟩ ↦ h names rows hhas
    obtain ⟨line, column, value, rfl⟩ := hnumber d heq.symm
    exact hother line column value rfl

theorem parse_eq_ok_iff {samples : List Sample} :
    parse limit table = .ok samples ↔
      ∃ names rows, HasRows table names rows ∧ rows.length ≤ limit ∧
        List.Forall₂ (ReadsAs names) rows samples :=
  parse_eq_iff (fun hc ↦ ofRecords_eq_ok_iff hc) nofun

theorem parse_eq_number_iff {line : Nat} {column value : String} :
    parse limit table = .error (.number line column value) ↔
      ∃ names rows, HasRows table names rows ∧
        FailsAtCell names limit rows (.number line column value) := by
  apply parse_eq_iff fun hc ↦ ofRecords_eq_number_iff hc
  rintro d ⟨⟩
  exact ⟨line, column, value, rfl⟩

/-- A table of counters is read if each row is a sample, and a cell is to blame only if it denotes
nothing.  A counter that is read is finite exactly if its cell denotes a finite number, and one
that is not makes the mean of its group, and the row of the group in a cost report, not finite
either. -/
theorem cells_of_no_finite_number_are_read (source : String) (limit : Nat) (table : Bytes) :
    (∀ samples, parseFrom source limit table = .ok samples ↔
      ∃ names rows, HasRows table names rows ∧ rows.length ≤ limit ∧
        List.Forall₂ (ReadsAs names) rows samples) ∧
    (∀ line column value,
      parseFrom source limit table = .error ⟨source, .number line column value⟩ ↔
        ∃ names rows, HasRows table names rows ∧
          FailsAtCell names limit rows (.number line column value)) ∧
    ∀ samples, parseFrom source limit table = .ok samples → ∀ s ∈ samples, ∀ c,
      (s.reading.get c).isFinite = false →
        (∃ a ∈ aggregateMean samples, a.group = s.group ∧ (a.mean.get c).isFinite = false) ∧
        ∀ reference rules report,
          CostReport.ofAggregates reference rules (aggregateMean samples) = .ok report →
            ∃ row ∈ report.rows, row.shownGroup = s.group ∧
              (row.perTuple.get c).isFinite = false := by
  refine ⟨fun samples ↦ ?_, fun line column value ↦ ?_, fun samples _ s hs c hreading ↦ ?_⟩
  · rw [← parse_eq_ok_iff]
    exact mapError_eq_ok_iff
  · rw [← parse_eq_number_iff, parseFrom, mapError_eq_error_iff]
    simp
  · exact ⟨exists_aggregate_not_finite hs hreading, fun reference rules report hreport ↦
      CostReport.exists_row_not_finite hreport hs hreading⟩

/-- One row, whose cycles are not a number. -/
def nanTable : Bytes :=
  Bytes.ofString <|
    "backend,query,sf,cycles,instructions,L1-misses,LLC-misses,branch-misses,IPC\n" ++
      "rof,q1,1,nan,2,3,4,5,1.0\n"

/-- The row is read, and the report on it has no number of cycles. -/
theorem nanTable_spoils_report :
    ¬ Numeral.DenotesFinite "nan" ∧
      ∃ s report, parseFrom "perf.csv" 9 nanTable = .ok [s] ∧
        CostReport.ofAggregates .tpch .none (aggregateMean [s]) = .ok report ∧
        ∃ row ∈ report.rows, row.shownGroup = ⟨"rof", "q1", ⟨"1"⟩⟩ ∧
          (row.perTuple.get .cycles).isFinite = false := by
  have hrecords : Csv.records nanTable =
      [⟨["backend", "query", "sf", "cycles", "instructions", "L1-misses", "LLC-misses",
          "branch-misses", "IPC"].map Bytes.ofString, 0, 1, 0⟩,
        ⟨["rof", "q1", "1", "nan", "2", "3", "4", "5", "1.0"].map Bytes.ofString, 1, 2, 76⟩] := by
    decide +kernel
  have hnan : (Numeral.toFloat .nan).isFinite = false := Timings.not_isFinite_nan
  obtain ⟨s, hs, hgroup, hcycles⟩ : ∃ s : Sample, parseFrom "perf.csv" 9 nanTable = .ok [s] ∧
      s.group = ⟨"rof", "q1", ⟨"1"⟩⟩ ∧ s.reading.get .cycles = Numeral.toFloat .nan := by
    rw [parseFrom, parse, hrecords]
    exact ⟨_, rfl, rfl, rfl⟩
  have hnothing : ¬ Numeral.DenotesFinite "nan" := by
    have hreading : IsReading "nan" (Numeral.toFloat .nan) := float?_eq_some_iff.mp rfl
    rw [← hreading.isFinite_iff, hnan]
    exact Bool.false_ne_true
  have hrow : ∀ a ∈ aggregateMean [s], ∃ row, CostRow.ofAggregate .tpch .none a = .ok row := by
    intro a ha
    have hsame : a.group = ⟨"rof", "q1", ⟨"1"⟩⟩ := by
      obtain ⟨t, ht, hmem⟩ := mem_map_group_aggregateMean.mp (List.mem_map_of_mem ha)
      rw [← hmem, List.mem_singleton.mp ht, hgroup]
    rw [CostRow.exists_ofAggregate_iff, hsame]
    have htuples : ReferenceTable.tpch.get? (QueryRules.none.rawId "q1") = some 600000 := by
      decide +kernel
    have hfactor : ScaleFactor.factor ⟨"1"⟩ = .ok 1.0 := by rfl
    exact ⟨⟨_, htuples⟩, _, ScaleFactor.factor_eq_ok_iff.mp hfactor⟩
  obtain ⟨report, hreport⟩ := CostReport.exists_ofAggregates_iff.mpr hrow
  have hspoils := (cells_of_no_finite_number_are_read "perf.csv" 9 nanTable).2.2 [s] hs s
    List.mem_cons_self .cycles (hcycles ▸ hnan)
  exact ⟨hnothing, s, report, hs, hreport, hgroup ▸ hspoils.2 .tpch .none report hreport⟩

end Tables

end CounterTable
end QueryBench
