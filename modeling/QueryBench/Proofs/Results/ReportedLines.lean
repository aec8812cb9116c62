import QueryBench.Proofs.Csv.RecordPlaces
import QueryBench.Proofs.Results.TimingGrammar
import QueryBench.Results.CounterTable

/-!
# Reported lines

A row that is to blame for a fault is reported at the line where the record before it
ended.  That is the line where the row starts exactly if no line feed stands between the two:
neither a blank line nor the second half of a line end of two bytes.
-/

namespace QueryBench

/-- The line that a defect is reported at. -/
def Defect.line? : Defect → Option Nat
  | .width line _ => some line
  | .number line _ _ => some line
  | .logLine line => some line
  | _ => none

/-- The defects of a reading are reported at such lines only, or at none. -/
def ReportsOnlyAt {α : Type} (p : Nat → Prop) (x : Except Defect α) : Prop :=
  ∀ d, x = .error d → ∀ line ∈ d.line?, p line

namespace ReportsOnlyAt

variable {α β : Type} {p : Nat → Prop} {x : Except Defect α}

theorem ok (a : α) : ReportsOnlyAt p (.ok a) := nofun

theorem bind (hx : ReportsOnlyAt p x) {f : α → Except Defect β} (hf : ∀ a, ReportsOnlyAt p (f a)) :
    ReportsOnlyAt p (x >>= f) := by
  cases x with
  | error d =>
      rintro d' ⟨⟩
      exact hx d rfl
  | ok a => exact hf a

theorem map (hx : ReportsOnlyAt p x) (f : α → β) : ReportsOnlyAt p (x.map f) := by
  cases x with
  | error d =>
      rintro d' ⟨⟩
      exact hx d rfl
  | ok a => exact ok (f a)

end ReportsOnlyAt

/-- The records before the `k`-th one are read, and those up to it are not. -/
structure FailsAt {α : Type} (read : List Csv.Record → Except Defect α)
    (records : List Csv.Record) (k : Nat) (d : Defect) : Prop where
  lt_length : k < records.length
  before : ∃ x, read (records.take k) = .ok x
  fails : read (records.take (k + 1)) = .error d

/-! ## Reading in order -/

/-- A reading takes one record after another.  It stops at a record, and then reports no other
line than that of the record, or it goes on behind it. -/
structure ReadsInOrder {α : Type} (read : Nat → List Csv.Record → Except Defect (List α)) :
    Prop where
  nil : ∀ room, read room [] = .ok []
  cons : ∀ room r,
    (∃ d, (∀ rest, read room (r :: rest) = .error d) ∧ ∀ line ∈ d.line?, line = r.line) ∨
      ∃ room' xs, ∀ rest, read room (r :: rest) = (read room' rest).map (xs ++ ·)

theorem ReadsInOrder.exists_failsAt {α : Type}
    {read : Nat → List Csv.Record → Except Defect (List α)} (h : ReadsInOrder read) {room : Nat}
    {records : List Csv.Record} {d : Defect} (hfails : read room records = .error d) :
    ∃ k r, records[k]? = some r ∧ FailsAt (read room) records k d ∧
      ∀ line ∈ d.line?, line = r.line := by
  induction records generalizing room with
  | nil =>
      rw [h.nil room] at hfails
      cases hfails
  | cons r records ih =>
      rcases h.cons room r with ⟨d', hstops, hline⟩ | ⟨room', xs, hgoes⟩
      · obtain rfl := Except.error.inj ((hstops records).symm.trans hfails)
        exact ⟨0, r, rfl, ⟨Nat.succ_pos _, ⟨[], h.nil room⟩, hstops []⟩, hline⟩
      · have hrest : read room' records = .error d := by
          rw [hgoes] at hfails
          cases hread : read room' records with
          | ok ys =>
              rw [hread] at hfails
              cases hfails
          | error d' =>
              rw [hread] at hfails
              exact hfails
        obtain ⟨k, r', hr', ⟨hlt, ⟨ys, hys⟩, hstops⟩, hline⟩ := ih hrest
        refine ⟨k + 1, r', hr', ⟨Nat.succ_lt_succ hlt, ⟨xs ++ ys, ?_⟩, ?_⟩, hline⟩
        · rw [List.take_succ_cons, hgoes, hys]
          rfl
        · rw [List.take_succ_cons, hgoes, hstops]
          rfl

/-! ## Timings -/

theorem Timings.reportsOnlyAt_trial (line : Nat) (fields : List String) :
    ReportsOnlyAt (· = line) (trial line fields) := by
  intro d h
  cases trial_eq_error_iff.mp h with
  | width => exact fun n hn ↦ (Option.some.inj hn).symm
  | latency => exact fun n hn ↦ (Option.some.inj hn).symm
  | stall => exact fun n hn ↦ (Option.some.inj hn).symm

theorem Timings.readsInOrder (limit : Nat) : ReadsInOrder (ofRecords limit) where
  nil := fun _ ↦ rfl
  cons := by
    intro room r
    cases htexts : r.texts with
    | error fault =>
        refine .inl ⟨.table fault, fun rest ↦ ?_, by rintro _ ⟨⟩⟩
        rw [ofRecords, htexts]
    | ok texts =>
        by_cases hblank : texts.all (·.isEmpty) = true
        · refine .inr ⟨room, [], fun rest ↦ ?_⟩
          rw [ofRecords, htexts]
          dsimp only
          rw [if_pos hblank]
          cases ofRecords limit room rest <;> rfl
        · cases room with
          | zero =>
              refine .inl ⟨.rowLimit limit, fun rest ↦ ?_, by rintro _ ⟨⟩⟩
              rw [ofRecords, htexts]
              exact if_neg hblank
          | succ room =>
              cases htrial : trial r.line texts with
              | error d =>
                  refine .inl ⟨d, fun rest ↦ ?_, reportsOnlyAt_trial _ _ d htrial⟩
                  rw [ofRecords, htexts]
                  dsimp only
                  rw [if_neg hblank, htrial]
              | ok t =>
                  refine .inr ⟨room, [t], fun rest ↦ ?_⟩
                  rw [ofRecords, htexts]
                  dsimp only
                  rw [if_neg hblank, htrial]
                  rfl

/-! ## Counters -/

namespace CounterTable

/-- Reads the records of a table, the header among them. -/
def ofTable (limit : Nat) : List Csv.Record → Except Defect (List Sample)
  | [] => (columns []).map fun _ ↦ []
  | header :: rows =>
      match header.headerTexts with
      | .error fault => .error (.table fault)
      | .ok names =>
          match columns names with
          | .error defect => .error defect
          | .ok columns => ofRecords columns header.fields.length limit limit rows

theorem parse_eq_ofTable (limit : Nat) (table : Bytes) :
    parse limit table = ofTable limit (Csv.records table) := rfl

theorem reportsOnlyAt_column (header : List String) (name : String) :
    ReportsOnlyAt (fun _ ↦ False) (column header name) := by
  intro d h
  rw [column] at h
  split at h
  · cases h
    exact nofun
  · cases h

theorem reportsOnlyAt_counterColumns (header : List String) (counters : List Counter) :
    ReportsOnlyAt (fun _ ↦ False) (counterColumns header counters) := by
  induction counters with
  | nil => exact .ok []
  | cons c counters ih =>
      exact (reportsOnlyAt_column header c.inputName).bind fun k ↦ ih.bind fun others ↦ .ok _

/-- A missing column has no line. -/
theorem reportsOnlyAt_columns (header : List String) :
    ReportsOnlyAt (fun _ ↦ False) (columns header) :=
  (reportsOnlyAt_column header "backend").bind fun _ ↦
    (reportsOnlyAt_column header "query").bind fun _ ↦
      (reportsOnlyAt_column header "sf").bind fun _ ↦
        (reportsOnlyAt_counterColumns header Counter.all).bind fun _ ↦ .ok _

theorem reportsOnlyAt_readings (line : Nat) (fields : List String) (cs : List (Counter × Nat)) :
    ReportsOnlyAt (· = line) (readings line fields cs) := by
  induction cs with
  | nil => exact .ok []
  | cons p cs ih =>
      obtain ⟨counter, k⟩ := p
      rw [readings]
      split
      · rintro d ⟨⟩
        exact fun n hn ↦ (Option.some.inj hn).symm
      · exact ih.map _

theorem reportsOnlyAt_sample (c : Columns) (line : Nat) (fields : List String) :
    ReportsOnlyAt (· = line) (sample c line fields) :=
  (reportsOnlyAt_readings line fields c.counters).map _

theorem readsInOrder (c : Columns) (width limit : Nat) :
    ReadsInOrder (ofRecords c width limit) where
  nil := fun room ↦ by cases room <;> rfl
  cons := by
    intro room r
    cases room with
    | zero => exact .inl ⟨.rowLimit limit, fun _ ↦ rfl, nofun⟩
    | succ room =>
        cases htexts : rowTexts width r with
        | error fault =>
            refine .inl ⟨.table fault, fun rest ↦ ?_, nofun⟩
            rw [ofRecords, htexts]
        | ok texts =>
            cases hsample : sample c r.line texts with
            | error d =>
                refine .inl ⟨d, fun rest ↦ ?_, reportsOnlyAt_sample _ _ _ d hsample⟩
                rw [ofRecords, htexts]
                dsimp only
                rw [hsample]
            | ok s =>
                refine .inr ⟨room, [s], fun rest ↦ ?_⟩
                rw [ofRecords, htexts]
                dsimp only
                rw [hsample]
                rfl

/-- Only a row has a line in its defect, and so the header has been read. -/
theorem exists_ofTable_eq {limit : Nat} {header : Csv.Record} {rows : List Csv.Record} {d : Defect}
    {line : Nat} (hline : d.line? = some line)
    (hfails : ofTable limit (header :: rows) = .error d) :
    ∃ c, ∀ rows, ofTable limit (header :: rows) =
      ofRecords c header.fields.length limit limit rows := by
  rw [ofTable] at hfails
  cases hheader : header.headerTexts with
  | error fault =>
      rw [hheader] at hfails
      cases hfails
      cases hline
  | ok names =>
      rw [hheader] at hfails
      dsimp only at hfails
      cases hnames : columns names with
      | error d' =>
          rw [hnames] at hfails
          cases hfails
          exact (reportsOnlyAt_columns names d hnames line hline).elim
      | ok c =>
          refine ⟨c, fun rows ↦ ?_⟩
          rw [ofTable, hheader]
          dsimp only
          rw [hnames]

theorem exists_failsAt {limit : Nat} {records : List Csv.Record} {d : Defect} {line : Nat}
    (hline : d.line? = some line) (hfails : ofTable limit records = .error d) :
    ∃ k r, records[k]? = some r ∧ FailsAt (ofTable limit) records k d ∧ line = r.line := by
  cases records with
  | nil => exact ((reportsOnlyAt_columns []).map (fun _ ↦ []) d hfails line hline).elim
  | cons header rows =>
      obtain ⟨c, hrows⟩ := exists_ofTable_eq hline hfails
      rw [hrows] at hfails
      obtain ⟨k, r, hr, ⟨hlt, ⟨xs, hxs⟩, hstops⟩, hr'⟩ :=
        (readsInOrder c header.fields.length limit).exists_failsAt hfails
      refine ⟨k + 1, r, hr, ⟨Nat.succ_lt_succ hlt, ⟨xs, ?_⟩, ?_⟩, hr' line hline⟩
      · rw [List.take_succ_cons, hrows, hxs]
      · rw [List.take_succ_cons, hrows, hstops]

end CounterTable

/-! ## Lines of rows -/

/-- The `k`-th record of a table is reported at a line: the one that the record before it ends
on.  It is the line that the record starts on exactly if no line feed is between the two. -/
structure ReportedAt (table : Bytes) (k line : Nat) : Prop where
  exists_place : ∃ before gap, Csv.Stands (Csv.dropMark table).1 k before gap
  line_eq : ∀ before gap, Csv.Stands (Csv.dropMark table).1 k before gap →
    line = 1 + Csv.lineFeeds before
  right_iff : ∀ before gap, Csv.Stands (Csv.dropMark table).1 k before gap →
    (line = 1 + Csv.lineFeeds (before ++ gap) ↔ Csv.lineFeed ∉ gap)

theorem reportedAt_of_record {table : Bytes} {k : Nat} {r : Csv.Record}
    (h : (Csv.records table)[k]? = some r) : ReportedAt table k r.line := by
  obtain ⟨before, gap, hstands, hline⟩ := Csv.exists_stands h
  have hplace : ∀ before' gap', Csv.Stands (Csv.dropMark table).1 k before' gap' →
      r.line = 1 + Csv.lineFeeds before' := by
    intro before' gap' hstands'
    rw [← (hstands.unique hstands').1]
    exact hline
  refine ⟨⟨before, gap, hstands⟩, hplace, fun before' gap' hstands' ↦ ?_⟩
  rw [hplace before' gap' hstands']
  exact Csv.Stands.line_eq_iff before' gap'

/-- A row of timings or of counters that is to blame is reported at the line where the record
before it ends, and so at its own line exactly if no line feed stands between the two. -/
theorem rows_are_reported_where_previous_ended (limit : Nat) (table : Bytes) {d : Defect}
    {line : Nat} (hline : d.line? = some line) :
    (Timings.parse limit table = .error d →
        ∃ k, FailsAt (Timings.ofRecords limit limit) (Csv.records table) k d ∧
          ReportedAt table k line) ∧
      (CounterTable.parse limit table = .error d →
        ∃ k, FailsAt (CounterTable.ofTable limit) (Csv.records table) k d ∧
          ReportedAt table k line) := by
  constructor
  · intro hfails
    obtain ⟨k, r, hr, hstops, hr'⟩ := (Timings.readsInOrder limit).exists_failsAt hfails
    rw [hr' line hline]
    exact ⟨k, hstops, reportedAt_of_record hr⟩
  · intro hfails
    rw [CounterTable.parse_eq_ofTable] at hfails
    obtain ⟨k, r, hr, hstops, rfl⟩ := CounterTable.exists_failsAt hline hfails
    exact ⟨k, hstops, reportedAt_of_record hr⟩

/-- A row of two fields, behind a line end of two bytes and a blank line. -/
def spacedTable : Bytes := Bytes.ofString "a,q,1,1\r\n\nx,q\n"

/-- It is reported at the first line, where the row before it ends, and starts on the third. -/
theorem spacedTable_reported_two_lines_early :
    Timings.parse 9 spacedTable = .error (.width 1 2) ∧
      ∃ before gap, Csv.Stands spacedTable 1 before gap ∧
        1 = 1 + Csv.lineFeeds before ∧ 3 = 1 + Csv.lineFeeds (before ++ gap) := by
  have hrecords : Csv.records spacedTable =
      [⟨["a", "q", "1", "1"].map Bytes.ofString, 0, 1, 0⟩,
        ⟨["x", "q"].map Bytes.ofString, 1, 1, 8⟩] := by
    decide +kernel
  have hfails : Timings.parse 9 spacedTable = .error (.width 1 2) := by
    rw [Timings.parse, hrecords]
    rfl
  refine ⟨hfails, ?_⟩
  obtain ⟨k, hstops, ⟨before, gap, hstands⟩, hplace, -⟩ :=
    (rows_are_reported_where_previous_ended 9 spacedTable rfl).1 hfails
  have hk : k = 1 := by
    have hlt := hstops.lt_length
    have hfails' := hstops.fails
    rw [hrecords] at hlt hfails'
    obtain rfl | rfl : k = 0 ∨ k = 1 := by
      change k < 2 at hlt
      omega
    · cases hfails'
    · rfl
  subst hk
  have hmark : Csv.dropMark spacedTable = (spacedTable, 0) := by decide +kernel
  rw [hmark] at hstands hplace
  have hshown : Csv.Stands spacedTable 1 (Bytes.ofString "a,q,1,1\r") (Bytes.ofString "\n\n") := by
    refine ⟨⟨0x78, Bytes.ofString ",q\n", by decide +kernel, by decide⟩, by decide +kernel, ?_⟩
    exact @Csv.EndsRecords.last (Bytes.ofString "a,q,1,1") 0x0D (by decide +kernel)
  obtain ⟨rfl, rfl⟩ := hstands.unique hshown
  exact ⟨_, _, hstands, hplace _ _ hstands, by decide +kernel⟩

end QueryBench
