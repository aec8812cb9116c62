import QueryBench.Proofs.Configuration.FieldValues
import QueryBench.Proofs.Decimal.Numerals
import QueryBench.Proofs.Results.AppendedTables
import QueryBench.Proofs.Results.CounterReadings
import QueryBench.Proofs.Results.LogNames
import QueryBench.Proofs.Selection.Coverage
import QueryBench.Proofs.Selection.Fastest

/-!
# Scale factors with blank ends

Scale factors in tables, in names of logs and on the command line lose the blanks around them;
those in configurations keep them.  A scale factor with a blank end is none that a table holds,
so nothing is selected at it, its files have other names, and it denotes no number.
-/

namespace QueryBench

open QueryBench.Configuration (ReadsField SetsField map_map withValue text list)

/-! ## Configured scale factors -/

section Configured

variable (dialect : Dialect)

theorem Tear.readsField_scaleFactor :
    ReadsField (Tear.read dialect) "scale_factor" (text dialect)
      fun t s ↦ { t with scaleFactor := ⟨s⟩ } := by
  refine SetsField.readsField ⟨?_, ?_, ?_⟩ (by decide)
  · exact fun _ _ ↦ rfl
  · exact fun _ _ _ ↦ rfl
  · intro n hn t s d
    unfold Tear.set
    split <;> first | exact absurd rfl hn | simp only [map_map] | rfl

theorem PanelRow.readsField_scaleFactors :
    ReadsField (PanelRow.read dialect) "scale_factors" (list (text dialect))
      fun r ss ↦ { r with scaleFactors := ss.map .mk } := by
  refine SetsField.readsField ⟨?_, ?_, ?_⟩ (by decide)
  · exact fun _ _ ↦ rfl
  · exact fun _ _ _ ↦ rfl
  · intro n hn r ss d
    unfold PanelRow.set
    split <;> first | exact absurd rfl hn | simp only [map_map] | rfl

theorem PanelRow.readsField_tears :
    ReadsField (PanelRow.read dialect) "tears" (list (Tear.read dialect))
      fun r ts ↦ { r with tears := ts } := by
  refine SetsField.readsField ⟨?_, ?_, ?_⟩ (by decide)
  · exact fun _ _ ↦ rfl
  · exact fun _ _ _ ↦ rfl
  · intro n hn r ts d
    unfold PanelRow.set
    split <;> first | exact absurd rfl hn | simp only [map_map] | rfl

theorem LatencyFigure.readsField_rows :
    ReadsField (LatencyFigure.read dialect) "rows" (list (PanelRow.read dialect))
      fun f rs ↦ { f with rows := rs } := by
  refine SetsField.readsField ⟨?_, ?_, ?_⟩ (by decide)
  · exact fun _ _ ↦ rfl
  · exact fun _ _ _ ↦ rfl
  · intro n hn f rs d
    unfold LatencyFigure.set
    split <;> first | exact absurd rfl hn | simp only [map_map] | rfl

theorem ThroughputFigure.readsField_scaleFactor :
    ReadsField (ThroughputFigure.read dialect) "scale_factor" (text dialect)
      fun f s ↦ { f with scaleFactor := ⟨s⟩ } := by
  refine SetsField.readsField ⟨?_, ?_, ?_⟩ (by decide)
  · exact fun _ _ ↦ rfl
  · exact fun _ _ _ ↦ rfl
  · intro n hn f s d
    unfold ThroughputFigure.set
    split <;> first | exact absurd rfl hn | simp only [map_map] | rfl

/-! ### Documents with scale factors -/

/-- A tear. -/
def plainTear : List (String × Document) :=
  [("lower", .number "1"), ("max", .number "1"), ("scale_factor", .text "1"),
    ("upper", .number "1")]

/-- A row of panels for one scale factor. -/
def plainRow : List (String × Document) :=
  [("scale_factors", .list [.text "1"]), ("unit", .text "seconds")]

/-- A latency figure of rows of panels. -/
def figureOf (rows : List (List (String × Document))) : List (String × Document) :=
  [("engines", .list []), ("name", .text "main"), ("queries", .list []),
    ("rows", .list (rows.map .object))]

/-- A throughput figure. -/
def plainFigure : List (String × Document) :=
  [("baseline", .text "duckdb"), ("engines", .list []), ("name", .text "main"),
    ("queries", .list []), ("scale_factor", .text "1")]

theorem read_plainTear :
    Tear.read dialect (.object plainTear) = .ok ⟨⟨"1"⟩, 1, 1, 1, none⟩ := by
  have hone : Configuration.real (.number "1") = .ok 1 := by
    have hfloat : Numeral.float? "1" = some 1 := by decide +kernel
    rw [Configuration.real, hfloat]
    exact if_pos (by decide +kernel)
  refine Configuration.record_of_sorted (by decide) (by decide) (by decide) (by decide) ?_
  simp [plainTear, Configuration.setAll, Tear.set, hone, text, Except.map]

theorem read_plainRow :
    PanelRow.read dialect (.object plainRow) = .ok ⟨[⟨"1"⟩], .seconds, [], 1⟩ := by
  refine Configuration.record_of_sorted (by decide) (by decide) (by decide) (by decide) ?_
  rfl

theorem read_figureOf_plainRow :
    LatencyFigure.read dialect (.object (figureOf [plainRow])) =
      .ok { LatencyFigure.blank with name := "main", rows := [⟨[⟨"1"⟩], .seconds, [], 1⟩] } := by
  refine Configuration.record_of_sorted (by decide) (by decide) (by decide) (by decide) ?_
  simp [figureOf, Configuration.setAll, LatencyFigure.set, list, Configuration.each, text,
    read_plainRow, Except.map, LatencyFigure.blank]

theorem read_plainFigure :
    ThroughputFigure.read dialect (.object plainFigure) =
      .ok { ThroughputFigure.blank with
        name := "main", baseline := "duckdb", scaleFactor := ⟨"1"⟩ } := by
  refine Configuration.record_of_sorted (by decide) (by decide) (by decide) (by decide) ?_
  rfl

/-- The row for another scale factor. -/
def rowFor (s : String) : List (String × Document) :=
  withValue "scale_factors" (.list [.text s]) plainRow

theorem read_rowFor (s : String) :
    PanelRow.read dialect (.object (rowFor s)) = .ok ⟨[⟨s⟩], .seconds, [], 1⟩ :=
  PanelRow.readsField_scaleFactors dialect plainRow _ _ [s] (read_plainRow dialect) (by decide) rfl

theorem read_figureOf_rowFor (s : String) :
    LatencyFigure.read dialect (.object (figureOf [rowFor s])) =
      .ok { LatencyFigure.blank with name := "main", rows := [⟨[⟨s⟩], .seconds, [], 1⟩] } := by
  refine LatencyFigure.readsField_rows dialect (figureOf [plainRow]) _ (.list [.object (rowFor s)])
    _ (read_figureOf_plainRow dialect) (by decide) ?_
  rw [list, Configuration.each, read_rowFor]
  rfl

/-- Configurations of each kind are read that have the scale factor. -/
structure ScaleFactor.IsConfigurable (sf : ScaleFactor) : Prop where
  tear : ∃ d t, Tear.read dialect d = .ok t ∧ t.scaleFactor = sf
  row : ∃ d f, LatencyFigure.read dialect d = .ok f ∧ f.rows.map (·.scaleFactors) = [[sf]]
  figure : ∃ d f, ThroughputFigure.read dialect d = .ok f ∧ f.scaleFactor = sf

/-- Every text is a scale factor of some configuration. -/
theorem ScaleFactor.isConfigurable (sf : ScaleFactor) : sf.IsConfigurable dialect where
  tear := ⟨_, _, Tear.readsField_scaleFactor dialect plainTear _ (.text sf.label) sf.label
    (read_plainTear dialect) (by decide) rfl, rfl⟩
  row := ⟨_, _, read_figureOf_rowFor dialect sf.label, rfl⟩
  figure := ⟨_, _, ThroughputFigure.readsField_scaleFactor dialect plainFigure _ (.text sf.label)
    sf.label (read_plainFigure dialect) (by decide) rfl, rfl⟩

/-- Scale factors are read from configurations as they stand, and nothing else of a tear, a row or
a figure changes with them. -/
structure KeepsLabels : Prop where
  tear : ReadsField (Tear.read dialect) "scale_factor" (text dialect)
    fun t s ↦ { t with scaleFactor := ⟨s⟩ }
  row : ReadsField (PanelRow.read dialect) "scale_factors" (list (text dialect))
    fun r ss ↦ { r with scaleFactors := ss.map .mk }
  tears : ReadsField (PanelRow.read dialect) "tears" (list (Tear.read dialect))
    fun r ts ↦ { r with tears := ts }
  rows : ReadsField (LatencyFigure.read dialect) "rows" (list (PanelRow.read dialect))
    fun f rs ↦ { f with rows := rs }
  figure : ReadsField (ThroughputFigure.read dialect) "scale_factor" (text dialect)
    fun f s ↦ { f with scaleFactor := ⟨s⟩ }

theorem keepsLabels : KeepsLabels dialect where
  tear := Tear.readsField_scaleFactor dialect
  row := PanelRow.readsField_scaleFactors dialect
  tears := PanelRow.readsField_tears dialect
  rows := LatencyFigure.readsField_rows dialect
  figure := ThroughputFigure.readsField_scaleFactor dialect

end Configured

/-! ## Trimmed scale factors -/

/-- The label has no blank ends. -/
def ScaleFactor.IsTrimmed (sf : ScaleFactor) : Prop := Text.trim sf.label = sf.label

theorem ScaleFactor.isTrimmed_ofText (s : String) : (ofText s).IsTrimmed := Text.trim_trim s

theorem ScaleFactor.eq_ofText_iff {s : String} :
    (⟨s⟩ : ScaleFactor) = ofText s ↔ Text.trim s = s := by
  rw [ofText, ScaleFactor.mk.injEq, eq_comm]

theorem Timings.isTrimmed_of_reads {records : List (List Bytes)} {trials : List Trial}
    (h : Reads records trials) : ∀ t ∈ trials, t.group.scaleFactor.IsTrimmed := by
  induction h with
  | nil => exact fun _ ht ↦ absurd ht List.not_mem_nil
  | blank _ _ ih => exact ih
  | row _ htrial _ ih =>
      obtain ⟨sf, -, -, -, hsf, -⟩ := columns_of_trial htrial
      exact List.forall_mem_cons.mpr ⟨hsf ▸ ScaleFactor.isTrimmed_ofText sf, ih⟩

theorem Timings.isTrimmed_of_read {fs : FileSystem} {limit : Nat} {path : String}
    {trials : List Trial} (h : read fs limit path = .ok trials) :
    ∀ t ∈ trials, t.group.scaleFactor.IsTrimmed := by
  cases hread : fs.read path with
  | error fault =>
      rw [read, hread] at h
      cases h
  | ok bytes => exact isTrimmed_of_reads (parse_eq_ok_iff.mp ((read_eq_ok_iff hread).mp h)).1

theorem CounterTable.isTrimmed_of_readsAs {names : List String} {rows : List Csv.Record}
    {samples : List Sample} (h : List.Forall₂ (ReadsAs names) rows samples) :
    ∀ s ∈ samples, s.group.scaleFactor.IsTrimmed := by
  induction h with
  | nil => exact fun _ hs ↦ absurd hs List.not_mem_nil
  | cons hrow _ ih =>
      obtain ⟨texts, -, -, hsample⟩ := hrow
      obtain ⟨label, -, hlabel⟩ := hsample.scaleFactor
      exact List.forall_mem_cons.mpr ⟨hlabel ▸ ScaleFactor.isTrimmed_ofText label, ih⟩

theorem CounterTable.isTrimmed_of_read {fs : FileSystem} {limit : Nat} {path : String}
    {samples : List Sample} (h : read fs limit path = .ok samples) :
    ∀ s ∈ samples, s.group.scaleFactor.IsTrimmed := by
  rw [read] at h
  cases hread : fs.read path with
  | error fault =>
      rw [hread] at h
      cases h
  | ok bytes =>
      rw [hread] at h
      dsimp only [parseFrom] at h
      cases hparse : parse limit bytes with
      | error defect =>
          rw [hparse] at h
          cases h
      | ok samples' =>
          rw [hparse] at h
          obtain rfl := Except.ok.inj h
          obtain ⟨names, rows, -, -, hrows⟩ := parse_eq_ok_iff.mp hparse
          exact isTrimmed_of_readsAs hrows

theorem UmbraLog.isTrimmed_of_ofName? {name : String} {log : UmbraLog}
    (h : ofName? name = some log) : log.scaleFactor.IsTrimmed :=
  (spells_of_ofName? h).trim_label

/-! ## What blank ends keep apart -/

theorem selectAll_of_isTrimmed {trials : List Trial}
    (h : ∀ t ∈ trials, t.group.scaleFactor.IsTrimmed) {sf : ScaleFactor} (hsf : ¬ sf.IsTrimmed)
    (engine query : String) : (⟨engine, query, sf⟩ : Group) ∉ selectAll trials := by
  rw [mem_selectAll_iff]
  rintro ⟨t, ht, hgroup⟩
  have htrimmed := h t ht
  rw [hgroup] at htrimmed
  exact hsf htrimmed

theorem queriesFor_of_isTrimmed {trials : List Trial}
    (h : ∀ t ∈ trials, t.group.scaleFactor.IsTrimmed) {sf : ScaleFactor} (hsf : ¬ sf.IsTrimmed)
    (engine : String) : (selectAll trials).queriesFor engine sf = [] := by
  rw [List.eq_nil_iff_forall_not_mem]
  intro query hquery
  exact selectAll_of_isTrimmed h hsf engine query (SelectionIndex.mem_queriesFor.mp hquery)

theorem Path.join_append_inj {base front x y : String} (hfront : front ≠ "")
    (h : join base (front ++ x) = join base (front ++ y)) : x = y := by
  have hhead : ∀ z, isAbsolute (front ++ z) = isAbsolute front := by
    intro z
    rw [isAbsolute, isAbsolute, String.toList_append, List.head?_append_of_ne_nil]
    simpa using hfront
  rw [join, join, hhead, hhead] at h
  have hcancel : ∀ {u v w : String}, u ++ v = u ++ w → v = w := fun {u v w} huvw ↦ by
    have := congrArg String.toList huvw
    simpa [String.toList_inj] using this
  split at h
  · exact hcancel h
  · split at h
    · exact hcancel (hcancel h)
    · exact hcancel (hcancel h)

theorem ScaleFactor.eq_of_label_append {sf sf' : ScaleFactor} {suffix : String}
    (h : sf.label ++ suffix = sf'.label ++ suffix) : sf = sf' := by
  have htext := congrArg String.toList h
  rw [String.toList_append, String.toList_append] at htext
  exact congrArg ScaleFactor.mk (String.toList_injective (List.append_cancel_right htext))

namespace ResultLayout

theorem timingPath_inj {l : ResultLayout} {engine : String} {sf sf' : ScaleFactor}
    (h : l.timingPath engine sf = l.timingPath engine sf') : sf = sf' := by
  have hname : ∀ sf : ScaleFactor, timingFileName engine sf =
      ("result_" ++ engine ++ "_") ++ (sf.label ++ ".csv") := by
    intro sf
    rw [← String.append_assoc]
    rfl
  rw [timingPath, timingPath, hname, hname] at h
  exact ScaleFactor.eq_of_label_append (Path.join_append_inj (by simp) h)

theorem counterPath_inj {l : ResultLayout} {sf sf' : ScaleFactor}
    (h : l.counterPath sf = l.counterPath sf') : sf = sf' := by
  have hname : ∀ sf : ScaleFactor, l.counterPath sf =
      Path.join l.primary ((l.counterStem ++ "_") ++ (sf.label ++ ".csv")) := by
    intro sf
    rw [← String.append_assoc, counterPath]
    rfl
  rw [hname, hname] at h
  exact ScaleFactor.eq_of_label_append (Path.join_append_inj (by simp) h)

end ResultLayout

/-! ## Numerals -/

theorem Text.isBlank_of_toLower {c : Char} (h : isBlank c.toLower = false) :
    isBlank c = false := by
  rw [Char.toLower] at h
  split at h
  · rename_i hupper
    have hlow : 65 ≤ c.toNat := hupper.1
    have hhigh : c.toNat ≤ 90 := hupper.2
    exact isBlank_eq_false (by omega) (by omega)
  · exact h

namespace Numeral

theorem isBlank_of_isDigit {c : Char} (h : c.isDigit = true) : Text.isBlank c = false := by
  have := UmbraLog.isDigit_bounds h
  exact Text.isBlank_eq_false (by omega) (by omega)

theorem SpellsSign.isBlank_eq_false {cs : List Char} {negative : Bool}
    (h : SpellsSign cs negative) : ∀ c ∈ cs, Text.isBlank c = false := by
  cases h with
  | none => exact fun _ hc ↦ absurd hc List.not_mem_nil
  | plus => exact List.forall_mem_singleton.mpr (by decide)
  | minus => exact List.forall_mem_singleton.mpr (by decide)

theorem SpellsExponent.isBlank_eq_false {cs : List Char} {e : ℤ} (h : SpellsExponent cs e) :
    ∀ c ∈ cs, Text.isBlank c = false := by
  cases h with
  | none => exact fun _ hc ↦ absurd hc List.not_mem_nil
  | some hmark hsign _ hdigits =>
      refine List.forall_mem_cons.mpr ⟨?_, List.forall_mem_append.mpr ⟨?_, ?_⟩⟩
      · rcases hmark with rfl | rfl <;> decide
      · exact hsign.isBlank_eq_false
      · exact fun c hc ↦ isBlank_of_isDigit (hdigits c hc)

theorem SpellsFraction.isBlank_eq_false {cs part : List Char} (h : SpellsFraction cs part) :
    ∀ c ∈ cs, Text.isBlank c = false := by
  cases h with
  | none => exact fun _ hc ↦ absurd hc List.not_mem_nil
  | point hdigits =>
      exact List.forall_mem_cons.mpr ⟨by decide, fun c hc ↦ isBlank_of_isDigit (hdigits c hc)⟩

theorem SpellsWord.isBlank_eq_false {cs : List Char} {negative : Bool} {numeral : Numeral}
    (h : SpellsWord cs negative numeral) : ∀ c ∈ cs, Text.isBlank c = false := by
  have hlower : (cs.map Char.toLower).all (fun c ↦ !Text.isBlank c) = true := by
    rcases h with hword | hword | hword <;> rw [hword] <;> decide
  intro c hc
  have hvisible := List.all_eq_true.mp hlower c.toLower (List.mem_map_of_mem hc)
  exact Text.isBlank_of_toLower (Bool.not_eq_true' _ ▸ hvisible)

/-- Nothing in a numeral is blank. -/
theorem Denotes.isBlank_eq_false {cs : List Char} {numeral : Numeral} (h : Denotes cs numeral) :
    ∀ c ∈ cs, Text.isBlank c = false := by
  rcases h with ⟨⟨hsign, hwhole, hpoint, -, hexponent⟩⟩ | ⟨hsign, hword⟩
  · simp only [List.forall_mem_append]
    exact ⟨⟨⟨hsign.isBlank_eq_false, fun c hc ↦ isBlank_of_isDigit (hwhole c hc)⟩,
      hpoint.isBlank_eq_false⟩, hexponent.isBlank_eq_false⟩
  · exact List.forall_mem_append.mpr ⟨hsign.isBlank_eq_false, hword.isBlank_eq_false⟩

end Numeral

theorem ScaleFactor.factor_of_not_isTrimmed {sf : ScaleFactor} (h : ¬ sf.IsTrimmed) :
    sf.factor = .error .notANumber := by
  have hnone : Numeral.float? sf.label = none := by
    rw [Numeral.float?, Option.map_eq_none_iff, Numeral.parse?_eq_none_iff]
    intro numeral hdenotes
    have htrim := Text.trim_eq_self_of_not_blank hdenotes.isBlank_eq_false
    rw [String.ofList_toList] at htrim
    exact h htrim
  rw [factor, hnone]

/-! ## Configured labels -/

/-- What is read as the scale factor of a tear, a row of panels or a figure is taken as it
stands, so every text is one.  Scale factors of timing tables, of counter tables, of logs and of a
command line are trimmed, so a configured one is the same as one of these exactly if it has no
blank ends.  At one that has, tables have no selections whatever they hold; its tables are looked
for under other names, and it denotes no number. -/
theorem configured_labels_keep_blanks (dialect : Dialect) :
    KeepsLabels dialect ∧
    (∀ fs limit path trials, Timings.read fs limit path = .ok trials →
      ∀ t ∈ trials, t.group.scaleFactor.IsTrimmed) ∧
    (∀ fs limit path samples, CounterTable.read fs limit path = .ok samples →
      ∀ s ∈ samples, s.group.scaleFactor.IsTrimmed) ∧
    (∀ name log, UmbraLog.ofName? name = some log → log.scaleFactor.IsTrimmed) ∧
    ∀ s : String, ScaleFactor.IsConfigurable dialect ⟨s⟩ ∧ (ScaleFactor.ofText s).IsTrimmed ∧
      ((⟨s⟩ : ScaleFactor) = .ofText s ↔ Text.trim s = s) ∧
      (Text.trim s ≠ s →
        (∀ trials, (∀ t ∈ trials, t.group.scaleFactor.IsTrimmed) → ∀ engine,
          (selectAll trials).queriesFor engine ⟨s⟩ = [] ∧
            ∀ query, (⟨engine, query, ⟨s⟩⟩ : Group) ∉ selectAll trials) ∧
        (∀ (l : ResultLayout) engine,
          l.timingPath engine ⟨s⟩ ≠ l.timingPath engine (.ofText s) ∧
            l.counterPath ⟨s⟩ ≠ l.counterPath (.ofText s)) ∧
        (⟨s⟩ : ScaleFactor).factor = .error .notANumber) := by
  refine ⟨keepsLabels dialect, fun _ _ _ _ ↦ Timings.isTrimmed_of_read,
    fun _ _ _ _ ↦ CounterTable.isTrimmed_of_read, fun _ _ ↦ UmbraLog.isTrimmed_of_ofName?,
    fun s ↦ ⟨ScaleFactor.isConfigurable dialect ⟨s⟩, ScaleFactor.isTrimmed_ofText s,
      ScaleFactor.eq_ofText_iff, fun hs ↦ ?_⟩⟩
  have hne : (⟨s⟩ : ScaleFactor) ≠ .ofText s := mt ScaleFactor.eq_ofText_iff.mp hs
  refine ⟨fun trials htrials engine ↦ ⟨?_, fun query ↦ ?_⟩, fun l engine ↦ ⟨?_, ?_⟩, ?_⟩
  · exact queriesFor_of_isTrimmed htrials hs engine
  · exact selectAll_of_isTrimmed htrials hs engine query
  · exact mt ResultLayout.timingPath_inj hne
  · exact mt ResultLayout.counterPath_inj hne
  · exact ScaleFactor.factor_of_not_isTrimmed hs

/-- A trial for the scale factor that the row names with a blank before it. -/
def spacedTrial : Trial := ⟨⟨"duckdb", "q1", .ofText " 1"⟩, ⟨7, none, none⟩⟩

/-- A blank before a scale factor gets into the figure, which then shows nothing of its table. -/
theorem spacedRow_shows_nothing :
    ∃ r, PanelRow.read .file (.object (rowFor " 1")) = .ok r ∧ r.scaleFactors = [⟨" 1"⟩] ∧
      (∀ query, (⟨"duckdb", query, ⟨" 1"⟩⟩ : Group) ∉ selectAll [spacedTrial]) ∧
      (⟨"duckdb", "q1", .ofText " 1"⟩ : Group) ∈ selectAll [spacedTrial] ∧
      (⟨" 1"⟩ : ScaleFactor) ≠ .ofText " 1" ∧
      (⟨" 1"⟩ : ScaleFactor).factor = .error .notANumber := by
  obtain ⟨hkeeps, -, -, -, hlabels⟩ := configured_labels_keep_blanks .file
  obtain ⟨-, htrimmed, hequal, hpadded⟩ := hlabels " 1"
  have hblank : Text.trim " 1" ≠ " 1" := by decide
  obtain ⟨hselected, -, hfactor⟩ := hpadded hblank
  have hrow := hkeeps.row plainRow _ (.list [.text " 1"]) [" 1"] (read_plainRow .file)
    (by decide) rfl
  refine ⟨_, hrow, rfl, ?_, ?_, ?_, hfactor⟩
  · refine (hselected [spacedTrial] ?_ "duckdb").2
    exact List.forall_mem_singleton.mpr htrimmed
  · exact mem_selectAll_iff.mpr ⟨spacedTrial, List.mem_singleton_self _, rfl⟩
  · exact fun h ↦ hblank (hequal.mp h)

end QueryBench
