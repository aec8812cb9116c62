import QueryBench.LatencyFigure.Layout
import QueryBench.Proofs.Chart.Consistency
import QueryBench.Proofs.QueryRules.Survivors
import QueryBench.Proofs.Selection.Fastest

/-!
# Where the bars of a latency figure come from

A bar passes through four stages: relabelling, selection, the queries of the figure
and the layout of a panel.  Through all of them it remains the picture of a single
raw row, the first of the fastest in the raw group behind the display id.
-/

namespace QueryBench

variable {α : Type}

/-! ## Valid figures -/

theorem QueryRules.mem_displayIds {r : QueryRules} {ids : List String} {d : String} :
    d ∈ r.displayIds ids ↔ ∃ id ∈ ids, r.displayId? id = some d := by
  simp [displayIds, Std.ExtTreeSet.mem_toList, Std.ExtTreeSet.mem_ofList]

namespace LatencyFigure

variable {f : LatencyFigure α}

/-- The queries that a panel has groups for. -/
def queriesOf (f : LatencyFigure α) : PanelKind → List String
  | .main => f.mainQueries
  | .overflow => f.outlierQuery.toList

theorem mem_expectedQueries_of_mem_queriesOf {kind : PanelKind} {d : String}
    (h : d ∈ f.queriesOf kind) : d ∈ f.expectedQueries := by
  cases kind with
  | main => exact List.mem_append_left _ h
  | overflow => exact List.mem_append_right _ h

/-- Every query of a figure is the display id of some raw id. -/
theorem exists_displayId?_of_mem_expectedQueries {d : String} (h : d ∈ f.expectedQueries) :
    ∃ id, f.rules.displayId? id = some d := by
  rcases List.mem_append.mp h with hmain | houtlier
  · have hmem := (List.mem_filter.mp hmain).1
    obtain ⟨id, -, hid⟩ := QueryRules.mem_displayIds.mp hmem
    exact ⟨id, hid⟩
  · have hquery : f.outlierQuery = some d := by simpa using houtlier
    obtain ⟨o, -, ho⟩ := Option.bind_eq_some_iff.mp hquery
    exact ⟨o.query, ho⟩

theorem nodup_engineTags [Scalar α] (h : f.fault? = none) : f.engineTags.Nodup := by
  have hnone := List.findSome?_eq_none_iff.mp h (EngineStyle.faults? [] f.engines) (by simp)
  exact (EngineStyle.faults?_eq_none_iff.mp hnone).2.1

/-! ## Bars of one engine -/

theorem filter_filterMap_zipIdx_of_notMem {tag : String} {engines : List EngineStyle}
    (h : tag ∉ engines.map (·.tag)) {bar : EngineStyle × Nat → Option (Bar α)}
    (hbar : ∀ p b, bar p = some b → b.engine = p.1.tag) (n : Nat) :
    ((engines.zipIdx n).filterMap bar).filter (fun b ↦ b.engine = tag) = [] := by
  rw [List.filter_eq_nil_iff]
  intro b hb
  obtain ⟨p, hp, hpb⟩ := List.mem_filterMap.mp hb
  have hmem : p.1 ∈ engines := List.fst_mem_of_mem_zipIdx hp
  intro hengine
  apply h
  refine List.mem_map.mpr ⟨p.1, hmem, ?_⟩
  rw [← hbar p b hpb]
  simpa using hengine

/-- Where engines are told apart by their tags, the bars under one tag are those made
for its engine. -/
theorem filter_filterMap_zipIdx {engines : List EngineStyle}
    (hnodup : (engines.map (·.tag)).Nodup) {e : EngineStyle} (he : e ∈ engines)
    {bar : EngineStyle × Nat → Option (Bar α)}
    (hbar : ∀ p b, bar p = some b → b.engine = p.1.tag) (n : Nat) :
    ∃ k, ((engines.zipIdx n).filterMap bar).filter (fun b ↦ b.engine = e.tag) =
      (bar (e, k)).toList := by
  induction engines generalizing n with
  | nil => cases he
  | cons a rest ih =>
      rw [List.map_cons, List.nodup_cons] at hnodup
      rw [List.zipIdx_cons, List.filterMap_cons]
      rcases List.mem_cons.mp he with rfl | he
      · have hrest := filter_filterMap_zipIdx_of_notMem hnodup.1 hbar (n + 1)
        refine ⟨n, ?_⟩
        cases hb : bar (e, n) with
        | none => simpa using hrest
        | some b =>
            have hengine : b.engine = e.tag := hbar (e, n) b hb
            simp [hengine, hrest]
      · obtain ⟨k, hk⟩ := ih hnodup.2 he (n + 1)
        refine ⟨k, ?_⟩
        cases hb : bar (a, n) with
        | none => exact hk
        | some b =>
            have hengine : b.engine ≠ e.tag := by
              rw [hbar (a, n) b hb]
              exact fun htag ↦ hnodup.1 (htag ▸ List.mem_map_of_mem he)
            simpa [hengine] using hk

variable [Scalar α] (index : SelectionIndex)

theorem engine_mem_of_mem_groupBars {sf : ScaleFactor} {unit : DisplayUnit}
    {axis : Option (BrokenAxis α)} {x : α} {query : String} {b : Bar α}
    (hb : b ∈ f.groupBars index sf unit axis x query) : b.engine ∈ f.engineTags := by
  obtain ⟨p, hp, hpb⟩ := List.mem_filterMap.mp hb
  obtain ⟨s, -, rfl⟩ := Option.map_eq_some_iff.mp hpb
  exact List.mem_map_of_mem (List.fst_mem_of_mem_zipIdx hp)

/-- The bars of an engine in a group are the bar of its selection, if there is one. -/
theorem filter_groupBars (hnodup : f.engineTags.Nodup) {e : EngineStyle} (he : e ∈ f.engines)
    (sf : ScaleFactor) (unit : DisplayUnit) (axis : Option (BrokenAxis α)) (x : α)
    (query : String) :
    ∃ center, (f.groupBars index sf unit axis x query).filter (fun b ↦ b.engine = e.tag) =
      ((index[(⟨e.tag, query, sf⟩ : Group)]?).map
        (Bar.ofSelection e center f.barWidth unit (unit.latency f.floorMs) axis)).toList := by
  have hbar : ∀ (p : EngineStyle × Nat) (b : Bar α),
      (index[(⟨p.1.tag, query, sf⟩ : Group)]?).map
        (Bar.ofSelection p.1 (barCenter x f.barWidth f.engines.length p.2) f.barWidth unit
          (unit.latency f.floorMs) axis) = some b → b.engine = p.1.tag := by
    intro p b hb
    obtain ⟨s, -, rfl⟩ := Option.map_eq_some_iff.mp hb
    rfl
  obtain ⟨k, hk⟩ := filter_filterMap_zipIdx hnodup he hbar 0
  exact ⟨barCenter x f.barWidth f.engines.length k, hk⟩

/-! ## Groups and panels -/

theorem mem_groups {sf : ScaleFactor} {unit : DisplayUnit} {axis : Option (BrokenAxis α)}
    {queries : List String} {g : BarGroup α} (h : g ∈ f.groups index sf unit axis queries) :
    g.query ∈ queries ∧ ∃ x, g.bars = f.groupBars index sf unit axis x g.query := by
  obtain ⟨⟨query, slot⟩, hmem, rfl⟩ := List.mem_map.mp h
  exact ⟨List.fst_mem_of_mem_zipIdx hmem, slotCenter f.slotSpacing slot, rfl⟩

theorem map_query_groups (sf : ScaleFactor) (unit : DisplayUnit) (axis : Option (BrokenAxis α))
    (queries : List String) :
    (f.groups index sf unit axis queries).map (·.query) = queries := by
  simp [groups, List.map_map, Function.comp_def]

/-- A panel shows the queries of its kind, at its scale factor and in its unit. -/
theorem groups_of_mem_panels {p : Panel α} (h : p ∈ f.panels index) :
    p.groups = f.groups index p.scaleFactor p.unit p.axis (f.queriesOf p.kind) := by
  obtain ⟨⟨r, row⟩, -, hrow⟩ := List.mem_flatMap.mp h
  obtain ⟨⟨sf, position⟩, -, hsf⟩ := List.mem_flatMap.mp hrow
  rcases List.mem_cons.mp hsf with rfl | houtlier
  · rfl
  · obtain ⟨q, hq, rfl⟩ := List.mem_map.mp houtlier
    have hquery : f.outlierQuery = some q := by simpa using hq
    simp [panel, queriesOf, hquery]

end LatencyFigure

/-! ## Selections of relabelled rows -/

namespace QueryRules

variable {r : QueryRules}

theorem faster_shown (t u : Trial) :
    Selection.faster (r.shown t) (r.shown u) = r.shown (Selection.faster t u) := by
  unfold Selection.faster
  rw [shown_reading, shown_reading, apply_ite r.shown]

theorem foldl_faster_shown (t : Trial) (rest : List Trial) :
    (rest.map r.shown).foldl Selection.faster (r.shown t) =
      r.shown (rest.foldl Selection.faster t) := by
  induction rest generalizing t with
  | nil => rfl
  | cons u rest ih => rw [List.map_cons, List.foldl_cons, faster_shown, ih, List.foldl_cons]

/-- A display group selects what the raw group behind it selects. -/
theorem select_relabel (hr : r.Sound) {id d : String} (h : r.displayId? id = some d)
    (engine : String) (sf : ScaleFactor) (rows : List Trial) :
    select (r.relabel rows).rows ⟨engine, d, sf⟩ =
      (select rows ⟨engine, r.rawId d, sf⟩).map fun s ↦ ⟨r.shown s.trial, s.trials⟩ := by
  unfold select
  rw [filter_group_relabel hr h]
  cases rows.filter fun t ↦ t.group = ⟨engine, r.rawId d, sf⟩ with
  | nil => rfl
  | cons t rest => simp [foldl_faster_shown]

end QueryRules

namespace LatencyFigure

variable {f : LatencyFigure α} [Scalar α]

/-- The value and the stall of a bar are those of the trial selected. -/
theorem value_and_stall_ofSelection (e : EngineStyle) (x width floor : α) (unit : DisplayUnit)
    (axis : Option (BrokenAxis α)) (s : Selection) :
    (Bar.ofSelection e x width unit floor axis s).value =
        unit.latency (Scalar.ofNat s.trial.reading.latencyMs.toNat) ∧
      (Bar.ofSelection e x width unit floor axis s).stall =
        (s.trial.reading.stallUs.map unit.stall).getD 0 := by
  refine ⟨rfl, ?_⟩
  cases h : s.trial.reading.stallUs with
  | none => simp [Bar.ofSelection, Selection.stallUs, h]
  | some us => simp [Bar.ofSelection, Selection.stallUs, h]

/-- What the bars of an engine in a group show: nothing where the raw group has no
row, and else the first of its fastest rows, in one bar. -/
theorem filter_groupBars_relabel (hr : f.rules.Sound) (hnodup : f.engineTags.Nodup)
    {id d : String} (hd : f.rules.displayId? id = some d) {e : EngineStyle}
    (he : e ∈ f.engines) (sf : ScaleFactor) (unit : DisplayUnit)
    (axis : Option (BrokenAxis α)) (x : α) (rows : List Trial) :
    let raw := rows.filter fun t ↦ t.group = ⟨e.tag, f.rules.rawId d, sf⟩
    let bars := (f.groupBars (selectAll (f.rules.relabel rows).rows) sf unit axis x d).filter
      fun b ↦ b.engine = e.tag
    (raw = [] → bars = []) ∧
      (raw ≠ [] → ∃ t b, IsFirstFastest raw t ∧ bars = [b] ∧
        b.value = unit.latency (Scalar.ofNat t.reading.latencyMs.toNat) ∧
        b.stall = (t.reading.stallUs.map unit.stall).getD 0) := by
  intro raw bars
  obtain ⟨center, hbars⟩ := filter_groupBars (selectAll (f.rules.relabel rows).rows) hnodup he
    sf unit axis x d
  rw [getElem?_selectAll_eq, QueryRules.select_relabel hr hd] at hbars
  cases hselect : select rows ⟨e.tag, f.rules.rawId d, sf⟩ with
  | none =>
      have hraw : raw = [] := (select_eq_none_iff rows _).mp hselect
      rw [hselect] at hbars
      exact ⟨fun _ ↦ hbars, fun hne ↦ absurd hraw hne⟩
  | some s =>
      have hfastest : IsFirstFastest raw s.trial := (select_spec hselect).1
      rw [hselect] at hbars
      refine ⟨fun hnil ↦ ?_, fun _ ↦ ?_⟩
      · have hmem := hfastest.mem
        rw [hnil] at hmem
        cases hmem
      · obtain ⟨hvalue, hstall⟩ := value_and_stall_ofSelection e center f.barWidth
          (unit.latency f.floorMs) unit axis ⟨f.rules.shown s.trial, s.trials⟩
        exact ⟨s.trial, _, hfastest, hbars, hvalue, hstall⟩

/-- Every bar of a figure shows one raw row.  In each panel and for each of its queries, an
engine has exactly one bar if the raw group behind the display id has a row, and none
otherwise; the bar shows the first of the fastest rows of that group.  Rows that are
excluded or whose raw id is another query's display id take no part in the layout. -/
theorem layout_shows_first_fastest_raw_rows {excluded : List String}
    {renamings : List (String × String)}
    (haccepted : QueryRules.ofLists excluded renamings = .ok f.rules)
    (hvalid : f.fault? = none) (rows : List Trial) :
    ∃ l, f.layout (selectAll (f.rules.relabel rows).rows) = .ok l ∧
      f.layout (selectAll (f.rules.relabel (f.rules.survivors rows)).rows) = .ok l ∧
      ∀ p ∈ l.panels, p.groups.map (·.query) = f.queriesOf p.kind ∧ ∀ g ∈ p.groups,
        f.rules.survives (f.rules.rawId g.query) = true ∧
        (∀ b ∈ g.bars, b.engine ∈ f.engineTags) ∧
        ∀ e ∈ f.engines,
          let raw := rows.filter fun t ↦
            t.group = ⟨e.tag, f.rules.rawId g.query, p.scaleFactor⟩
          let bars := g.bars.filter fun b ↦ b.engine = e.tag
          (raw = [] → bars = []) ∧
            (raw ≠ [] → ∃ t b, IsFirstFastest raw t ∧ bars = [b] ∧
              b.value = p.unit.latency (Scalar.ofNat t.reading.latencyMs.toNat) ∧
              b.stall = (t.reading.stallUs.map p.unit.stall).getD 0) := by
  have hr := QueryRules.sound_of_ofLists haccepted
  have hnodup := nodup_engineTags hvalid
  rw [QueryRules.relabel_survivors_rows]
  unfold layout
  rw [hvalid]
  refine ⟨_, rfl, rfl, ?_⟩
  intro p hp
  have hgroups := groups_of_mem_panels _ hp
  refine ⟨by rw [hgroups, map_query_groups], ?_⟩
  intro g hg
  rw [hgroups] at hg
  obtain ⟨hquery, x, hbars⟩ := mem_groups _ hg
  obtain ⟨id, hid⟩ := exists_displayId?_of_mem_expectedQueries
    (mem_expectedQueries_of_mem_queriesOf hquery)
  refine ⟨(QueryRules.survives_rawId hr hid).1, ?_, ?_⟩
  · intro b hb
    rw [hbars] at hb
    exact engine_mem_of_mem_groupBars _ hb
  · intro e he
    rw [hbars]
    exact filter_groupBars_relabel hr hnodup hid he p.scaleFactor p.unit p.axis x rows

/-- Three trials of query 13, of which the second is the first of the fastest, between
rows that only seem to belong to it and a row of an excluded query. -/
def crowdedTrials : List Trial :=
  [⟨⟨"duckdb", "q13", ⟨"1"⟩⟩, ⟨7, some 10, none⟩⟩, ⟨⟨"duckdb", "q87", ⟨"1"⟩⟩, ⟨1, none, none⟩⟩,
    ⟨⟨"duckdb", "l_count", ⟨"1"⟩⟩, ⟨2, none, none⟩⟩,
    ⟨⟨"duckdb", "q13", ⟨"1"⟩⟩, ⟨5, some 40, none⟩⟩, ⟨⟨"duckdb", "q13", ⟨"1"⟩⟩, ⟨5, none, none⟩⟩]

theorem splitFigure_shows_first_fastest_raw_row :
    QueryRules.ofLists ["l_count", "l_point"]
        [("q13", "q87"), ("q14", "q88"), ("q18", "q98"), ("q19", "q99")] =
      .ok (splitFigure : LatencyFigure Float).rules ∧
    (splitFigure : LatencyFigure Float).fault? = none ∧
    ∃ l, (splitFigure : LatencyFigure Float).layout
        (selectAll (QueryRules.splitFigure.relabel crowdedTrials).rows) = .ok l ∧
      ∀ p ∈ l.panels, ∀ g ∈ p.groups, g.query = "q87" → p.scaleFactor = ⟨"1"⟩ →
        ∃ b, g.bars.filter (fun b ↦ b.engine = "duckdb") = [b] ∧
          b.value = p.unit.latency (Scalar.ofNat 5) ∧ b.stall = p.unit.stall 40 := by
  have haccepted : QueryRules.ofLists ["l_count", "l_point"]
      [("q13", "q87"), ("q14", "q88"), ("q18", "q98"), ("q19", "q99")] =
        .ok (splitFigure : LatencyFigure Float).rules := QueryRules.ofLists_splitFigure
  have hvalid : (splitFigure : LatencyFigure Float).fault? = none := by decide +kernel
  have hraw : QueryRules.splitFigure.rawId "q87" = "q13" := by decide +kernel
  obtain ⟨l, hl, -, hpanels⟩ :=
    layout_shows_first_fastest_raw_rows haccepted hvalid crowdedTrials
  refine ⟨haccepted, hvalid, l, hl, ?_⟩
  intro p hp g hg hquery hsf
  have hduckdb := ((hpanels p hp).2 g hg).2.2 ⟨"duckdb", "DuckDB", "#04718a"⟩
    List.mem_cons_self
  change _ ∧ _ at hduckdb
  rw [hquery, hsf, show (splitFigure : LatencyFigure Float).rules.rawId "q87" = "q13" from hraw]
    at hduckdb
  obtain ⟨t, b, hfastest, hbars, hvalue, hstall⟩ := hduckdb.2 (by simp [crowdedTrials])
  have hsecond : IsFirstFastest (crowdedTrials.filter fun t ↦
      t.group = ⟨"duckdb", "q13", ⟨"1"⟩⟩) ⟨⟨"duckdb", "q13", ⟨"1"⟩⟩, ⟨5, some 40, none⟩⟩ :=
    ⟨[⟨⟨"duckdb", "q13", ⟨"1"⟩⟩, ⟨7, some 10, none⟩⟩],
      [⟨⟨"duckdb", "q13", ⟨"1"⟩⟩, ⟨5, none, none⟩⟩], by simp [crowdedTrials], by simp, by simp⟩
  obtain rfl := hfastest.unique hsecond
  exact ⟨b, hbars, hvalue, hstall⟩

end LatencyFigure
end QueryBench
