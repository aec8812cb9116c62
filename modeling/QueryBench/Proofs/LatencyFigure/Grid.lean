import QueryBench.Proofs.Chart.Places
import QueryBench.Proofs.Drawing.Cells
import QueryBench.Proofs.LatencyFigure.Provenance

/-!
# The grid of a latency figure

A panel chooses its column by its place in a row, and the widths of the columns are listed
apart from that.  Both repeat the same pattern: a column for each scale factor and, where the
figure has an outlier, one beside it and a blank one before the next.
-/

namespace QueryBench

/-- A list of pieces of which all but one are empty. -/
theorem flatMap_zipIdx_eq {β γ : Type} {l : List β} {g : β × Nat → List γ} {n i : Nat} {b : β}
    (hb : l[i]? = some b) (h : ∀ b' k, k ≠ n + i → g (b', k) = []) :
    (l.zipIdx n).flatMap g = g (b, n + i) := by
  induction l generalizing n i with
  | nil => cases hb
  | cons b' rest ih =>
      rw [List.zipIdx_cons, List.flatMap_cons]
      cases i with
      | zero =>
          obtain rfl : b' = b := by simpa using hb
          have hrest : (rest.zipIdx (n + 1)).flatMap g = [] := by
            rw [List.flatMap_eq_nil_iff]
            rintro ⟨c, k⟩ hk
            apply h
            have hle := List.le_snd_of_mem_zipIdx hk
            omega
          rw [hrest, List.append_nil, Nat.add_zero]
      | succ i =>
          have hindex : n + (i + 1) = n + 1 + i := by omega
          rw [h b' n (by omega), List.nil_append, hindex]
          apply ih (by simpa using hb)
          intro c k hk
          exact h c k (by omega)

/-- A pattern of three, repeated and then broken off after two. -/
theorem getElem?_flatten_replicate {β : Type} (a b c : β) (m j : Nat) :
    ((List.replicate m [a, b, c]).flatten ++ [a, b])[j]? =
      if j < 3 * m + 2 then [a, b, c][j % 3]? else none := by
  induction m generalizing j with
  | zero =>
      match j with
      | 0 => rfl
      | 1 => rfl
      | j + 2 => simp
  | succ m ih =>
      match j with
      | 0 => simp [List.replicate_succ]
      | 1 => simp [List.replicate_succ]
      | 2 => simp [List.replicate_succ]
      | j + 3 =>
          rw [Nat.add_mod_right]
          simpa [List.replicate_succ, Nat.mul_succ] using ih j

theorem le_foldl_max {n : Nat} {ns : List Nat} {start : Nat} (h : n ≤ start ∨ n ∈ ns) :
    n ≤ ns.foldl max start := by
  induction ns generalizing start with
  | nil => simpa using h
  | cons n' rest ih =>
      apply ih
      rcases h with hstart | hmem
      · exact .inl (hstart.trans (Nat.le_max_left _ _))
      · rcases List.mem_cons.mp hmem with rfl | hrest
        · exact .inl (Nat.le_max_right _ _)
        · exact .inr hrest

namespace LatencyFigure

variable {α : Type} {f : LatencyFigure α}

/-! ## Columns -/

/-- The most scale factors of a row. -/
def longestRow (f : LatencyFigure α) : Nat :=
  (f.rows.map fun r ↦ r.scaleFactors.length).foldl max 0

theorem length_le_longestRow {r : PanelRow α} (hr : r ∈ f.rows) :
    r.scaleFactors.length ≤ f.longestRow :=
  le_foldl_max (.inr (List.mem_map.mpr ⟨r, hr, rfl⟩))

/-- The column of the main panel of a scale factor. -/
def mainColumn (f : LatencyFigure α) (position : Nat) : Nat :=
  match f.outlier with
  | none => position
  | some _ => 3 * position

theorem mainColumn_of_none (h : f.outlier = none) (position : Nat) :
    f.mainColumn position = position := by
  rw [mainColumn, h]

theorem mainColumn_of_some {o : Outlier α} (h : f.outlier = some o) (position : Nat) :
    f.mainColumn position = 3 * position := by
  rw [mainColumn, h]

theorem mainColumn_strictMono {position position' : Nat} (h : position < position') :
    f.mainColumn position + 1 ≤ f.mainColumn position' ∧
      (f.outlier ≠ none → f.mainColumn position + 1 < f.mainColumn position') := by
  cases ho : f.outlier with
  | none =>
      rw [mainColumn_of_none ho, mainColumn_of_none ho]
      exact ⟨h, fun hne ↦ absurd rfl hne⟩
  | some o =>
      rw [mainColumn_of_some ho, mainColumn_of_some ho]
      omega

theorem columnWidths_of_none (h : f.outlier = none) :
    f.columnWidths = List.replicate f.longestRow f.mainWidthRatio := by
  unfold columnWidths
  rw [h]
  dsimp only
  rw [← List.map_eq_flatMap, List.map_const', List.length_range, longestRow]

theorem columnWidths_of_some {o : Outlier α} (h : f.outlier = some o) {m : Nat}
    (hm : f.longestRow = m + 1) :
    f.columnWidths =
      (List.replicate m [f.mainWidthRatio, o.widthRatio, f.spacerRatio]).flatten ++
        [f.mainWidthRatio, o.widthRatio] := by
  unfold columnWidths
  rw [h, ← longestRow, hm]
  dsimp only
  rw [List.range_succ, List.flatMap_append]
  congr 1
  · have hconst : ∀ k ∈ List.range m,
        [f.mainWidthRatio, o.widthRatio] ++ (if k + 1 < m + 1 then [f.spacerRatio] else []) =
          [f.mainWidthRatio, o.widthRatio, f.spacerRatio] := by
      intro k hk
      rw [if_pos (Nat.succ_lt_succ (List.mem_range.mp hk))]
      rfl
    rw [List.flatMap_def, List.map_congr_left hconst, List.map_const', List.length_range]
  · simp

theorem getElem?_columnWidths {o : Outlier α} (h : f.outlier = some o) (hlong : 0 < f.longestRow)
    (column : Nat) :
    f.columnWidths[column]? =
      if column + 1 < 3 * f.longestRow then
        [f.mainWidthRatio, o.widthRatio, f.spacerRatio][column % 3]?
      else none := by
  obtain ⟨m, hm⟩ := Nat.exists_eq_succ_of_ne_zero (Nat.ne_of_gt hlong)
  rw [columnWidths_of_some h hm, getElem?_flatten_replicate, hm]
  congr 1
  rw [eq_iff_iff]
  omega

theorem getElem?_columnWidths_mainColumn {position : Nat} (h : position < f.longestRow) :
    f.columnWidths[f.mainColumn position]? = some f.mainWidthRatio := by
  cases ho : f.outlier with
  | none =>
      rw [mainColumn_of_none ho, columnWidths_of_none ho, List.getElem?_replicate, if_pos h]
  | some o =>
      rw [mainColumn_of_some ho, getElem?_columnWidths ho (Nat.zero_lt_of_lt h),
        if_pos (by omega), Nat.mul_mod_right]
      rfl

theorem getElem?_columnWidths_overflow {o : Outlier α} (ho : f.outlier = some o) {position : Nat}
    (h : position < f.longestRow) :
    f.columnWidths[f.mainColumn position + 1]? = some o.widthRatio := by
  rw [mainColumn_of_some ho, getElem?_columnWidths ho (Nat.zero_lt_of_lt h),
    if_pos (by omega), Nat.mul_add_mod_self_left]
  rfl

/-! ## Panels -/

/-- The scale factor at a place of a row. -/
def scaleFactorAt? (f : LatencyFigure α) (row position : Nat) : Option ScaleFactor :=
  f.rows[row]?.bind fun r ↦ r.scaleFactors[position]?

/-- The place in its row that a column belongs to. -/
def positionOf (f : LatencyFigure α) (column : Nat) : Nat :=
  match f.outlier with
  | none => column
  | some _ => column / 3

theorem positionOf_of_none (h : f.outlier = none) (column : Nat) :
    f.positionOf column = column := by
  rw [positionOf, h]

theorem positionOf_of_some {o : Outlier α} (h : f.outlier = some o) (column : Nat) :
    f.positionOf column = column / 3 := by
  rw [positionOf, h]

/-- What the place of a panel is, if it shows a scale factor of a row. -/
structure IsPanelAt (f : LatencyFigure α) (row position : Nat) (sf : ScaleFactor)
    (p : Panel α) : Prop where
  row_eq : p.row = row
  scaleFactor_eq : p.scaleFactor = sf
  column_eq : p.kind = .main ∧ p.column = f.mainColumn position ∨
    p.kind = .overflow ∧ f.outlier ≠ none ∧ p.column = f.mainColumn position + 1

theorem IsPanelAt.positionOf_eq {row position : Nat} {sf : ScaleFactor} {p : Panel α}
    (h : f.IsPanelAt row position sf p) : f.positionOf p.column = position := by
  cases ho : f.outlier with
  | none =>
      rw [positionOf_of_none ho]
      rcases h.column_eq with ⟨-, hcolumn⟩ | ⟨-, hsome, -⟩
      · rw [hcolumn, mainColumn_of_none ho]
      · exact absurd ho hsome
  | some o =>
      rw [positionOf_of_some ho]
      have hcolumn := mainColumn_of_some ho position
      rcases h.column_eq with ⟨-, hmain⟩ | ⟨-, -, hoverflow⟩ <;> omega

variable [Scalar α] {index : SelectionIndex}

theorem mul_columnStride (h : f.Consistent) (position : Nat) :
    position * f.columnStride = f.mainColumn position := by
  unfold columnStride
  cases ho : f.outlier with
  | none => simp [outlierQuery, ho, mainColumn_of_none ho]
  | some o =>
      rw [if_pos (Option.isSome_iff_ne_none.mpr (h.outlierShown o ho)), Nat.mul_comm,
        mainColumn_of_some ho]

theorem isPanelAt_of_mem (h : f.Consistent) {row position : Nat} {r : PanelRow α}
    {sf : ScaleFactor} {p : Panel α} (hp : p ∈ f.scaleFactorPanels index row r position sf) :
    f.IsPanelAt row position sf p := by
  rcases List.mem_cons.mp hp with rfl | hoverflow
  · exact ⟨rfl, rfl, .inl ⟨rfl, mul_columnStride h position⟩⟩
  · obtain ⟨q, hq, rfl⟩ := List.mem_map.mp hoverflow
    have houtlier : f.outlier ≠ none := by
      intro hnone
      simp [outlierQuery, hnone] at hq
    exact ⟨rfl, rfl, .inr ⟨rfl, houtlier, congrArg (· + 1) (mul_columnStride h position)⟩⟩

theorem exists_of_mem_panels (h : f.Consistent) {p : Panel α} (hp : p ∈ f.panels index) :
    ∃ position < f.longestRow, p.row < f.rows.length ∧
      f.scaleFactorAt? p.row position = some p.scaleFactor ∧
        f.IsPanelAt p.row position p.scaleFactor p := by
  obtain ⟨⟨r, row⟩, hr, hp⟩ := List.mem_flatMap.mp hp
  obtain ⟨⟨sf, position⟩, hsf, hp⟩ := List.mem_flatMap.mp hp
  rw [List.mem_zipIdx_iff_getElem?] at hr hsf
  obtain ⟨hrow, hget⟩ := List.getElem?_eq_some_iff.mp hr
  obtain ⟨hposition, -⟩ := List.getElem?_eq_some_iff.mp hsf
  have hplace := isPanelAt_of_mem h hp
  refine ⟨position, ?_, ?_, ?_, ?_⟩
  · exact hposition.trans_le (length_le_longestRow (List.mem_of_getElem? hr))
  · rw [hplace.row_eq]
    exact hrow
  · rw [hplace.row_eq, hplace.scaleFactor_eq, scaleFactorAt?, hr]
    exact hsf
  · rw [hplace.row_eq, hplace.scaleFactor_eq]
    exact hplace

theorem longestRow_pos (h : f.Consistent) : 0 < f.longestRow := by
  obtain ⟨r, hr⟩ := List.exists_mem_of_ne_nil _ h.rows
  exact (List.length_pos_iff.mpr (h.scaleFactors r hr)).trans_le (length_le_longestRow hr)

theorem width_of_mem_panels (h : f.Consistent) {p : Panel α} (hp : p ∈ f.panels index) :
    p.kind = .main ∧ f.columnWidths[p.column]? = some f.mainWidthRatio ∨
      p.kind = .overflow ∧ ∃ o, f.outlier = some o ∧
        f.columnWidths[p.column]? = some o.widthRatio := by
  obtain ⟨position, hposition, -, -, hplace⟩ := exists_of_mem_panels h hp
  rcases hplace.column_eq with ⟨hkind, hcolumn⟩ | ⟨hkind, hsome, hcolumn⟩
  · left
    rw [hcolumn]
    exact ⟨hkind, getElem?_columnWidths_mainColumn hposition⟩
  · right
    obtain ⟨o, ho⟩ := Option.ne_none_iff_exists'.mp hsome
    rw [hcolumn]
    exact ⟨hkind, o, ho, getElem?_columnWidths_overflow ho hposition⟩

theorem column_lt_of_mem_panels (h : f.Consistent) {p : Panel α} (hp : p ∈ f.panels index) :
    p.column < f.columnWidths.length := by
  rcases width_of_mem_panels h hp with ⟨-, hwidth⟩ | ⟨-, o, -, hwidth⟩
  · exact (List.getElem?_eq_some_iff.mp hwidth).1
  · exact (List.getElem?_eq_some_iff.mp hwidth).1

theorem blank_column (h : f.Consistent) (hsome : f.outlier ≠ none) {column : Nat}
    (hblank : column % 3 = 2) :
    (∀ w, f.columnWidths[column]? = some w → w = f.spacerRatio) ∧
      ∀ p ∈ f.panels index, p.column ≠ column := by
  obtain ⟨o, ho⟩ := Option.ne_none_iff_exists'.mp hsome
  constructor
  · intro w hw
    rw [getElem?_columnWidths ho (longestRow_pos h), hblank] at hw
    split at hw
    · exact (Option.some.inj hw).symm
    · cases hw
  · intro p hp
    obtain ⟨position, -, -, -, hplace⟩ := exists_of_mem_panels h hp
    have hcolumn := mainColumn_of_some ho position
    rcases hplace.column_eq with ⟨-, hmain⟩ | ⟨-, -, hoverflow⟩ <;> omega

/-- The panels are listed row by row from the left. -/
theorem pairwise_panels (h : f.Consistent) :
    (f.panels index).Pairwise fun p q ↦
      p.row < q.row ∨ p.row = q.row ∧ p.column < q.column := by
  rw [panels, List.pairwise_flatMap]
  constructor
  · rintro ⟨r, row⟩ -
    dsimp only
    rw [List.pairwise_flatMap]
    constructor
    · rintro ⟨sf, position⟩ -
      apply List.Pairwise.cons
      · intro q hq
        obtain ⟨query, -, rfl⟩ := List.mem_map.mp hq
        exact .inr ⟨rfl, Nat.lt_succ_self _⟩
      · cases f.outlierQuery <;> simp
    · apply (pairwise_zipIdx _).imp
      rintro ⟨sf, k⟩ ⟨sf', k'⟩ hlt p hp q hq
      have hp' := isPanelAt_of_mem h hp
      have hq' := isPanelAt_of_mem h hq
      obtain ⟨hle, hlt⟩ := f.mainColumn_strictMono hlt
      refine .inr ⟨hp'.row_eq.trans hq'.row_eq.symm, ?_⟩
      rcases hp'.column_eq with ⟨-, hp'⟩ | ⟨-, hsome, hp'⟩
      · rcases hq'.column_eq with ⟨-, hq'⟩ | ⟨-, -, hq'⟩ <;> omega
      · have hlt := hlt hsome
        rcases hq'.column_eq with ⟨-, hq'⟩ | ⟨-, -, hq'⟩ <;> omega
  · apply (pairwise_zipIdx _).imp
    rintro ⟨r, row⟩ ⟨r', row'⟩ hlt p hp q hq
    obtain ⟨⟨sf, k⟩, -, hp⟩ := List.mem_flatMap.mp hp
    obtain ⟨⟨sf', k'⟩, -, hq⟩ := List.mem_flatMap.mp hq
    left
    rw [(isPanelAt_of_mem h hp).row_eq, (isPanelAt_of_mem h hq).row_eq]
    exact hlt

/-- The panels that stand in the columns of one scale factor. -/
def panelsAt (f : LatencyFigure α) (l : FigureLayout α) (row position : Nat) : List (Panel α) :=
  l.panels.filter fun p ↦ p.row = row ∧ f.positionOf p.column = position

theorem filter_panels (h : f.Consistent) (index : SelectionIndex) {row position : Nat}
    {sf : ScaleFactor} (hsf : f.scaleFactorAt? row position = some sf) :
    ∃ r, (f.panels index).filter (fun p ↦ p.row = row ∧ f.positionOf p.column = position) =
      f.scaleFactorPanels index row r position sf := by
  obtain ⟨r, hr, hsf⟩ := Option.bind_eq_some_iff.mp hsf
  refine ⟨r, ?_⟩
  -- Panels of other rows are left out first, then those at other places of this row.
  rw [panels, List.filter_flatMap, flatMap_zipIdx_eq hr, Nat.zero_add]
  · dsimp only
    rw [List.filter_flatMap, flatMap_zipIdx_eq hsf, Nat.zero_add]
    · rw [List.filter_eq_self]
      intro p hp
      have hplace := isPanelAt_of_mem h hp
      simp [hplace.row_eq, hplace.positionOf_eq]
    · intro sf' k hne
      rw [List.filter_eq_nil_iff]
      intro p hp
      have hplace := isPanelAt_of_mem h hp
      simp only [hplace.positionOf_eq, decide_eq_true_eq]
      omega
  · intro r' row' hne
    rw [List.filter_eq_nil_iff]
    intro p hp
    obtain ⟨⟨sf', k⟩, -, hp⟩ := List.mem_flatMap.mp hp
    have hplace := isPanelAt_of_mem h hp
    simp only [hplace.row_eq, decide_eq_true_eq]
    omega

theorem scaleFactorPanels_of_none (h : f.outlier = none) (row : Nat) (r : PanelRow α)
    (position : Nat) (sf : ScaleFactor) :
    ∃ m, f.scaleFactorPanels index row r position sf = [m] ∧ m.kind = .main ∧
      m.scaleFactor = sf := by
  have hquery : f.outlierQuery = none := by rw [outlierQuery, h, Option.bind_none]
  unfold scaleFactorPanels
  rw [hquery]
  exact ⟨_, rfl, rfl, rfl⟩

theorem scaleFactorPanels_of_some (h : f.Consistent) {o : Outlier α} (ho : f.outlier = some o)
    (row : Nat) (r : PanelRow α) (position : Nat) (sf : ScaleFactor) :
    ∃ m q, f.scaleFactorPanels index row r position sf = [m, q] ∧
      m.kind = .main ∧ m.scaleFactor = sf ∧
        q.kind = .overflow ∧ q.scaleFactor = sf ∧ q.column = m.column + 1 := by
  obtain ⟨query, hquery⟩ := Option.ne_none_iff_exists'.mp (h.outlierShown o ho)
  unfold scaleFactorPanels
  rw [hquery]
  exact ⟨_, _, rfl, rfl, rfl, rfl, rfl, rfl⟩

/-! ## The grid -/

/-- The panels of a layout stand in the grid that the layout has for them. -/
structure FitsGrid (f : LatencyFigure α) (l : FigureLayout α) : Prop where
  row_lt : ∀ p ∈ l.panels, p.row < l.rowHeights.length
  column_lt : ∀ p ∈ l.panels, p.column < l.columnWidths.length
  apart : l.panels.Pairwise fun p q ↦ ¬ (p.row = q.row ∧ p.column = q.column)
  mainWidth : ∀ p ∈ l.panels, p.kind = .main →
    l.columnWidths[p.column]? = some f.mainWidthRatio
  overflowWidth : ∀ p ∈ l.panels, p.kind = .overflow → ∃ o, f.outlier = some o ∧
    l.columnWidths[p.column]? = some o.widthRatio
  /-- Every third column is blank where the figure has an outlier. -/
  blank : f.outlier ≠ none → ∀ column, column % 3 = 2 →
    (∀ w, l.columnWidths[column]? = some w → w = f.spacerRatio) ∧
      ∀ p ∈ l.panels, p.column ≠ column
  alone : f.outlier = none → ∀ row position sf, f.scaleFactorAt? row position = some sf →
    ∃ m, f.panelsAt l row position = [m] ∧ m.kind = .main ∧ m.scaleFactor = sf
  paired : f.outlier ≠ none → ∀ row position sf, f.scaleFactorAt? row position = some sf →
    ∃ m q, f.panelsAt l row position = [m, q] ∧ m.kind = .main ∧ m.scaleFactor = sf ∧
      q.kind = .overflow ∧ q.scaleFactor = sf ∧ q.column = m.column + 1
  placed : ∀ p ∈ l.panels,
    f.scaleFactorAt? p.row (f.positionOf p.column) = some p.scaleFactor
  cell : ∀ p ∈ l.panels, ∃ x y, l.columnSpans[p.column]? = some x ∧
    l.rowSpans[p.row]? = some y ∧ l.cell? p = some ⟨x.1, y.1, x.2, y.2⟩

section PositiveSums

variable [Scalar.PositiveSums α]

theorem arePositive_columnWidths (h : f.Consistent) :
    FigureLayout.ArePositive f.columnWidths := by
  have hfirst : f.columnWidths[0]? = some f.mainWidthRatio := by
    have hcolumn : f.mainColumn 0 = 0 := by cases ho : f.outlier <;> rw [mainColumn, ho]
    have hmain := getElem?_columnWidths_mainColumn (longestRow_pos h)
    rwa [hcolumn] at hmain
  have hmain : ¬ f.mainWidthRatio < 0 := Scalar.PositiveSums.not_neg_of_pos h.mainWidth
  have hnotNeg : ∀ w ∈ f.columnWidths, ¬ w < 0 := by
    intro w hw
    obtain ⟨k, -, hw⟩ := List.mem_flatMap.mp hw
    cases ho : f.outlier with
    | none =>
        rw [ho] at hw
        rw [List.mem_singleton.mp hw]
        exact hmain
    | some o =>
        have hwidth := Scalar.PositiveSums.not_neg_of_pos (h.outlierWidth o ho)
        rw [ho] at hw
        rcases List.mem_append.mp hw with hpair | hspacer
        · simp only [List.mem_cons, List.not_mem_nil, or_false] at hpair
          rcases hpair with rfl | rfl
          · exact hmain
          · exact hwidth
        · split at hspacer
          · rw [List.mem_singleton.mp hspacer]
            exact h.spacer
          · cases hspacer
  cases hwidths : f.columnWidths with
  | nil => rw [hwidths] at hfirst; cases hfirst
  | cons w rest =>
      rw [hwidths] at hfirst hnotNeg
      obtain rfl : w = f.mainWidthRatio := by simpa using hfirst
      exact ⟨h.mainWidth, fun w hw ↦ hnotNeg w (List.mem_cons_of_mem _ hw)⟩

theorem arePositive_rowHeights (h : f.Consistent) :
    FigureLayout.ArePositive (f.rows.map (·.heightRatio)) := by
  have hheights := h.heights
  cases hrows : f.rows with
  | nil => exact absurd hrows h.rows
  | cons r rest =>
      rw [hrows] at hheights
      obtain ⟨hr, hrest⟩ := List.forall_mem_cons.mp hheights
      refine ⟨hr, ?_⟩
      rw [List.forall_mem_map]
      exact fun r' hr' ↦ Scalar.PositiveSums.not_neg_of_pos (hrest r' hr')

theorem fitsGrid_of_layout (hvalid : f.fault? = none) (index : SelectionIndex) :
    ∃ l, f.layout index = .ok l ∧ l.panels = f.panels index ∧
      l.legend = f.legend (f.panels index) ∧ f.FitsGrid l := by
  have h := consistent_of_fault? hvalid
  have hrow : ∀ p ∈ f.panels index, p.row < (f.rows.map (·.heightRatio)).length := by
    intro p hp
    obtain ⟨position, -, hrow, -⟩ := exists_of_mem_panels h hp
    rw [List.length_map]
    exact hrow
  unfold layout
  rw [hvalid]
  refine ⟨_, rfl, rfl, rfl, ?_⟩
  constructor
  case row_lt => exact hrow
  case column_lt => exact fun p hp ↦ column_lt_of_mem_panels h hp
  case apart =>
    apply (pairwise_panels h).imp
    rintro p q hlt ⟨hrow, hcolumn⟩
    omega
  case mainWidth =>
    intro p hp hkind
    rcases width_of_mem_panels h hp with ⟨-, hwidth⟩ | ⟨hoverflow, -⟩
    · exact hwidth
    · cases hkind.symm.trans hoverflow
  case overflowWidth =>
    intro p hp hkind
    rcases width_of_mem_panels h hp with ⟨hmain, -⟩ | ⟨-, hwidth⟩
    · cases hkind.symm.trans hmain
    · exact hwidth
  case blank => exact fun hsome column hblank ↦ blank_column h hsome hblank
  case alone =>
    intro hnone row position sf hsf
    obtain ⟨r, hpanels⟩ := filter_panels h index hsf
    obtain ⟨m, hm, hkind⟩ := scaleFactorPanels_of_none hnone row r position sf
    exact ⟨m, hpanels.trans hm, hkind⟩
  case paired =>
    intro hsome row position sf hsf
    obtain ⟨o, ho⟩ := Option.ne_none_iff_exists'.mp hsome
    obtain ⟨r, hpanels⟩ := filter_panels h index hsf
    obtain ⟨m, q, hpair, hkinds⟩ := scaleFactorPanels_of_some h ho row r position sf
    exact ⟨m, q, hpanels.trans hpair, hkinds⟩
  case placed =>
    intro p hp
    obtain ⟨position, -, -, hsf, hplace⟩ := exists_of_mem_panels h hp
    rw [hplace.positionOf_eq]
    exact hsf
  case cell =>
    intro p hp
    apply FigureLayout.cell?_eq (arePositive_columnWidths h) (arePositive_rowHeights h)
    · exact column_lt_of_mem_panels h hp
    · exact hrow p hp

end PositiveSums

/-! ## Colors -/

theorem color_of_mem_legend (h : f.Consistent) {panels : List (Panel α)} {e : LegendEntry}
    (he : e ∈ f.legend panels) : Color.parse? e.color ≠ none := by
  rcases List.mem_append.mp he with hengine | hstall
  · obtain ⟨e', he', rfl⟩ := List.mem_map.mp hengine
    exact h.colors e' (List.mem_filter.mp he').1
  · have hwhite : Color.parse? "#ffffff" ≠ none := by decide
    rw [List.mem_singleton.mp hstall]
    exact hwhite

theorem color_of_mem_panels (h : f.Consistent) {p : Panel α} (hp : p ∈ f.panels index) {b : Bar α}
    (hb : b ∈ p.bars) : Color.parse? b.color ≠ none := by
  obtain ⟨g, hg, hb⟩ := List.mem_flatMap.mp hb
  rw [groups_of_mem_panels index hp] at hg
  obtain ⟨-, x, hbars⟩ := mem_groups index hg
  rw [hbars] at hb
  obtain ⟨⟨e, k⟩, he, hb⟩ := List.mem_filterMap.mp hb
  obtain ⟨s, -, rfl⟩ := Option.map_eq_some_iff.mp hb
  exact h.colors e (List.fst_mem_of_mem_zipIdx he)

/-- The panels of a valid figure stand in the grid made for them, each in a cell of its own.
This holds in exact arithmetic and in that of binary64 numbers, in which the figure is drawn,
so that drawing it never finds a panel outside the grid. -/
theorem layout_fits_grid :
    (∀ f : LatencyFigure Rat, f.fault? = none → ∀ index : SelectionIndex,
      ∃ l, f.layout index = .ok l ∧ f.FitsGrid l) ∧
    ∀ f : LatencyFigure Float, f.fault? = none → ∀ index : SelectionIndex,
      ∃ l elements, f.layout index = .ok l ∧ f.FitsGrid l ∧ l.drawing = .ok elements := by
  constructor
  · intro f hvalid index
    obtain ⟨l, hl, -, -, hfits⟩ := fitsGrid_of_layout hvalid index
    exact ⟨l, hl, hfits⟩
  · intro f hvalid index
    have h := consistent_of_fault? hvalid
    obtain ⟨l, hl, hpanels, hlegend, hfits⟩ := fitsGrid_of_layout hvalid index
    have hdrawing : ∃ elements, l.drawing = .ok elements := by
      apply FigureLayout.exists_drawing
      · rw [hlegend]
        exact fun e he ↦ color_of_mem_legend h he
      · rw [hpanels]
        exact fun p hp b hb ↦ color_of_mem_panels h hp hb
      · intro p hp
        obtain ⟨x, y, -, -, hcell⟩ := hfits.cell p hp
        exact ⟨_, hcell⟩
    obtain ⟨elements, helements⟩ := hdrawing
    exact ⟨l, elements, hl, hfits, helements⟩

theorem splitFigure_fits_grid :
    (splitFigure : LatencyFigure Rat).fault? = none ∧
    (splitFigure : LatencyFigure Float).fault? = none ∧
    (∃ l m q, (splitFigure : LatencyFigure Rat).layout (selectAll crowdedTrials) = .ok l ∧
      splitFigure.panelsAt l 1 1 = [m, q] ∧ q.scaleFactor = ⟨"100"⟩ ∧
        q.column = m.column + 1 ∧ l.columnWidths[m.column]? = some 5 ∧
          l.columnWidths[q.column]? = some 1 ∧ ∃ cell, l.cell? q = some cell) ∧
    ∃ l elements, (splitFigure : LatencyFigure Float).layout (selectAll crowdedTrials) = .ok l ∧
      l.drawing = .ok elements := by
  have hexact : (splitFigure : LatencyFigure Rat).fault? = none := by decide +kernel
  have hvalid : (splitFigure : LatencyFigure Float).fault? = none := by decide +kernel
  refine ⟨hexact, hvalid, ?_, ?_⟩
  · obtain ⟨l, hl, hfits⟩ := layout_fits_grid.1 splitFigure hexact (selectAll crowdedTrials)
    obtain ⟨m, q, hpair, hmain, -, hoverflow, hsf, hcolumn⟩ :=
      hfits.paired nofun 1 1 ⟨"100"⟩ (by decide +kernel)
    have hmem : ∀ p ∈ [m, q], p ∈ l.panels := by
      intro p hp
      rw [← hpair] at hp
      exact (List.mem_filter.mp hp).1
    have hm := hmem m (by simp)
    have hq := hmem q (by simp)
    obtain ⟨x, y, -, -, hcell⟩ := hfits.cell q hq
    obtain ⟨o, ho, hwidth⟩ := hfits.overflowWidth q hq hoverflow
    refine ⟨l, m, q, hl, hpair, hsf, hcolumn, hfits.mainWidth m hm hmain, ?_, _, hcell⟩
    rw [hwidth]
    cases ho
    rfl
  · obtain ⟨l, elements, hl, -, hdrawing⟩ :=
      layout_fits_grid.2 splitFigure hvalid (selectAll crowdedTrials)
    exact ⟨l, elements, hl, hdrawing⟩

end LatencyFigure
end QueryBench
