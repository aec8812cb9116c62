import QueryBench.ThroughputFigure.Basic

/-!
# What a valid figure has

A latency figure in which no fault is found has engines, queries and rows, its sizes are positive,
and all its broken axes can be drawn.  Such a throughput figure has engines and queries, and its
slots and groups have a width; neither width is compared with the other.
-/

namespace QueryBench

variable {α : Type}

theorem faultIf_eq_none_iff {ε : Type} {condition : Prop} [Decidable condition] {fault : ε} :
    faultIf condition fault = none ↔ ¬ condition := by
  rw [faultIf, ite_eq_right_iff]
  exact imp_congr_right fun _ ↦ iff_false_intro nofun

theorem EngineStyle.colorFault?_eq_none_iff {e : EngineStyle} :
    e.colorFault? (α := α) = none ↔ Color.parse? e.color ≠ none :=
  faultIf_eq_none_iff

/-- Engines have no fault exactly if all their colors are read and no tag is repeated. -/
theorem EngineStyle.faults?_eq_none_iff {seen : List String} {engines : List EngineStyle} :
    faults? (α := α) seen engines = none ↔
      (∀ e ∈ engines, Color.parse? e.color ≠ none) ∧ (engines.map (·.tag)).Nodup ∧
        ∀ e ∈ engines, e.tag ∉ seen := by
  induction engines generalizing seen with
  | nil => simp [faults?]
  | cons e rest ih =>
      rw [faults?]
      split
      · rename_i hcolor
        simp [hcolor]
      · rename_i hcolor
        split
        · rename_i hseen
          simp [hseen]
        · rename_i hnew
          rw [ih, List.forall_mem_cons, List.forall_mem_cons, List.map_cons, List.nodup_cons]
          constructor
          · rintro ⟨hcolors, hnodup, hfresh⟩
            have hfirst : e.tag ∉ rest.map (·.tag) := by
              intro hmem
              obtain ⟨e', he', htag⟩ := List.mem_map.mp hmem
              exact hfresh e' he' (htag ▸ List.mem_cons_self)
            exact ⟨⟨hcolor, hcolors⟩, ⟨hfirst, hnodup⟩, hnew,
              fun e' he' hseen ↦ hfresh e' he' (List.mem_cons_of_mem _ hseen)⟩
          · rintro ⟨⟨-, hcolors⟩, ⟨hfirst, hnodup⟩, -, hfresh⟩
            refine ⟨hcolors, hnodup, ?_⟩
            intro e' he' hmem
            rcases List.mem_cons.mp hmem with htag | hseen
            · exact hfirst (htag ▸ List.mem_map_of_mem he')
            · exact hfresh e' he' hseen

variable [Scalar α]

theorem Tear.exists_axis_of_fault? {scaleFactors : List ScaleFactor} {t : Tear α}
    (h : t.fault? scaleFactors = none) : ∃ axis, t.axis = .ok axis := by
  unfold fault? at h
  split at h
  · cases h
  · split at h
    · cases h
    · rename_i axis haxis
      exact ⟨axis, haxis⟩

theorem PanelRow.consistent_of_fault? {r : PanelRow α} (h : r.fault? = none) :
    r.scaleFactors ≠ [] ∧ 0 < r.heightRatio ∧ (r.unit = .auto → r.tears = []) ∧
      ∀ t ∈ r.tears, ∃ axis, t.axis = .ok axis := by
  simp only [fault?, List.findSome?_eq_none_iff, List.forall_mem_cons, id_eq,
    faultIf_eq_none_iff, not_and, Classical.not_not, List.length_eq_zero_iff] at h
  obtain ⟨hscaleFactors, hheight, hunit, htears, -⟩ := h
  exact ⟨hscaleFactors, hheight, hunit, fun t ht ↦ Tear.exists_axis_of_fault? (htears t ht)⟩

namespace LatencyFigure

/-- The requirements that the rows, the widths and the engines of a valid figure meet. -/
structure Consistent (f : LatencyFigure α) : Prop where
  engines : f.engines ≠ []
  colors : ∀ e ∈ f.engines, Color.parse? e.color ≠ none
  queries : f.mainQueries ≠ []
  outlierShown : ∀ o, f.outlier = some o → f.outlierQuery ≠ none
  outlierWidth : ∀ o, f.outlier = some o → 0 < o.widthRatio
  rows : f.rows ≠ []
  scaleFactors : ∀ r ∈ f.rows, r.scaleFactors ≠ []
  heights : ∀ r ∈ f.rows, 0 < r.heightRatio
  tearUnits : ∀ r ∈ f.rows, r.unit = .auto → r.tears = []
  tears : ∀ r ∈ f.rows, ∀ t ∈ r.tears, ∃ axis, t.axis = .ok axis
  slotSpacing : 0 < f.slotSpacing
  groupWidth : 0 < f.groupWidth
  groupFits : ¬ f.slotSpacing < f.groupWidth
  floor : 0 ≤ f.floorMs
  mainWidth : 0 < f.mainWidthRatio
  spacer : ¬ f.spacerRatio < 0

theorem outlier_of_outlierFault? {f : LatencyFigure α} (h : f.outlierFault? = none)
    {o : Outlier α} (ho : f.outlier = some o) : f.outlierQuery ≠ none ∧ 0 < o.widthRatio := by
  rw [outlierFault?, ho, Option.bind_some] at h
  split at h
  · cases h
  · rename_i hshown
    exact ⟨hshown, Classical.not_not.mp (faultIf_eq_none_iff.mp h)⟩

theorem consistent_of_fault? {f : LatencyFigure α} (h : f.fault? = none) : f.Consistent := by
  simp only [fault?, List.findSome?_eq_none_iff, List.forall_mem_cons, id_eq,
    faultIf_eq_none_iff, not_or, Classical.not_not] at h
  obtain ⟨-, hengines, hcolors, -, hqueries, -, houtlier, hrows, hpanels, hsizes, hfits, hfloor,
    -, hwidths, -⟩ := h
  exact
    { engines := hengines
      colors := (EngineStyle.faults?_eq_none_iff.mp hcolors).1
      queries := hqueries
      outlierShown := fun o ho ↦ (outlier_of_outlierFault? houtlier ho).1
      outlierWidth := fun o ho ↦ (outlier_of_outlierFault? houtlier ho).2
      rows := fun hnil ↦ hrows (List.length_eq_zero_iff.mpr hnil)
      scaleFactors := fun r hr ↦ (PanelRow.consistent_of_fault? (hpanels r hr)).1
      heights := fun r hr ↦ (PanelRow.consistent_of_fault? (hpanels r hr)).2.1
      tearUnits := fun r hr ↦ (PanelRow.consistent_of_fault? (hpanels r hr)).2.2.1
      tears := fun r hr ↦ (PanelRow.consistent_of_fault? (hpanels r hr)).2.2.2
      slotSpacing := hsizes.1
      groupWidth := hsizes.2
      groupFits := hfits
      floor := hfloor
      mainWidth := hwidths.1
      spacer := hwidths.2 }

end LatencyFigure

namespace ThroughputFigure

/-- The requirements that the engines, the queries and the widths of a valid figure meet. -/
structure Consistent (f : ThroughputFigure α) : Prop where
  engines : f.engines ≠ []
  colors : ∀ e ∈ f.engines, Color.parse? e.color ≠ none
  queries : f.displayQueries ≠ []
  slotSpacing : 0 < f.slotSpacing
  groupWidth : 0 < f.groupWidth

theorem consistent_of_fault? {f : ThroughputFigure α} (h : f.fault? = none) : f.Consistent := by
  simp only [fault?, EngineStyle.colorFault?_eq_none_iff, List.findSome?_eq_none_iff,
    List.forall_mem_cons, id_eq, faultIf_eq_none_iff, not_or, Classical.not_not] at h
  obtain ⟨hengines, hcolors, hqueries, -, -, hsizes, -⟩ := h
  exact ⟨hengines, hcolors, hqueries, hsizes.1, hsizes.2⟩

end ThroughputFigure
end QueryBench
