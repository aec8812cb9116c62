import QueryBench.Drawing.Throughput
import QueryBench.Proofs.LatencyFigure.Grid

/-!
# Drawings of valid figures

All that can keep a layout from being drawn is a color that is none, or a panel without a cell.
The layouts of valid figures have neither.
-/

namespace QueryBench

theorem ThroughputLayout.exists_drawing {l : ThroughputLayout Float}
    (hlegend : ∀ e ∈ l.legend, Color.parse? e.color ≠ none)
    (hbars : ∀ g ∈ l.groups, ∀ b ∈ g.bars, Color.parse? b.color ≠ none) :
    ∃ elements, l.drawing = .ok elements := by
  have hentries : ∃ elements, legendElements l.width 6 l.legend = .ok elements := by
    apply exists_drawAll
    intro q hq
    exact LegendEntry.exists_elements (hlegend q.2 (LegendEntry.snd_mem_of_mem_placed hq)) _ _ _
  have hbar : ∀ g ∈ l.groups, ∀ b ∈ g.bars, ∃ elements, l.barElements b = .ok elements := by
    intro g hg b hb
    obtain ⟨color, hcolor⟩ := exists_drawingColor (hbars g hg b hb)
    unfold barElements
    rw [hcolor]
    split <;> exact ⟨_, rfl⟩
  have hgroups : ∃ elements, drawAll l.groupElements l.groups = .ok elements := by
    apply exists_drawAll
    intro g hg
    obtain ⟨elements, helements⟩ := exists_drawAll (hbar g hg)
    unfold groupElements
    rw [helements]
    exact ⟨_, rfl⟩
  obtain ⟨legend, hlegend⟩ := hentries
  obtain ⟨groups, hgroups⟩ := hgroups
  unfold drawing
  rw [hlegend, hgroups]
  exact ⟨_, rfl⟩

namespace LatencyFigure

variable {f : LatencyFigure Float} {index : SelectionIndex}

end LatencyFigure

namespace ThroughputFigure

variable {f : ThroughputFigure Float} {index : SelectionIndex}

end ThroughputFigure
end QueryBench
