import QueryBench.LatencyFigure.Validity
import QueryBench.Selection.Basic

/-!
# Layout of latency figures

The geometry of a figure in the units of its data: panels in a grid, a group of
bars in each slot of a panel, and two segments in each bar, the stall below the
rest.  An engine without a selection leaves its place in the group empty.
-/

namespace QueryBench

inductive DisplayUnit where
  | milliseconds
  | seconds
deriving DecidableEq, Repr

/-- Panels of all queries but the outlier, and panels of the outlier. -/
inductive PanelKind where
  | main
  | overflow
deriving DecidableEq, Repr

/-- A vertical part of a bar. -/
structure Segment (α : Type) where
  bottom : α
  top : α
  hatched : Bool
deriving DecidableEq, Repr

structure Bar (α : Type) where
  engine : String
  color : String
  /-- Its middle. -/
  x : α
  width : α
  /-- The latency, whether or not it is drawn in full. -/
  value : α
  /-- The stall of the same trial. -/
  stall : α
  /-- The height drawn, no less than the floor of the figure. -/
  drawn : α
  /-- The stall, then the rest. -/
  segments : List (Segment α)
  /-- It is cut off at the top of a broken axis. -/
  overflow : Bool
deriving DecidableEq, Repr

/-- The bars of one query. -/
structure BarGroup (α : Type) where
  /-- The display id. -/
  query : String
  label : String
  /-- The middle of its slot. -/
  x : α
  bars : List (Bar α)
deriving DecidableEq, Repr

structure Panel (α : Type) where
  row : Nat
  column : Nat
  kind : PanelKind
  scaleFactor : ScaleFactor
  unit : DisplayUnit
  axis : Option (BrokenAxis α)
  groups : List (BarGroup α)
  xLow : α
  xHigh : α
  /-- The largest value on the axis. -/
  yMax : α
  title : Option String
  axisOnRight : Bool
deriving DecidableEq, Repr

structure FigureLayout (α : Type) where
  name : String
  width : Nat
  height : Nat
  /-- Relative widths of the columns, blank ones among them. -/
  columnWidths : List α
  rowHeights : List α
  panels : List (Panel α)
  legend : List LegendEntry
  hatchSpacing : Nat
  issues : List Issue
deriving DecidableEq, Repr

variable {α : Type} [Scalar α]

namespace DisplayUnit

/-- A latency in milliseconds, in the unit. -/
def latency (ms : α) : DisplayUnit → α
  | milliseconds => ms
  | seconds => ms / 1000

/-- A stall in microseconds, in the unit. -/
def stall (us : UInt64) : DisplayUnit → α
  | milliseconds => Scalar.ofNat us.toNat / 1000
  | seconds => Scalar.ofNat us.toNat / 1000000

def suffix : DisplayUnit → String
  | milliseconds => "ms"
  | seconds => "s"

def axisLabel (u : DisplayUnit) : String := s!"Latency [{u.suffix}]"

/-- The unit that a policy chooses when no latency exceeds `maxLatencyMs`. -/
def choose (maxLatencyMs : UInt64) : UnitPolicy → DisplayUnit
  | .milliseconds => milliseconds
  | .seconds => seconds
  | .auto => if 1000 < maxLatencyMs then seconds else milliseconds

end DisplayUnit

namespace Segment

def height (s : Segment α) : α := s.top - s.bottom

end Segment

namespace Bar

def ofSelection (engine : EngineStyle) (x width : α) (unit : DisplayUnit) (floor : α)
    (axis : Option (BrokenAxis α)) (s : Selection) : Bar α :=
  let value := unit.latency (Scalar.ofNat s.latencyMs.toNat)
  let stall := match s.stallUs with
    | some us => unit.stall us
    | none => 0
  let drawn := Scalar.larger value floor
  let stallTop := Scalar.smaller stall drawn
  { engine := engine.tag
    color := engine.color
    x := x
    width := width
    value := value
    stall := stall
    drawn := drawn
    segments := [⟨0, stallTop, true⟩, ⟨stallTop, drawn, false⟩]
    overflow := axis.any fun a ↦ a.clips drawn }

end Bar

namespace Panel

def bars (p : Panel α) : List (Bar α) := p.groups.flatMap (·.bars)

/-- Where a value stands on the axis of the panel. -/
def project (p : Panel α) (value : α) : α :=
  match p.axis with
  | some axis => axis.project value
  | none => Scalar.smaller value p.yMax

def yTop (p : Panel α) : α :=
  match p.axis with
  | some axis => axis.top
  | none => p.yMax

end Panel

/-- The middle of the `k`-th of `count` bars that stand around `x`. -/
def barCenter (x barWidth : α) (count k : Nat) : α :=
  x + (Scalar.ofNat k - (Scalar.ofNat count - 1) / 2) * barWidth

def slotCenter (spacing : α) (slot : Nat) : α := Scalar.ofNat slot * spacing

/-- The right end of the range of some slots. -/
def slotsEnd (spacing : α) (slots : Nat) : α :=
  Scalar.ofNat (max slots 1 - 1) * spacing + spacing / 2

namespace SelectionIndex

/-- The largest latency among some queries and engines at a scale factor. -/
def maxLatencyMs (index : SelectionIndex) (engines : List EngineStyle) (sf : ScaleFactor)
    (queries : List String) : UInt64 :=
  (queries.flatMap fun q ↦ engines.filterMap fun e ↦ index[(⟨e.tag, q, sf⟩ : Group)]?).foldl
    (fun most s ↦ max most s.latencyMs) 0

def missingIssues (index : SelectionIndex) (engines : List EngineStyle) (sf : ScaleFactor)
    (queries : List String) : List Issue :=
  queries.flatMap fun q ↦ engines.filterMap fun e ↦ index.missing? ⟨e.tag, q, sf⟩

end SelectionIndex

namespace LatencyFigure

variable (f : LatencyFigure α) (index : SelectionIndex)

/-- Columns from one scale factor to the next: its panel, and with an outlier that
panel's companion and a blank. -/
def columnStride : Nat := if f.outlierQuery.isSome then 3 else 1

def barWidth : α := f.groupWidth / Scalar.ofNat f.engines.length

/-- The bars of a query. -/
def groupBars (sf : ScaleFactor) (unit : DisplayUnit) (axis : Option (BrokenAxis α)) (x : α)
    (query : String) : List (Bar α) :=
  f.engines.zipIdx.filterMap fun (e, k) ↦
    (index[(⟨e.tag, query, sf⟩ : Group)]?).map
      (Bar.ofSelection e (barCenter x f.barWidth f.engines.length k) f.barWidth unit
        (unit.latency f.floorMs) axis)

def groups (sf : ScaleFactor) (unit : DisplayUnit) (axis : Option (BrokenAxis α))
    (queries : List String) : List (BarGroup α) :=
  queries.zipIdx.map fun (query, slot) ↦
    { query := query
      label := f.rules.label query
      x := slotCenter f.slotSpacing slot
      bars := f.groupBars index sf unit axis (slotCenter f.slotSpacing slot) query }

/-- Room above the tallest bar where the axis is not broken. -/
def headroom : α := 1.1

/-- The largest height drawn, or the floor. -/
def tallest (floor : α) (groups : List (BarGroup α)) : α :=
  (groups.flatMap (·.bars)).foldl (fun most b ↦ Scalar.larger most b.drawn) floor

def panel (row : Nat) (panels : PanelRow α) (column : Nat) (kind : PanelKind)
    (sf : ScaleFactor) (unit : DisplayUnit) (queries : List String) : Panel α :=
  let axis := (panels.tearFor sf).bind fun t ↦ t.axis.toOption
  let groups := f.groups index sf unit axis queries
  { row := row
    column := column
    kind := kind
    scaleFactor := sf
    unit := unit
    axis := axis
    groups := groups
    xLow := -(f.slotSpacing / 2)
    xHigh := slotsEnd f.slotSpacing groups.length
    yMax := match axis with
      | some a => a.max
      | none => tallest (unit.latency f.floorMs) groups * headroom
    title := match kind with
      | .main => some s!"TPC-H Scale Factor {sf.label}"
      | .overflow => none
    axisOnRight := kind = .overflow }

/-- The panels of one scale factor. -/
def scaleFactorPanels (row : Nat) (panels : PanelRow α) (position : Nat)
    (sf : ScaleFactor) : List (Panel α) :=
  let column := position * f.columnStride
  let unit := DisplayUnit.choose (index.maxLatencyMs f.engines sf f.expectedQueries) panels.unit
  f.panel index row panels column .main sf unit f.mainQueries ::
    f.outlierQuery.toList.map fun q ↦
      f.panel index row panels (column + 1) .overflow sf unit [q]

def panels : List (Panel α) :=
  f.rows.zipIdx.flatMap fun (r, row) ↦
    r.scaleFactors.zipIdx.flatMap fun (sf, position) ↦
      f.scaleFactorPanels index row r position sf

/-- The issues of the figure: what its expectation and the data differ in, then the
bars that are missing in each panel. -/
def issues : List Issue :=
  index.coverageIssues f.engineTags f.scaleFactors f.expectedQueries ++
    f.scaleFactors.flatMap fun sf ↦
      index.missingIssues f.engines sf f.mainQueries ++
        f.outlierQuery.toList.flatMap fun q ↦ index.missingIssues f.engines sf [q]

/-- Relative widths of the columns of the longest row. -/
def columnWidths : List α :=
  let longest := (f.rows.map fun r ↦ r.scaleFactors.length).foldl max 0
  (List.range longest).flatMap fun k ↦
    match f.outlier with
    | none => [f.mainWidthRatio]
    | some o =>
        [f.mainWidthRatio, o.widthRatio] ++ if k + 1 < longest then [f.spacerRatio] else []

/-- The engines that have a bar in the first panel, then the hatching. -/
def legend (panels : List (Panel α)) : List LegendEntry :=
  let shown (e : EngineStyle) : Bool :=
    panels.head?.any fun p ↦ p.bars.any fun b ↦ b.engine == e.tag
  ((f.engines.filter shown).map fun e ↦ ⟨e.label, e.color, false⟩) ++
    [⟨f.stallLabel, "#ffffff", true⟩]

/-- The layout of a valid figure. -/
def layout : Except (FigureFault α) (FigureLayout α) :=
  match f.fault? with
  | some fault => .error fault
  | none =>
      let panels := f.panels index
      .ok
        { name := f.name
          width := f.width
          height := f.height
          columnWidths := f.columnWidths
          rowHeights := f.rows.map (·.heightRatio)
          panels := panels
          legend := f.legend panels
          hatchSpacing := f.hatchSpacing
          issues := f.issues index }

end LatencyFigure

namespace FigureLayout

def panelAt (l : FigureLayout α) (row column : Nat) : Option (Panel α) :=
  l.panels.find? fun p ↦ p.row = row ∧ p.column = column

end FigureLayout
end QueryBench
