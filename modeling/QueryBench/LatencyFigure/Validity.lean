import QueryBench.LatencyFigure.Basic
import QueryBench.Text.Blank

/-!
# Valid latency figures

A figure is laid out only if it is consistent.  Its parts are examined in a fixed
order, and the first fault found is the one reported.
-/

namespace QueryBench

inductive FigureFault (α : Type) where
  | emptyName
  | noEngines
  | color (tag color : String)
  | repeatedEngine (tag : String)
  | rules (fault : QueryRules.Fault)
  | noQueries
  | excludedQuery (query : String)
  | excludedOutlier (query : String)
  | outlierWidth
  | noRows
  | rowWithoutScaleFactors
  | rowHeight
  | tearWithoutUnit
  | tearOutsideRow (sf : ScaleFactor)
  | axis (fault : BrokenAxis.Fault α)
  | scaleFactor (sf : ScaleFactor) (fault : ScaleFactor.Fault)
  | emptyRange (low high : α)
  | spacing
  | groupTooWide (width spacing : α)
  | negativeFloor
  | hatchOrCanvas
  | canvas
  | panelWidths
deriving DecidableEq, Repr

namespace FigureFault

def reason : FigureFault Float → String
  | emptyName => "figure name is empty"
  | noEngines => "no engines configured"
  | color tag c => s!"engine '{tag}' has invalid color '{c}'"
  | repeatedEngine tag => s!"engine '{tag}' is listed twice"
  | rules fault => fault.message
  | noQueries => "no queries left after applying the query rules"
  | excludedQuery query => s!"query '{query}' is excluded by the query rules"
  | excludedOutlier query => s!"outlier query '{query}' is excluded by the query rules"
  | outlierWidth => "outlier width ratio must be positive"
  | noRows => "no regime rows configured"
  | rowWithoutScaleFactors => "regime row without scale factors"
  | rowHeight => "row height ratio must be positive"
  | tearWithoutUnit => "tear bounds need a fixed unit, not auto"
  | tearOutsideRow sf => s!"tear for scale factor {sf.label} outside its row"
  | axis fault => fault.message
  | scaleFactor sf fault => sf.faultMessage fault
  | emptyRange low high => s!"empty y range {Decimal.plainText low}..{Decimal.plainText high}"
  | spacing => "slot spacing and group width must be positive"
  | groupTooWide group slot =>
      s!"group width {Decimal.plainText group} exceeds slot spacing {Decimal.plainText slot}"
  | negativeFloor => "floor must not be negative"
  | hatchOrCanvas => "hatch spacing and canvas size must be positive"
  | canvas => "canvas size must be positive"
  | panelWidths => "panel width ratios must be positive"

def message (f : FigureFault Float) : String := s!"Invalid figure configuration: {f.reason}"

end FigureFault

/-- A fault that arises under a condition. -/
def faultIf {ε : Type} (condition : Prop) [Decidable condition] (fault : ε) : Option ε :=
  if condition then some fault else none

namespace EngineStyle

variable {α : Type}

def colorFault? (e : EngineStyle) : Option (FigureFault α) :=
  faultIf (Color.parse? e.color = none) (.color e.tag e.color)

/-- The first fault of some engines: a color that is none, or a tag that occurs
before. -/
def faults? (seen : List String) : List EngineStyle → Option (FigureFault α)
  | [] => none
  | e :: rest =>
      if Color.parse? e.color = none then some (.color e.tag e.color)
      else if e.tag ∈ seen then some (.repeatedEngine e.tag)
      else faults? (e.tag :: seen) rest

end EngineStyle

variable {α : Type} [Scalar α]

namespace Tear

def fault? (scaleFactors : List ScaleFactor) (t : Tear α) : Option (FigureFault α) :=
  if t.scaleFactor ∉ scaleFactors then some (.tearOutsideRow t.scaleFactor)
  else
    match t.axis with
    | .error fault => some (.axis fault)
    | .ok _ => none

end Tear

namespace PanelRow

def fault? (r : PanelRow α) : Option (FigureFault α) :=
  [faultIf (r.scaleFactors = []) .rowWithoutScaleFactors,
    faultIf (¬ 0 < r.heightRatio) .rowHeight,
    faultIf (r.unit = .auto ∧ r.tears.length ≠ 0) .tearWithoutUnit,
    r.tears.findSome? (Tear.fault? r.scaleFactors)].findSome? id

end PanelRow

namespace LatencyFigure

def outlierFault? (f : LatencyFigure α) : Option (FigureFault α) :=
  f.outlier.bind fun o ↦
    if f.outlierQuery = none then some (.excludedOutlier o.query)
    else faultIf (¬ 0 < o.widthRatio) .outlierWidth

def fault? (f : LatencyFigure α) : Option (FigureFault α) :=
  [faultIf (f.name.toList.all Text.isBlank = true) .emptyName,
    faultIf (f.engines = []) .noEngines,
    EngineStyle.faults? [] f.engines,
    f.rules.fault?.map .rules,
    faultIf (f.mainQueries = []) .noQueries,
    f.queries.findSome? fun q ↦ faultIf (f.rules.displayId? q = none) (.excludedQuery q),
    f.outlierFault?,
    faultIf (f.rows.length = 0) .noRows,
    f.rows.findSome? PanelRow.fault?,
    faultIf (¬ 0 < f.slotSpacing ∨ ¬ 0 < f.groupWidth) .spacing,
    faultIf (f.slotSpacing < f.groupWidth) (.groupTooWide f.groupWidth f.slotSpacing),
    faultIf (¬ 0 ≤ f.floorMs) .negativeFloor,
    faultIf (f.hatchSpacing = 0 ∨ f.width = 0 ∨ f.height = 0) .hatchOrCanvas,
    faultIf (¬ 0 < f.mainWidthRatio ∨ f.spacerRatio < 0) .panelWidths].findSome? id

end LatencyFigure
end QueryBench
