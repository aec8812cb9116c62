import QueryBench.LatencyFigure.Validity

/-!
# Throughput figures

A throughput figure compares execution times, latencies without their stalls, of
engines with that of a baseline engine at one scale factor.  A value of 1.2 is a
fifth more throughput than the baseline.
-/

namespace QueryBench

structure ThroughputFigure (α : Type) where
  name : String
  engines : List EngineStyle
  /-- Raw query ids. -/
  queries : List String
  rules : QueryRules
  scaleFactor : ScaleFactor
  /-- The engine that others are compared with. -/
  baseline : String
  yLow : α
  yHigh : α
  /-- The value that a dashed line marks. -/
  referenceLine : α
  slotSpacing : α
  groupWidth : α
  width : Nat
  height : Nat

namespace ThroughputFigure

variable {α : Type}

def engineTags (f : ThroughputFigure α) : List String := f.engines.map (·.tag)

/-- The display ids, in the order of their slots. -/
def displayQueries (f : ThroughputFigure α) : List String := f.rules.displayIds f.queries

/-- The engines whose data the figure needs. -/
def neededEngines (f : ThroughputFigure α) : List String :=
  if f.baseline ∈ f.engineTags then f.engineTags else f.engineTags ++ [f.baseline]

variable [Scalar α]

/-- A figure that shows nothing, with the usual geometry. -/
def blank : ThroughputFigure α where
  name := ""
  engines := []
  queries := []
  rules := .none
  scaleFactor := ⟨""⟩
  baseline := ""
  yLow := 0.6
  yHigh := 1.5
  referenceLine := 1
  slotSpacing := 1.5
  groupWidth := 0.8
  width := 1100
  height := 500

/-- The execution modes of one engine against interpretation. -/
def engineFigure : ThroughputFigure α :=
  { blank with
    name := "main_inkfuse"
    engines := [⟨"inkfuse_fused", "Compiling", "#daa6f5"⟩, ⟨"inkfuse_rof", "ROF", "#b056d0"⟩,
      ⟨"inkfuse_interpreted", "Vectorized", "#782993"⟩,
      ⟨"inkfuse_hybrid", "Hybrid", "#531c66"⟩]
    queries := shownQueries
    rules := .engineFigure
    scaleFactor := .ofText "100"
    baseline := "inkfuse_interpreted" }

def scaleFault? (f : ThroughputFigure α) : Option (FigureFault α) :=
  match f.scaleFactor.factor with
  | .error fault => some (.scaleFactor f.scaleFactor fault)
  | .ok _ => none

def fault? (f : ThroughputFigure α) : Option (FigureFault α) :=
  [faultIf (f.engines = []) .noEngines,
    f.engines.findSome? EngineStyle.colorFault?,
    faultIf (f.displayQueries = []) .noQueries,
    f.scaleFault?,
    faultIf (¬ f.yLow < f.yHigh) (.emptyRange f.yLow f.yHigh),
    faultIf (¬ 0 < f.slotSpacing ∨ ¬ 0 < f.groupWidth) .spacing,
    faultIf (f.width = 0 ∨ f.height = 0) .canvas].findSome? id

end ThroughputFigure
end QueryBench
