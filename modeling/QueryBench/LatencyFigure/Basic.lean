import QueryBench.Chart.BrokenAxis
import QueryBench.Chart.Color
import QueryBench.QueryRules.Basic
import QueryBench.ScaleFactor

/-!
# Latency figures

A latency figure compares engines query by query.  It has a panel for each scale
factor, rows of panels for magnitudes of scale factors, and, if one query is much
slower than the rest, a narrow panel of its own for that query beside each panel.
-/

namespace QueryBench

/-- How a row of panels chooses its unit. -/
inductive UnitPolicy where
  | milliseconds
  | seconds
  /-- Seconds where a latency of the scale factor exceeds one second. -/
  | auto
deriving DecidableEq, Repr

/-- A broken axis for one scale factor, in the unit of its panels. -/
structure Tear (α : Type) where
  scaleFactor : ScaleFactor
  lower : α
  upper : α
  max : α
  /-- Height of the band on the axis; a tenth of `lower` where it is not given. -/
  gap : Option α
deriving DecidableEq, Repr

/-- Panels of one magnitude. -/
structure PanelRow (α : Type) where
  scaleFactors : List ScaleFactor
  unit : UnitPolicy
  tears : List (Tear α)
  heightRatio : α
deriving DecidableEq, Repr

/-- A query with panels of its own. -/
structure Outlier (α : Type) where
  /-- The raw query id. -/
  query : String
  widthRatio : α
deriving DecidableEq, Repr

structure LatencyFigure (α : Type) where
  name : String
  engines : List EngineStyle
  /-- Raw ids of the queries in the main panels. -/
  queries : List String
  rules : QueryRules
  rows : List (PanelRow α)
  outlier : Option (Outlier α)
  /-- Distance of the groups of bars. -/
  slotSpacing : α
  /-- Width of a group of bars. -/
  groupWidth : α
  /-- The least latency drawn, in milliseconds. -/
  floorMs : α
  /-- Distance of hatch lines, in pixels. -/
  hatchSpacing : Nat
  stallLabel : String
  mainWidthRatio : α
  /-- Width of the blank column between pairs of panels. -/
  spacerRatio : α
  width : Nat
  height : Nat

namespace Tear

variable {α : Type} [Scalar α]

def axis (t : Tear α) : Except (BrokenAxis.Fault α) (BrokenAxis α) :=
  BrokenAxis.ofBounds t.lower t.upper t.max (t.gap.getD (t.lower / 10))

end Tear

namespace PanelRow

variable {α : Type}

def tearFor (r : PanelRow α) (sf : ScaleFactor) : Option (Tear α) :=
  r.tears.find? fun t ↦ t.scaleFactor = sf

end PanelRow

/-- The display ids of raw ids, ascending and distinct. -/
def QueryRules.displayIds (r : QueryRules) (ids : List String) : List String :=
  (Std.ExtTreeSet.ofList (ids.filterMap r.displayId?)).toList

/-- The engines of the comparison of systems, in the order of the legend. -/
def systemEngines : List EngineStyle :=
  [⟨"duckdb", "DuckDB", "#04718a"⟩, ⟨"umbra_optimized", "Umbra (LLVM)", "#c5d31f"⟩,
    ⟨"umbra_adaptive", "Umbra (Hybrid)", "#8d9511"⟩,
    ⟨"inkfuse_fused", "Inkfuse (Compiling)", "#daa6f5"⟩,
    ⟨"inkfuse_rof", "Ink (ROF)", "#b056d0"⟩,
    ⟨"inkfuse_interpreted", "Ink (Vectorized)", "#782993"⟩,
    ⟨"inkfuse_hybrid", "Ink (Hybrid)", "#531c66"⟩]

/-- The raw ids of the queries that figures show. -/
def shownQueries : List String := ["q1", "q3", "q4", "q5", "q6", "q13", "q14", "q19"]

namespace LatencyFigure

variable {α : Type}

def engineTags (f : LatencyFigure α) : List String := f.engines.map (·.tag)

def scaleFactors (f : LatencyFigure α) : List ScaleFactor := f.rows.flatMap (·.scaleFactors)

/-- The display id of the query with panels of its own. -/
def outlierQuery (f : LatencyFigure α) : Option String :=
  f.outlier.bind fun o ↦ f.rules.displayId? o.query

/-- The display ids in the main panels, in the order of their slots. -/
def mainQueries (f : LatencyFigure α) : List String :=
  (f.rules.displayIds f.queries).filter fun id ↦ some id ≠ f.outlierQuery

def expectedQueries (f : LatencyFigure α) : List String :=
  f.mainQueries ++ f.outlierQuery.toList

variable [Scalar α]

/-- A figure that shows nothing, with the usual geometry. -/
def blank : LatencyFigure α where
  name := ""
  engines := []
  queries := []
  rules := .none
  rows := []
  outlier := none
  slotSpacing := 1.5
  groupWidth := 1.26
  floorMs := 1.5
  hatchSpacing := 8
  stallLabel := "Compilation Latency"
  mainWidthRatio := 5
  spacerRatio := 0.9
  width := 2200
  height := 750

/-- Four panels: two scale factors in milliseconds, two in seconds. -/
def mainFigure : LatencyFigure α :=
  { blank with
    name := "main"
    engines := systemEngines
    queries := shownQueries
    rules := .mainFigure
    rows := [⟨[.ofText "0.1", .ofText "1"], .milliseconds, [], 3⟩,
      ⟨[.ofText "10", .ofText "100"], .seconds, [], 3⟩] }

/-- The four panels with query 18 beside them, and with broken axes at the large
scale factors. -/
def splitFigure : LatencyFigure α :=
  { mainFigure with
    name := "main_split_y"
    rules := .splitFigure
    rows := [⟨[.ofText "0.1", .ofText "1"], .milliseconds, [], 4⟩,
      ⟨[.ofText "10", .ofText "100"], .seconds,
        [⟨.ofText "10", 0.25, 1, 1.5, none⟩, ⟨.ofText "100", 2.5, 3, 35, none⟩], 6⟩]
    outlier := some ⟨"q18", 1⟩
    height := 900 }

end LatencyFigure
end QueryBench
