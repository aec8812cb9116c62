import QueryBench.LatencyFigure.Layout
import QueryBench.ThroughputFigure.Basic

/-!
# Layout of throughput figures

A bar is drawn where both the engine and the baseline have a selection and both
executed for some time.  Every bar that is not drawn has an issue.
-/

namespace QueryBench

structure ThroughputBar (α : Type) where
  engine : String
  color : String
  /-- Its middle. -/
  x : α
  width : α
  /-- Execution time of the baseline over that of the engine. -/
  value : α
deriving DecidableEq, Repr

structure ThroughputGroup (α : Type) where
  query : String
  label : String
  x : α
  bars : List (ThroughputBar α)
deriving DecidableEq, Repr

structure ThroughputLayout (α : Type) where
  name : String
  width : Nat
  height : Nat
  groups : List (ThroughputGroup α)
  xLow : α
  xHigh : α
  yLow : α
  yHigh : α
  referenceLine : α
  legend : List LegendEntry
  issues : List Issue
deriving DecidableEq, Repr

namespace ThroughputFigure

variable {α : Type} [Scalar α] (f : ThroughputFigure α) (index : SelectionIndex)

/-- The execution time of a group's selection. -/
def execution? (engine query : String) : Option α :=
  (index[(⟨engine, query, f.scaleFactor⟩ : Group)]?).map fun s ↦ s.trial.reading.executionMs

/-- What comes of one engine and query: its value, or the issue in its place.  There
is neither where only the baseline has no selection. -/
inductive Outcome (α : Type) where
  | value (v : α)
  | issue (i : Issue)
  | noBaseline
deriving DecidableEq, Repr

def outcome (query engine : String) : Outcome α :=
  match f.execution? index engine query with
  | none => .issue (.missing ⟨engine, query, f.scaleFactor⟩)
  | some (execution : α) =>
      match f.execution? index f.baseline query with
      | none => .noBaseline
      | some baseline =>
          if execution ≤ 0 then
            .issue (.nonPositiveExecution ⟨engine, query, f.scaleFactor⟩)
          else if baseline ≤ 0 then
            .issue (.nonPositiveExecution ⟨f.baseline, query, f.scaleFactor⟩)
          else .value (baseline / execution)

/-- The issues of one query. -/
def queryIssues (query : String) : List Issue :=
  (index.missing? ⟨f.baseline, query, f.scaleFactor⟩).toList ++
    f.engines.filterMap fun e ↦
      match (f.outcome index query e.tag : Outcome α) with
      | .issue i => some i
      | _ => none

def barWidth : α := f.groupWidth / Scalar.ofNat f.engines.length

/-- The bars of one query around `x`. -/
def bars (x : α) (query : String) : List (ThroughputBar α) :=
  f.engines.zipIdx.filterMap fun (e, k) ↦
    match f.outcome index query e.tag with
    | .value v =>
        some ⟨e.tag, e.color, barCenter x f.barWidth f.engines.length k, f.barWidth, v⟩
    | _ => none

def groups : List (ThroughputGroup α) :=
  f.displayQueries.zipIdx.map fun (query, slot) ↦
    { query := query
      label := f.rules.label query
      x := slotCenter f.slotSpacing slot
      bars := f.bars index (slotCenter f.slotSpacing slot) query }

/-- The issues of all queries; of equal neighbors one is kept. -/
def issues : List Issue := (f.displayQueries.flatMap (f.queryIssues index)).eraseReps

def layout : Except (FigureFault α) (ThroughputLayout α) :=
  match f.fault? with
  | some fault => .error fault
  | none =>
      let groups := f.groups index
      .ok
        { name := f.name
          width := f.width
          height := f.height
          groups := groups
          xLow := -(f.slotSpacing / 2)
          xHigh := slotsEnd f.slotSpacing groups.length
          yLow := f.yLow
          yHigh := f.yHigh
          referenceLine := f.referenceLine
          legend := f.engines.map fun e ↦ ⟨e.label, e.color, false⟩
          issues := f.issues index }

end ThroughputFigure
end QueryBench
