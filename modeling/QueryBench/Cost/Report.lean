import QueryBench.Cost.Mean
import QueryBench.Cost.Reference
import QueryBench.QueryRules.Basic

/-!
# The cost report

A row of the report says what a group spent on each tuple of work: its mean
counters, divided by the scale factor times the reference work of its query.
Instructions per cycle are a ratio already and stay as they are.  One group
without reference work, or without a usable scale factor, makes the report fail.
-/

namespace QueryBench

inductive CostFault where
  | missingReference (query : String)
  | scaleFactor (sf : ScaleFactor) (fault : ScaleFactor.Fault)
deriving DecidableEq, Repr

def CostFault.message : CostFault → String
  | missingReference query => s!"No reference tuple count for query '{query}'"
  | scaleFactor sf fault => sf.faultMessage fault

/-- What one group spent on each tuple. -/
structure CostRow where
  backend : String
  /-- The raw query id. -/
  query : String
  displayQuery : String
  scaleFactor : ScaleFactor
  perTuple : Counters

namespace CostRow

/-- The labels that rows are sorted by. -/
def labels (r : CostRow) : List String := [r.displayQuery, r.backend, r.scaleFactor.label]

def notAfter (a b : CostRow) : Bool := (compare a.labels b.labels).isLE

/-- Readings for each unit of work. -/
def perWork (mean : Counters) (work : Float) : Counters :=
  mean.map fun k x ↦ if k.isExtensive then x / work else x

def ofAggregate (reference : ReferenceTable) (rules : QueryRules) (a : Aggregate) :
    Except CostFault CostRow :=
  let raw := rules.rawId a.group.query
  match reference.get? raw with
  | none => .error (.missingReference raw)
  | some tuples =>
      match a.group.scaleFactor.factor with
      | .error fault => .error (.scaleFactor a.group.scaleFactor fault)
      | .ok factor =>
          .ok ⟨a.group.engine, raw, a.group.query, a.group.scaleFactor,
            perWork a.mean (factor * Float.ofNat tuples.toNat)⟩

end CostRow

structure CostReport where
  rows : List CostRow

namespace CostReport

def empty : CostReport := ⟨[]⟩

/-- The rows of some groups, up to the first that has none. -/
def rowsOf (reference : ReferenceTable) (rules : QueryRules) :
    List Aggregate → Except CostFault (List CostRow)
  | [] => .ok []
  | a :: rest =>
      match CostRow.ofAggregate reference rules a with
      | .error fault => .error fault
      | .ok row => (rowsOf reference rules rest).map (row :: ·)

/-- The report on some groups, sorted by display id, backend and scale factor. -/
def ofAggregates (reference : ReferenceTable) (rules : QueryRules) (as : List Aggregate) :
    Except CostFault CostReport :=
  (rowsOf reference rules as).map fun rows ↦ ⟨rows.mergeSort CostRow.notAfter⟩

def withoutBackend (r : CostReport) (backend : String) : CostReport :=
  ⟨r.rows.filter (·.backend ≠ backend)⟩

def withoutBackends (r : CostReport) (backends : List String) : CostReport :=
  backends.foldl withoutBackend r

/-- The labels of the scale factors in the report, ascending. -/
def scaleFactors (r : CostReport) : List String :=
  (Std.ExtTreeSet.ofList (r.rows.map (·.scaleFactor.label))).toList

/-- Whether rows of one backend and query can repeat for several scale factors. -/
def spansScaleFactors (r : CostReport) : Bool := decide (1 < r.scaleFactors.length)

end CostReport
end QueryBench
