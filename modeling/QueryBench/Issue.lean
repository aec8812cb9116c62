import QueryBench.Row

/-!
# Data issues

Conditions in the data that do not stop a report.  They are reported to the
operator, and counted where a command is asked to be strict.
-/

namespace QueryBench

inductive Issue where
  /-- No trial exists for a group that the report expects. -/
  | missing (group : Group)
  /-- An engine has the wrong number of query groups at a scale factor. -/
  | cardinality (engine : String) (scaleFactor : ScaleFactor) (expected actual : Nat)
  /-- A query group that the report does not expect. -/
  | unknownQuery (group : Group)
  /-- A raw query id equals the display id of a renamed query. -/
  | idCollision (group : Group)
  /-- Nothing is left of the latency once the stall is taken off. -/
  | nonPositiveExecution (group : Group)
deriving DecidableEq, Repr

namespace Issue

def message : Issue → String
  | missing g => s!"missing {g.engine} {g.query} at sf {g.scaleFactor.label}"
  | cardinality engine sf expected actual =>
      s!"{engine} at sf {sf.label} has {actual} query groups, expected {expected}"
  | unknownQuery g =>
      s!"unknown query {g.query} for {g.engine} at sf {g.scaleFactor.label}"
  | idCollision g =>
      s!"raw query id {g.query} for {g.engine} at sf {g.scaleFactor.label} " ++
        "collides with a remapped id"
  | nonPositiveExecution g =>
      s!"non-positive execution time for {g.engine} {g.query} at sf {g.scaleFactor.label}"

end Issue
end QueryBench
