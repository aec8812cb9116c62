import QueryBench.Issue
import QueryBench.QueryRules.Basic

/-!
# Relabelling rows

Rows carry raw query ids when they are read.  Relabelling drops the rows of
excluded ids and gives the others their display ids.  A row whose raw id is
already the display id of another query would fall into that query's group; it
is dropped and reported instead.
-/

namespace QueryBench

/-- The outcome of relabelling rows. -/
structure Relabelled (α : Type) where
  /-- The rows kept, in input order. -/
  rows : List (Row α)
  /-- How many rows had an excluded id. -/
  excluded : Nat
  /-- One collision for each group dropped, in order of appearance. -/
  issues : List Issue

namespace Relabelled

def empty {α : Type} : Relabelled α := ⟨[], 0, []⟩

end Relabelled

namespace QueryRules

variable {α : Type}

/-- What becomes of one row. -/
inductive Fate (α : Type) where
  | kept (row : Row α)
  | excluded
  | collision (issue : Issue)

def fate (r : QueryRules) (row : Row α) : Fate α :=
  if r.collides row.group.query then .collision (.idCollision row.group)
  else
    match r.displayId? row.group.query with
    | some display => .kept ⟨{ row.group with query := display }, row.reading⟩
    | Option.none => .excluded

/-- Adds one row in front of what became of the rows after it. -/
def Fate.addTo (rest : Relabelled α) : Fate α → Relabelled α
  | kept row => { rest with rows := row :: rest.rows }
  | excluded => { rest with excluded := rest.excluded + 1 }
  | collision issue => { rest with issues := issue :: rest.issues.filter (· ≠ issue) }

/-- Gives every row its display id. -/
def relabel (r : QueryRules) (rows : List (Row α)) : Relabelled α :=
  rows.foldr (fun row rest ↦ (r.fate row).addTo rest) .empty

end QueryRules
end QueryBench
