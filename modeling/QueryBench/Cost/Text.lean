import QueryBench.Cost.Report
import QueryBench.Csv.Writer
import QueryBench.Document.Basic

/-!
# Writing the cost report

As a table the report is rounded to two places and carries the scale factor only
where it spans more than one.  As a document it keeps every digit.
-/

namespace QueryBench
namespace CostReport

def header (r : CostReport) : List String :=
  ["backend", "query"] ++ (if r.spansScaleFactors then ["sf"] else []) ++
    Counter.all.map Counter.reportName

def rowFields (spans : Bool) (row : CostRow) : List String :=
  [row.backend, row.query] ++ (if spans then [row.scaleFactor.label] else []) ++
    Counter.all.map fun k ↦ Decimal.fixedText 2 (row.perTuple.get k)

def table (r : CostReport) : Bytes :=
  Csv.write (r.header :: r.rows.map (rowFields r.spansScaleFactors))

def rowDocument (row : CostRow) : Document :=
  .object ([("backend", .text row.backend), ("query", .text row.query),
    ("sf", .text row.scaleFactor.label)] ++
    Counter.all.map fun k ↦ (k.reportName, Document.ofFloat (row.perTuple.get k)))

def document (r : CostReport) : Document := .list (r.rows.map rowDocument)

inductive Format where
  | table
  | document
deriving DecidableEq, Repr

def written (r : CostReport) : Format → Bytes
  | .table => r.table
  | .document => Bytes.ofString r.document.pretty

end CostReport
end QueryBench
