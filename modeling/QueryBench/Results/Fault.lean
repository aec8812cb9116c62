import QueryBench.Csv.Text
import QueryBench.FileSystem.Basic

/-!
# Faults of result files

One unusable row makes the whole file unusable.  A fault names the file and, where
a row is to blame, the line that the row is reported at.
-/

namespace QueryBench

inductive Defect where
  /-- A row of timings has neither four nor five fields. -/
  | width (line actual : Nat)
  | number (line : Nat) (column value : String)
  | missingColumn (column : String)
  | rowLimit (limit : Nat)
  /-- The file cannot be opened, created or written. -/
  | access (fault : FileSystem.Fault)
  /-- A counter table that is expected is not a file. -/
  | noCounterTable
  /-- A log is not UTF-8. -/
  | notText
  | table (fault : Csv.Fault)
  /-- A table turns out to be a directory. -/
  | directoryTable
  /-- A log line has no timings. -/
  | logLine (line : Nat)
deriving DecidableEq, Repr

structure FileFault where
  path : String
  defect : Defect
deriving DecidableEq, Repr

namespace FileFault

def message : FileFault → String
  | ⟨path, .width line actual⟩ => s!"{path}:{line}: expected 4 or 5 columns, got {actual}"
  | ⟨path, .number line column value⟩ => s!"{path}:{line}: invalid {column} value '{value}'"
  | ⟨path, .missingColumn column⟩ => s!"{path}: missing required column '{column}'"
  | ⟨path, .rowLimit limit⟩ => s!"{path}: row count exceeds maximum {limit}"
  | ⟨path, .access fault⟩ => s!"I/O error on '{path}': {fault.message}"
  | ⟨path, .noCounterTable⟩ => s!"I/O error on '{path}': counter table not found"
  | ⟨path, .notText⟩ => s!"I/O error on '{path}': stream did not contain valid UTF-8"
  | ⟨path, .table fault⟩ => s!"CSV error in '{path}': {fault.message}"
  | ⟨path, .directoryTable⟩ =>
      s!"CSV error in '{path}': {FileSystem.Fault.isDirectory.message}"
  | ⟨path, .logLine line⟩ => s!"{path}:{line}: unrecognized Umbra log line"

end FileFault
end QueryBench
