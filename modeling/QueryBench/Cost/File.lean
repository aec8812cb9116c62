import QueryBench.Cost.Text
import QueryBench.Results.Fault

/-!
# Cost report files

A report is written to a file after the directories above it have been created.
-/

namespace QueryBench
namespace CostReport

/-- Creates the directories above a path. -/
def prepare (fs : FileSystem) (path : String) : FileSystem × Option FileFault :=
  match Path.parent? path with
  | none => (fs, none)
  | some directory =>
      match fs.createDirectories directory with
      | (prepared, some fault) => (prepared, some ⟨directory, .access fault⟩)
      | (prepared, none) => (prepared, none)

/-- The files that are left once a report has been written; directories stay where that
fails. -/
def store (r : CostReport) (fs : FileSystem) (path : String) (format : Format) :
    FileSystem × Option FileFault :=
  match prepare fs path with
  | (prepared, some fault) => (prepared, some fault)
  | (prepared, none) =>
      match prepared.write path (r.written format) with
      | .error fault => (prepared, some ⟨path, .access fault⟩)
      | .ok fs' => (fs', none)

def save (r : CostReport) (fs : FileSystem) (path : String) (format : Format) :
    Except FileFault FileSystem :=
  match r.store fs path format with
  | (_, some fault) => .error fault
  | (fs', none) => .ok fs'

end CostReport
end QueryBench
