import Std.Data.ExtTreeMap
import QueryBench.Results.Layout
import QueryBench.Results.UmbraLog

/-!
# Importing logs

Every log of a directory is converted and its trials added to the timing table of
its engine and scale factor.  Logs are taken in the order of their names, so that
importing the same logs again adds the same rows in the same order.  The first
log that fails ends the import; what was written before stays.
-/

namespace QueryBench

structure ImportSummary where
  /-- Logs converted. -/
  logs : Nat
  /-- Files that are no logs. -/
  skipped : Nat
  /-- Rows added by timing table. -/
  written : Std.ExtTreeMap String Nat

namespace ImportSummary

def empty : ImportSummary := ⟨0, 0, ∅⟩

def skip (s : ImportSummary) : ImportSummary := { s with skipped := s.skipped + 1 }

def add (s : ImportSummary) (path : String) (rows : Nat) : ImportSummary :=
  { s with
    logs := s.logs + 1
    written := s.written.alter path fun n ↦ some (n.getD 0 + rows) }

end ImportSummary

namespace UmbraLog

/-- The timing table that a log belongs to. -/
def tablePath (log : UmbraLog) (dest : String) : String :=
  Path.join dest (ResultLayout.timingFileName log.mode.engine log.scaleFactor)

/-- Imports one log: the file system with its rows, and their number. -/
def importTo (log : UmbraLog) (fs : FileSystem) (dest path : String) :
    Except FileFault (FileSystem × Nat) :=
  match log.read fs path with
  | .error fault => .error fault
  | .ok trials =>
      (Timings.append fs (log.tablePath dest) trials).map fun fs' ↦ (fs', trials.length)

/-- Imports the files of some names, and tells what is there afterwards. -/
def importNames (source dest : String) :
    List String → FileSystem → ImportSummary → FileSystem × Except FileFault ImportSummary
  | [], fs, summary => (fs, .ok summary)
  | name :: rest, fs, summary =>
      match ofName? name with
      | none => importNames source dest rest fs summary.skip
      | some log =>
          match log.importTo fs dest (Path.join source name) with
          | .error fault => (fs, .error fault)
          | .ok (fs', rows) =>
              importNames source dest rest fs' (summary.add (log.tablePath dest) rows)

/-- Imports the logs of a directory. -/
def importDirectory (fs : FileSystem) (source dest : String) :
    FileSystem × Except FileFault ImportSummary :=
  match fs.list source with
  | .error fault => (fs, .error ⟨source, .access fault⟩)
  | .ok names =>
      importNames source dest (names.filter fun n ↦ fs.isFile (Path.join source n)) fs .empty

section Equations

variable {source dest name : String} {rest : List String} {fs : FileSystem} {s : ImportSummary}

theorem importNames_nil : importNames source dest [] fs s = (fs, .ok s) := (rfl)

theorem importNames_cons :
    importNames source dest (name :: rest) fs s =
      match ofName? name with
      | none => importNames source dest rest fs s.skip
      | some log =>
          match log.importTo fs dest (Path.join source name) with
          | .error fault => (fs, .error fault)
          | .ok (fs', rows) =>
              importNames source dest rest fs' (s.add (log.tablePath dest) rows) := (rfl)

end Equations

end UmbraLog
end QueryBench
