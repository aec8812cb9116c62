import QueryBench.Command.Inputs

/-!
# The program

The files that a command reads are gathered into a value, the command runs on it,
and what it changed is written back.
-/

namespace QueryBench
namespace Disk

/-- The path of a location. -/
def pathOf (loc : Location) : String := "/" ++ "/".intercalate loc

/-- What stands at a location; a file that is not read, or may not be, counts as empty. -/
def entry? (loc : Location) (read : Bool) : IO (Option Entry) := do
  let path := (← IO.currentDir) / pathOf loc
  if ← path.isDir then
    return some ⟨.directory, true⟩
  else if !(← path.pathExists) then
    return none
  else if read then
    try
      return some ⟨.file (← IO.FS.readBinFile path).toList, true⟩
    catch
      | .permissionDenied .. => return some ⟨.file [], false⟩
      | fault => throw fault
  else
    return some ⟨.file [], true⟩

def entries (dir : Location) : IO (List (Location × Entry)) := do
  let path := (← IO.currentDir) / pathOf dir
  let mut found := []
  for child in ← path.readDir do
    let loc := dir ++ [child.fileName]
    if let some entry ← entry? loc false then
      found := (loc, entry) :: found
  return found

/-- Everything on the way of a path, and what stands in the directory that it
leads to. -/
def survey (working : Location) (read : Bool) (path : String) :
    IO (List (Location × Entry)) := do
  let mut loc := if Path.isAbsolute path then [] else working
  let mut found := []
  for step in Path.steps path do
    if step == ".." then
      loc := loc.dropLast
    else if step != "." then
      loc := loc ++ [step]
      if let some entry ← entry? loc read then
        found := (loc, entry) :: found
  if read || (← entry? loc false).map (·.node) != some .directory then
    return found.reverse
  else
    return found.reverse ++ (← entries loc)

/-- The file system that a survey found. -/
def fileSystem (working : Location) (found : List (Location × Entry)) : FileSystem :=
  let denied := found.filter fun e ↦ !e.2.readable
  (denied.map Prod.fst).foldl FileSystem.withhold
    (.ofEntries working (found.map fun e ↦ (e.1, e.2.node)))

def working : IO Location := return Path.steps (← IO.currentDir).toString

/-- The files that a command reads. -/
def gather (c : Command) : IO FileSystem := do
  let start ← working
  let places ← c.places.mapM (survey start false)
  let settings ← c.settings.mapM (survey start true)
  let known := places.flatten ++ settings.flatten
  let inputs ← (c.inputs Configuration.flowStyle (fileSystem start known)).mapM (survey start true)
  return fileSystem start (known ++ inputs.flatten)

/-- Writes what changed.  A file that may not be read was only added to. -/
def store (before after : FileSystem) : IO Unit :=
  (after.changesFrom before).forM fun
    | (loc, .directory) => IO.FS.createDirAll (pathOf loc)
    | (loc, .file content) =>
        let mode := if before.isReadable loc then .write else .append
        IO.FS.withFile (pathOf loc) mode fun handle ↦ handle.write content.toByteArray

end Disk

/-- A warning as it is shown. -/
def Warning.line (warning : Warning) : String :=
  match warning with
  | absentCampaign path => s!"Warning: {warning.message}: {path}"
  | data _ => s!"Warning: {warning.message}"
  | figure name _ => s!"Warning: {name}: {warning.message}"

/-- Runs a command on the files that are there. -/
def Command.runOnDisk (c : Command) : IO UInt32 := do
  let before ← Disk.gather c
  let outcome := c.run before
  Disk.store before outcome.files
  outcome.warnings.forM fun warning ↦ IO.eprintln warning.line
  IO.print outcome.output
  match outcome.fault with
  | none => return 0
  | some fault =>
      IO.eprintln s!"Error: {fault.message}"
      return 1

/-- How the program is called. -/
def usage : String :=
  "Usage: (plot | throughput | cost-report | import-umbra) [options]"

end QueryBench

def main (args : List String) : IO UInt32 :=
  match QueryBench.Command.ofArguments? args with
  | some c => c.runOnDisk
  | none => do
      IO.eprintln QueryBench.usage
      return 2
