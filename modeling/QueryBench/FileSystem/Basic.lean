import Std.Data.ExtTreeMap
import QueryBench.FileSystem.Path
import QueryBench.Text.Bytes

/-!
# File systems

The files that a command can see are a value: what stands at each location below
the root, whether it may be read, and which directory relative paths start from.
Reading and writing go through path names, which are resolved step by step, so that
every directory on the way has to be there.
-/

namespace QueryBench

inductive Node where
  | file (content : Bytes)
  | directory
deriving DecidableEq, Repr

/-- What stands at a location.  A file that may not be read can still be written. -/
structure Entry where
  node : Node
  readable : Bool
deriving DecidableEq, Repr

/-- The names that lead from the root to a node. -/
abbrev Location := List String

structure FileSystem where
  /-- The working directory, where relative paths start. -/
  working : Location
  entries : Std.ExtTreeMap Location Entry

namespace FileSystem

inductive Fault where
  | notFound
  | denied
  | alreadyExists
  | notDirectory
  | isDirectory
deriving DecidableEq, Repr

def Fault.message : Fault → String
  | notFound => "No such file or directory (os error 2)"
  | denied => "Permission denied (os error 13)"
  | alreadyExists => "File exists (os error 17)"
  | notDirectory => "Not a directory (os error 20)"
  | isDirectory => "Is a directory (os error 21)"

/-- An empty working directory. -/
def empty (working : Location) : FileSystem := ⟨working, ∅⟩

/-- What stands at a location; the working directory and those above it always do. -/
def node? (fs : FileSystem) (loc : Location) : Option Node :=
  if loc.isPrefixOf fs.working then some .directory else fs.entries[loc]?.map (·.node)

/-- Nothing keeps a command from reading what stands, or is created, at a location. -/
def isReadable (fs : FileSystem) (loc : Location) : Bool :=
  fs.entries[loc]?.all (·.readable)

/-- Puts a node at a location.  What is new there may be read, and what takes the place
of another node may be read if that could be. -/
def put (fs : FileSystem) (loc : Location) (node : Node) : FileSystem :=
  { fs with entries := fs.entries.insert loc ⟨node, fs.isReadable loc⟩ }

/-- Takes away the right to read what stands at a location. -/
def withhold (fs : FileSystem) (loc : Location) : FileSystem :=
  { fs with entries := fs.entries.modify loc fun e ↦ { e with readable := false } }

/-- The directory reached from a directory by one step; nothing is above the root. -/
def enter (fs : FileSystem) (dir : Location) (step : String) : Except Fault Location :=
  if step = "." then .ok dir
  else if step = ".." then .ok dir.dropLast
  else
    match fs.node? (dir ++ [step]) with
    | none => .error .notFound
    | some (.file _) => .error .notDirectory
    | some .directory => .ok (dir ++ [step])

/-- The directory reached by a sequence of steps. -/
def enterAll (fs : FileSystem) : Location → List String → Except Fault Location
  | dir, [] => .ok dir
  | dir, step :: rest =>
      match fs.enter dir step with
      | .error fault => .error fault
      | .ok next => fs.enterAll next rest

/-- Where the steps of a path start. -/
def origin (fs : FileSystem) (path : String) : Location :=
  if Path.isAbsolute path then [] else fs.working

/-- The last step of a path; that of the root stays where it is. -/
def lastStep? (path : String) : Option (String × List String) :=
  match (Path.steps path).reverse with
  | [] => if Path.isAbsolute path then some (".", []) else none
  | last :: before => some (last, before.reverse)

/-- The directory that the last step of a path starts from, and that step. -/
def approach (fs : FileSystem) (path : String) : Except Fault (Location × String) :=
  match lastStep? path with
  | none => .error .notFound
  | some (last, before) => (fs.enterAll (fs.origin path) before).map fun l ↦ (l, last)

def isDots (step : String) : Bool := step == "." || step == ".."

/-- The location and the node of a path. -/
def resolve (fs : FileSystem) (path : String) : Except Fault (Location × Node) :=
  match fs.approach path with
  | .error fault => .error fault
  | .ok (directory, last) =>
      if isDots last then (fs.enter directory last).map fun l ↦ (l, .directory)
      else
        match fs.node? (directory ++ [last]) with
        | none => .error .notFound
        | some (.file content) =>
            if Path.asksForDirectory path then .error .notDirectory
            else .ok (directory ++ [last], .file content)
        | some .directory => .ok (directory ++ [last], .directory)

def read (fs : FileSystem) (path : String) : Except Fault Bytes :=
  match fs.resolve path with
  | .error fault => .error fault
  | .ok (_, .directory) => .error .isDirectory
  | .ok (loc, .file content) => if fs.isReadable loc then .ok content else .error .denied

def isFile (fs : FileSystem) (path : String) : Bool :=
  match fs.resolve path with
  | .ok (_, .file _) => true
  | _ => false

def isDirectory (fs : FileSystem) (path : String) : Bool :=
  match fs.resolve path with
  | .ok (_, .directory) => true
  | _ => false

/-- The name of a location inside a directory. -/
def nameIn? (directory : Location) (loc : Location) : Option String :=
  match loc.reverse with
  | [] => none
  | last :: before => if before.reverse = directory then some last else none

/-- The names in a directory, ascending. -/
def list (fs : FileSystem) (path : String) : Except Fault (List String) :=
  match fs.resolve path with
  | .error fault => .error fault
  | .ok (_, .file _) => .error .notDirectory
  | .ok (directory, .directory) =>
      if fs.isReadable directory then
        .ok (fs.entries.toList.filterMap fun p ↦ nameIn? directory p.1)
      else .error .denied

/-- Where a path that is to be written leads. -/
def target (fs : FileSystem) (path : String) : Except Fault Location :=
  match fs.approach path with
  | .error fault => .error fault
  | .ok (directory, last) =>
      if isDots last || Path.asksForDirectory path then .error .isDirectory
      else
        match fs.node? (directory ++ [last]) with
        | some .directory => .error .isDirectory
        | _ => .ok (directory ++ [last])

def contentAt (fs : FileSystem) (loc : Location) : Bytes :=
  match fs.node? loc with
  | some (.file content) => content
  | _ => []

/-- Gives a file new content, creating it where it is not there. -/
def write (fs : FileSystem) (path : String) (content : Bytes) : Except Fault FileSystem :=
  (fs.target path).map fun l ↦ fs.put l (.file content)

/-- Adds content to the end of a file, creating it where it is not there. -/
def append (fs : FileSystem) (path : String) (content : Bytes) : Except Fault FileSystem :=
  (fs.target path).map fun l ↦ fs.put l (.file (fs.contentAt l ++ content))

def createDirectory (fs : FileSystem) (path : String) : Except Fault FileSystem :=
  match fs.approach path with
  | .error fault => .error fault
  | .ok (directory, last) =>
      if isDots last || (fs.node? (directory ++ [last])).isSome then .error .alreadyExists
      else .ok (fs.put (directory ++ [last]) .directory)

/-- A directory that is there already is as good as a created one. -/
def orPresent (fs : FileSystem) (path : String) (created : Except Fault FileSystem) :
    FileSystem × Option Fault :=
  match created with
  | .ok fs' => (fs', none)
  | .error fault => (fs, if fs.isDirectory path then none else some fault)

/-- Creates the first of some directories, each of which lies in the next one.  Those
created before a fault stay. -/
def createWithin (fs : FileSystem) : List String → FileSystem × Option Fault
  | [] => (fs, none)
  | path :: above =>
      match fs.createDirectory path with
      | .error .notFound =>
          match fs.createWithin above with
          | (fs', some fault) => (fs', some fault)
          | (fs', none) => fs'.orPresent path (fs'.createDirectory path)
      | created => fs.orPresent path created

/-- Creates a directory and those above it.  Where the path ends in a dot, the name
before the dot is the directory itself and not one above it, so it has to be there
already. -/
def createDirectories (fs : FileSystem) (path : String) : FileSystem × Option Fault :=
  if path.isEmpty then (fs, none) else fs.createWithin (path :: Path.ancestors path)

/-- Adds a node together with the directories above it. -/
def addEntry (fs : FileSystem) (loc : Location) (node : Node) : FileSystem :=
  (List.range loc.length).foldl
    (fun fs n ↦ if n = 0 then fs else fs.put (loc.take n) .directory) (fs.put loc node)

/-- The file system that holds some nodes. -/
def ofEntries (working : Location) (entries : List (Location × Node)) : FileSystem :=
  entries.foldl (fun fs e ↦ fs.addEntry e.1 e.2) (empty working)

/-- The nodes that differ from those of an earlier file system, in order of
location. -/
def changesFrom (fs earlier : FileSystem) : List (Location × Node) :=
  (fs.entries.toList.map fun e ↦ (e.1, e.2.node)).filter fun e ↦
    decide (earlier.node? e.1 ≠ some e.2)

theorem node?_put_self (fs : FileSystem) {loc : Location} (node : Node)
    (h : loc.isPrefixOf fs.working = false) :
    (fs.put loc node).node? loc = some node := by
  simp [node?, put, h]

theorem node?_put_of_ne (fs : FileSystem) {loc other : Location} (node : Node)
    (h : loc ≠ other) : (fs.put loc node).node? other = fs.node? other := by
  simp [node?, put, Std.ExtTreeMap.getElem?_insert, h]

/-- Writing changes no permission. -/
@[simp]
theorem isReadable_put (fs : FileSystem) (loc other : Location) (node : Node) :
    (fs.put loc node).isReadable other = fs.isReadable other := by
  by_cases h : loc = other
  · subst h
    simp [isReadable, put]
  · simp [isReadable, put, Std.ExtTreeMap.getElem?_insert, h]

theorem isReadable_of_node?_eq_none {fs : FileSystem} {loc : Location} (h : fs.node? loc = none) :
    fs.isReadable loc = true := by
  unfold node? at h
  split at h
  · cases h
  · rw [isReadable, Option.map_eq_none_iff.mp h, Option.all_none]

end FileSystem
end QueryBench
