import Std.Data.ExtTreeMap
import Std.Data.ExtTreeSet

/-!
# Query rules

Benchmark drivers emit probe queries beside the real ones, and name queries so
that a plain sort puts `q13` before `q3`.  Query rules leave probes out and rename
raw query ids to display ids, whose sorted order is the order of presentation.
Accepted rules rename no id to an excluded or renamed one, so a display id is its
own display id, and no two raw ids share one.
-/

namespace QueryBench

structure QueryRules where
  excluded : Std.ExtTreeSet String
  /-- Display ids by raw id. -/
  remap : Std.ExtTreeMap String String

namespace QueryRules

inductive Fault where
  | sharedTarget (target : String)
  | repeatedSource (source : String)
  | excludedSource (source : String)
  | excludedTarget (target : String)
  | renamedTarget (target : String)
deriving DecidableEq, Repr

def Fault.message : Fault → String
  | sharedTarget target => s!"Invalid query rules: more than one query is remapped to '{target}'"
  | repeatedSource source => s!"Invalid query rules: '{source}' is remapped twice"
  | excludedSource source => s!"Invalid query rules: '{source}' is both excluded and remapped"
  | excludedTarget target => s!"Invalid query rules: remap target '{target}' is excluded"
  | renamedTarget target => s!"Invalid query rules: remap target '{target}' is itself remapped"

def none : QueryRules := ⟨∅, ∅⟩

/-- Collects renamings into a table; a shared target is noticed before a repeated
source. -/
def collect (table : Std.ExtTreeMap String String) (targets : List String) :
    List (String × String) → Except Fault (Std.ExtTreeMap String String)
  | [] => .ok table
  | (source, target) :: rest =>
      if target ∈ targets then .error (.sharedTarget target)
      else if source ∈ table then .error (.repeatedSource source)
      else collect (table.insert source target) (target :: targets) rest

/-- What is wrong with one renaming under the rules. -/
def renamingFault? (r : QueryRules) (source target : String) : Option Fault :=
  if source ∈ r.excluded then some (.excludedSource source)
  else if target ∈ r.excluded then some (.excludedTarget target)
  else if source ≠ target ∧ target ∈ r.remap then some (.renamedTarget target)
  else Option.none

/-- The first fault in order of raw ids. -/
def fault? (r : QueryRules) : Option Fault :=
  r.remap.toList.findSome? fun p ↦ r.renamingFault? p.1 p.2

/-- Rules from the excluded ids and the renamings, raw id first. -/
def ofLists (excluded : List String) (renamings : List (String × String)) :
    Except Fault QueryRules :=
  match collect ∅ [] renamings with
  | .error fault => .error fault
  | .ok table =>
      let rules : QueryRules := ⟨Std.ExtTreeSet.ofList excluded, table⟩
      match rules.fault? with
      | some fault => .error fault
      | Option.none => .ok rules

/-- The display id of a raw id; none for an excluded one. -/
def displayId? (r : QueryRules) (id : String) : Option String :=
  if id ∈ r.excluded then Option.none else some (r.remap.getD id id)

/-- The raw id that a display id stands for. -/
def rawId (r : QueryRules) (display : String) : String :=
  ((r.remap.toList.find? fun p ↦ p.2 == display).map Prod.fst).getD display

/-- A raw id that equals the display id of another query. -/
def collides (r : QueryRules) (raw : String) : Bool :=
  !r.remap.contains raw && r.remap.toList.any fun p ↦ p.2 == raw

/-- The label of a display id: the raw id, with a capital where it is `q` and a
number. -/
def label (r : QueryRules) (display : String) : String :=
  match (r.rawId display).toList with
  | 'q' :: rest =>
      if !rest.isEmpty && rest.all Char.isDigit then String.ofList ('Q' :: rest)
      else r.rawId display
  | _ => r.rawId display

/-- Rules that are known to be free of faults. -/
def preset (excluded : List String) (renamings : List (String × String)) : QueryRules :=
  ⟨Std.ExtTreeSet.ofList excluded, Std.ExtTreeMap.ofList renamings⟩

/-- Rules of the four-panel latency figure. -/
def mainFigure : QueryRules :=
  preset ["l_count", "l_point", "q_bigjoin", "q18"]
    [("q13", "q87"), ("q14", "q88"), ("q19", "q99")]

/-- Rules of the figure with its own panels for query 18. -/
def splitFigure : QueryRules :=
  preset ["l_count", "l_point"]
    [("q13", "q87"), ("q14", "q88"), ("q18", "q98"), ("q19", "q99")]

/-- Rules of the comparison of one engine's execution modes. -/
def engineFigure : QueryRules :=
  preset ["l_count", "l_point", "q_bigjoin"]
    [("q13", "q87"), ("q14", "q88"), ("q18", "q98"), ("q19", "q99")]

end QueryRules
end QueryBench
