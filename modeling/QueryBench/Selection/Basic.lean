import Std.Data.ExtTreeMap
import QueryBench.Issue

/-!
# Selection

Every group is represented by its trial of least latency, the first of them in
input order.  The trial is kept whole: the stall reported beside a latency was
measured in the same run.

A report expects one group for each of its engines, scale factors and queries.
Groups that are missing and groups that are not expected are data issues.
-/

namespace QueryBench

/-- The representative trial of a group, and how many trials the group has. -/
structure Selection where
  trial : Trial
  trials : Nat

namespace Selection

def latencyMs (s : Selection) : UInt64 := s.trial.reading.latencyMs

def stallUs (s : Selection) : Option UInt64 := s.trial.reading.stallUs

/-- The faster of two trials; the first where neither is. -/
def faster (a b : Trial) : Trial :=
  if b.reading.latencyMs < a.reading.latencyMs then b else a

/-- The selection once one more trial of its group has come. -/
def add (t : Trial) : Option Selection → Selection
  | none => ⟨t, 1⟩
  | some s => ⟨faster s.trial t, s.trials + 1⟩

end Selection

def select (trials : List Trial) (g : Group) : Option Selection :=
  match trials.filter fun t ↦ t.group = g with
  | [] => none
  | t :: rest => some ⟨rest.foldl Selection.faster t, rest.length + 1⟩

/-- Selections by group, in the order of groups. -/
abbrev SelectionIndex := Std.ExtTreeMap Group Selection

/-- The selections of all groups, in one pass. -/
def selectAll (trials : List Trial) : SelectionIndex :=
  trials.foldl (fun index t ↦ index.alter t.group fun s ↦ some (Selection.add t s)) ∅

namespace SelectionIndex

/-- The query ids an index holds for an engine at a scale factor, in order. -/
def queriesFor (index : SelectionIndex) (engine : String) (sf : ScaleFactor) :
    List String :=
  (index.toList.filter fun p ↦ p.1.engine = engine ∧ p.1.scaleFactor = sf).map
    fun p ↦ p.1.query

/-- The issue of a group that has no selection. -/
def missing? (index : SelectionIndex) (g : Group) : Option Issue :=
  if g ∈ index then none else some (.missing g)

/-- Issues of one engine at one scale factor: a wrong number of groups first, then
each group that is not expected. -/
def pairIssues (index : SelectionIndex) (expected : List String) (engine : String)
    (sf : ScaleFactor) : List Issue :=
  let present := index.queriesFor engine sf
  let count := expected.eraseDups.length
  (if present.length = count then [] else [.cardinality engine sf count present.length]) ++
    (present.filter (· ∉ expected)).map fun q ↦ .unknownQuery ⟨engine, q, sf⟩

/-- Issues of all engines at all scale factors. -/
def coverageIssues (index : SelectionIndex) (engines : List String)
    (scaleFactors : List ScaleFactor) (expected : List String) : List Issue :=
  engines.flatMap fun e ↦ scaleFactors.flatMap fun sf ↦ index.pairIssues expected e sf

end SelectionIndex
end QueryBench
