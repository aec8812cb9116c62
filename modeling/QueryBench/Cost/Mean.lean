import Std.Data.ExtTreeMap
import QueryBench.Row

/-!
# Mean counters

The cost report looks at how stable counters are, so no trial is left out: every
counter of a group is averaged over all its samples, added up in input order.
-/

namespace QueryBench

/-- The mean reading of a group's samples, and how many there are. -/
structure Aggregate where
  group : Group
  mean : Counters
  trials : Nat

/-- Sum of some readings, and how many there are. -/
structure Tally where
  sum : Counters
  count : Nat

namespace Tally

def empty : Tally := ⟨.zero, 0⟩

def add (t : Tally) (c : Counters) : Tally := ⟨t.sum.add c, t.count + 1⟩

def mean (t : Tally) : Counters := t.sum.map fun _ x ↦ x / Float.ofNat t.count

end Tally

def tallies (samples : List Sample) : Std.ExtTreeMap Group Tally :=
  samples.foldl
    (fun table s ↦ table.alter s.group fun t ↦ some ((t.getD .empty).add s.reading)) ∅

/-- Means of all groups, in the order of groups. -/
def aggregateMean (samples : List Sample) : List Aggregate :=
  (tallies samples).toList.map fun p ↦ ⟨p.1, p.2.mean, p.2.count⟩

end QueryBench
