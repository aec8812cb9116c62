import Std.Data.ExtTreeMap

/-!
# Reference work

How many tuples a query works on at scale factor one.  Counter readings are
divided by this work, so every count is positive and no query has a default.
-/

namespace QueryBench

structure ReferenceTable where
  /-- Tuples by raw query id. -/
  tuples : Std.ExtTreeMap String UInt64

namespace ReferenceTable

inductive Fault where
  | notPositive (query : String)
deriving DecidableEq, Repr

def Fault.message : Fault → String
  | notPositive query =>
      s!"Invalid reference entry for query '{query}': tuple count must be positive"

def empty : ReferenceTable := ⟨∅⟩

/-- Adds entries one after the other; a later one replaces an earlier one of its
query. -/
def addAll (table : ReferenceTable) : List (String × UInt64) → Except Fault ReferenceTable
  | [] => .ok table
  | (query, n) :: rest =>
      if n = 0 then .error (.notPositive query)
      else addAll ⟨table.tuples.insert query n⟩ rest

def ofList (entries : List (String × UInt64)) : Except Fault ReferenceTable :=
  empty.addAll entries

/-- Work estimates for queries of the TPC-H benchmark. -/
def tpchEntries : List (String × UInt64) :=
  [("q1", 600000), ("q3", 800000), ("q4", 750000), ("q6", 600000), ("q14", 620000)]

def tpch : ReferenceTable := ⟨Std.ExtTreeMap.ofList tpchEntries⟩

def get? (table : ReferenceTable) (query : String) : Option UInt64 := table.tuples[query]?

def toList (table : ReferenceTable) : List (String × UInt64) := table.tuples.toList

def size (table : ReferenceTable) : Nat := table.tuples.size

end ReferenceTable
end QueryBench
