import QueryBench.ScaleFactor
import QueryBench.Scalar

/-!
# Measured rows

Every measurement belongs to a group: one query on one engine at one scale
factor.  A row joins a group with what was read, a timing or a set of hardware
counters.  Groups are ordered by engine, query and scale factor label.
-/

namespace QueryBench

/-- One query on one engine at one scale factor. -/
structure Group where
  engine : String
  query : String
  scaleFactor : ScaleFactor
deriving DecidableEq, Repr

namespace Group

/-- The three labels in the order that groups are compared by. -/
def labels (g : Group) : List String := [g.engine, g.query, g.scaleFactor.label]

instance : Ord Group := ⟨compareOn labels⟩

theorem labels_injective {g h : Group} (e : g.labels = h.labels) : g = h := by
  obtain ⟨_, _, ⟨_⟩⟩ := g
  obtain ⟨_, _, ⟨_⟩⟩ := h
  simp_all [labels]

instance : Std.TransOrd Group :=
  inferInstanceAs (Std.TransCmp (compareOn labels))

instance : Std.LawfulEqOrd Group where
  compare_self := Std.ReflOrd.compare_self
  eq_of_compare h := labels_injective (Std.LawfulEqOrd.eq_of_compare h)

def display (g : Group) : String :=
  g.engine ++ "/" ++ g.query ++ "/sf" ++ g.scaleFactor.label

end Group

/-- What one run of a query read, and the group it belongs to. -/
structure Row (α : Type) where
  group : Group
  reading : α
deriving DecidableEq, Repr

/-- The hardware counters, in the order of report columns. -/
inductive Counter where
  | cycles
  | instructions
  | l1Misses
  | llcMisses
  | branchMisses
  | ipc
deriving DecidableEq, Repr

namespace Counter

def all : List Counter := [cycles, instructions, l1Misses, llcMisses, branchMisses, ipc]

/-- The column name in reports. -/
def reportName : Counter → String
  | cycles => "cycles"
  | instructions => "instructions"
  | l1Misses => "l1_misses"
  | llcMisses => "llc_misses"
  | branchMisses => "branch_misses"
  | ipc => "ipc"

/-- The column name in counter tables. -/
def inputName : Counter → String
  | cycles => "cycles"
  | instructions => "instructions"
  | l1Misses => "L1-misses"
  | llcMisses => "LLC-misses"
  | branchMisses => "branch-misses"
  | ipc => "IPC"

/-- Extensive counters grow with the work done; instructions per cycle is already
a ratio. -/
def isExtensive : Counter → Bool
  | ipc => false
  | _ => true

end Counter

/-- One reading of every counter. -/
structure Counters where
  cycles : Float
  instructions : Float
  l1Misses : Float
  llcMisses : Float
  branchMisses : Float
  ipc : Float

namespace Counters

def get (c : Counters) : Counter → Float
  | .cycles => c.cycles
  | .instructions => c.instructions
  | .l1Misses => c.l1Misses
  | .llcMisses => c.llcMisses
  | .branchMisses => c.branchMisses
  | .ipc => c.ipc

def ofFn (f : Counter → Float) : Counters :=
  ⟨f .cycles, f .instructions, f .l1Misses, f .llcMisses, f .branchMisses, f .ipc⟩

def map (f : Counter → Float → Float) (c : Counters) : Counters :=
  ofFn fun k ↦ f k (c.get k)

def add (c d : Counters) : Counters := ofFn fun k ↦ c.get k + d.get k

def zero : Counters := ofFn fun _ ↦ 0.0

@[simp] theorem get_ofFn (f : Counter → Float) (k : Counter) : (ofFn f).get k = f k := by
  cases k <;> rfl

theorem ext_get {c d : Counters} (h : ∀ k, c.get k = d.get k) : c = d := by
  obtain ⟨_, _, _, _, _, _⟩ := c
  obtain ⟨_, _, _, _, _, _⟩ := d
  have h₁ := h .cycles
  have h₂ := h .instructions
  have h₃ := h .l1Misses
  have h₄ := h .llcMisses
  have h₅ := h .branchMisses
  have h₆ := h .ipc
  simp_all [get]

end Counters

/-- How long a run took: the total in milliseconds, and the part of it spent
compiling in microseconds where that was measured. -/
structure Timing where
  latencyMs : UInt64
  stallUs : Option UInt64
  counters : Option Counters

namespace Timing

/-- Total time less compilation, in milliseconds; zero where the stall exceeds
the total. -/
def executionMs {α : Type} [Scalar α] (t : Timing) : α :=
  let stall : α := Scalar.ofNat (t.stallUs.getD 0).toNat / 1000
  let rest : α := Scalar.ofNat t.latencyMs.toNat - stall
  if 0 < rest then rest else 0

end Timing

abbrev Trial := Row Timing

abbrev Sample := Row Counters

end QueryBench
