import QueryBench.Decimal.Numeral
import QueryBench.Text.Blank

/-!
# Scale factors

A scale factor names the size of the data a query ran on.  It is a label: `1`
and `1.0` are different partitions of the measurements.  Only the cost report
and the throughput figure need the number the label denotes.
-/

namespace QueryBench

structure ScaleFactor where
  label : String
deriving DecidableEq, Repr

namespace ScaleFactor

/-- The scale factor a text names, without surrounding blanks. -/
def ofText (s : String) : ScaleFactor := ⟨Text.trim s⟩

instance : Ord ScaleFactor := ⟨fun a b ↦ compare a.label b.label⟩

inductive Fault where
  | notANumber
  | notPositive
deriving DecidableEq, Repr

def Fault.reason : Fault → String
  | notANumber => "not a number"
  | notPositive => "must be a positive finite number"

/-- The positive finite number that the label denotes. -/
def factor (s : ScaleFactor) : Except Fault Float :=
  match Numeral.float? s.label with
  | none => .error .notANumber
  | some x => if !x.isFinite || x ≤ 0.0 then .error .notPositive else .ok x

def faultMessage (s : ScaleFactor) (fault : Fault) : String :=
  s!"Invalid scale factor '{s.label}': {fault.reason}"

end ScaleFactor
end QueryBench
