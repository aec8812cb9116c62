import QueryBench.LatencyFigure.Document
import QueryBench.ThroughputFigure.Basic

/-!
# Throughput figures as documents
-/

namespace QueryBench
namespace ThroughputFigure

open QueryBench.Configuration (Reader Refusal record text real size list)

def fieldNames : List String :=
  ["name", "engines", "queries", "rules", "scale_factor", "baseline", "y_range",
    "reference_line", "slot_spacing", "group_width", "width", "height"]

def range : Reader (Float × Float)
  | .list [low, high] =>
      match real low, real high with
      | .ok x, .ok y => .ok (x, y)
      | _, _ => .error .malformed
  | _ => .error .malformed

def set (dialect : Dialect) (f : ThroughputFigure Float) (name : String) :
    Reader (ThroughputFigure Float) := fun d ↦
  match name with
  | "name" => (text dialect d).map fun s ↦ { f with name := s }
  | "engines" => (list (EngineStyle.read dialect) d).map fun es ↦ { f with engines := es }
  | "queries" => (list (text dialect) d).map fun qs ↦ { f with queries := qs }
  | "rules" => (Configuration.rules dialect d).map fun r ↦ { f with rules := r }
  | "scale_factor" => (text dialect d).map fun s ↦ { f with scaleFactor := ⟨s⟩ }
  | "baseline" => (text dialect d).map fun s ↦ { f with baseline := s }
  | "y_range" => (range d).map fun r ↦ { f with yLow := r.1, yHigh := r.2 }
  | "reference_line" => (real d).map fun x ↦ { f with referenceLine := x }
  | "slot_spacing" => (real d).map fun x ↦ { f with slotSpacing := x }
  | "group_width" => (real d).map fun x ↦ { f with groupWidth := x }
  | "width" => (size d).map fun n ↦ { f with width := n }
  | "height" => (size d).map fun n ↦ { f with height := n }
  | _ => .ok f

def read (dialect : Dialect) : Reader (ThroughputFigure Float) :=
  record dialect fieldNames ["name", "engines", "queries", "scale_factor", "baseline"] blank
    (set dialect)

def document (f : ThroughputFigure Float) : Document :=
  .object [("name", .text f.name), ("engines", .list (f.engines.map EngineStyle.document)),
    ("queries", .list (f.queries.map .text)), ("rules", f.rules.document),
    ("scale_factor", .text f.scaleFactor.label), ("baseline", .text f.baseline),
    ("y_range", .list [.ofFloat f.yLow, .ofFloat f.yHigh]),
    ("reference_line", .ofFloat f.referenceLine), ("slot_spacing", .ofFloat f.slotSpacing),
    ("group_width", .ofFloat f.groupWidth), ("width", .ofNat f.width),
    ("height", .ofNat f.height)]

end ThroughputFigure
end QueryBench
