import QueryBench.Configuration.Reader
import QueryBench.Document.Basic
import QueryBench.LatencyFigure.Basic

/-!
# Latency figures as documents

A figure is read from a configuration field by field, and written with all its
fields.  Scale factors are taken as they stand, blanks included.
-/

namespace QueryBench

open QueryBench.Configuration (Reader record text real size list nullable choice)

namespace UnitPolicy

def name : UnitPolicy → String
  | milliseconds => "milliseconds"
  | seconds => "seconds"
  | auto => "auto"

def ofName? (s : String) : Option UnitPolicy :=
  [milliseconds, seconds, auto].find? fun u ↦ u.name == s

end UnitPolicy

namespace EngineStyle

def set (dialect : Dialect) (e : EngineStyle) (name : String) : Reader EngineStyle := fun d ↦
  match name with
  | "tag" => (text dialect d).map fun s ↦ { e with tag := s }
  | "label" => (text dialect d).map fun s ↦ { e with label := s }
  | "color" => (text dialect d).map fun s ↦ { e with color := s }
  | _ => .ok e

def read (dialect : Dialect) : Reader EngineStyle :=
  record dialect ["tag", "label", "color"] ["tag", "label", "color"] ⟨"", "", ""⟩ (set dialect)

def document (e : EngineStyle) : Document :=
  .object [("tag", .text e.tag), ("label", .text e.label), ("color", .text e.color)]

end EngineStyle

namespace Tear

def set (dialect : Dialect) (t : Tear Float) (name : String) : Reader (Tear Float) := fun d ↦
  match name with
  | "scale_factor" => (text dialect d).map fun s ↦ { t with scaleFactor := ⟨s⟩ }
  | "lower" => (real d).map fun x ↦ { t with lower := x }
  | "upper" => (real d).map fun x ↦ { t with upper := x }
  | "max" => (real d).map fun x ↦ { t with max := x }
  | "gap" => (nullable real d).map fun x ↦ { t with gap := x }
  | _ => .ok t

def read (dialect : Dialect) : Reader (Tear Float) :=
  record dialect ["scale_factor", "lower", "upper", "max", "gap"]
    ["scale_factor", "lower", "upper", "max"] ⟨⟨""⟩, 0, 0, 0, none⟩ (set dialect)

def document (t : Tear Float) : Document :=
  .object [("scale_factor", .text t.scaleFactor.label), ("lower", Document.ofFloat t.lower),
    ("upper", Document.ofFloat t.upper), ("max", Document.ofFloat t.max),
    ("gap", (t.gap.map Document.ofFloat).getD .null)]

end Tear

namespace PanelRow

def set (dialect : Dialect) (r : PanelRow Float) (name : String) : Reader (PanelRow Float) :=
  fun d ↦
    match name with
    | "scale_factors" =>
        (list (text dialect) d).map fun sfs ↦ { r with scaleFactors := sfs.map .mk }
    | "unit" => (choice dialect UnitPolicy.ofName? d).map fun u ↦ { r with unit := u }
    | "tears" => (list (Tear.read dialect) d).map fun ts ↦ { r with tears := ts }
    | "height_ratio" => (real d).map fun x ↦ { r with heightRatio := x }
    | _ => .ok r

def read (dialect : Dialect) : Reader (PanelRow Float) :=
  record dialect ["scale_factors", "unit", "tears", "height_ratio"] ["scale_factors", "unit"]
    ⟨[], .auto, [], 1⟩ (set dialect)

def document (r : PanelRow Float) : Document :=
  .object [("scale_factors", .list (r.scaleFactors.map fun sf ↦ .text sf.label)),
    ("unit", .text r.unit.name), ("tears", .list (r.tears.map Tear.document)),
    ("height_ratio", Document.ofFloat r.heightRatio)]

end PanelRow

namespace Outlier

def set (dialect : Dialect) (o : Outlier Float) (name : String) : Reader (Outlier Float) :=
  fun d ↦
    match name with
    | "query" => (text dialect d).map fun s ↦ { o with query := s }
    | "width_ratio" => (real d).map fun x ↦ { o with widthRatio := x }
    | _ => .ok o

def read (dialect : Dialect) : Reader (Outlier Float) :=
  record dialect ["query", "width_ratio"] ["query"] ⟨"", 1⟩ (set dialect)

def document (o : Outlier Float) : Document :=
  .object [("query", .text o.query), ("width_ratio", Document.ofFloat o.widthRatio)]

end Outlier

namespace LatencyFigure

def fieldNames : List String :=
  ["name", "engines", "queries", "rules", "rows", "outlier", "slot_spacing", "group_width",
    "floor_ms", "hatch_spacing", "stall_label", "main_width_ratio", "spacer_ratio", "width",
    "height"]

def set (dialect : Dialect) (f : LatencyFigure Float) (name : String) :
    Reader (LatencyFigure Float) := fun d ↦
  match name with
  | "name" => (text dialect d).map fun s ↦ { f with name := s }
  | "engines" => (list (EngineStyle.read dialect) d).map fun es ↦ { f with engines := es }
  | "queries" => (list (text dialect) d).map fun qs ↦ { f with queries := qs }
  | "rules" => (Configuration.rules dialect d).map fun r ↦ { f with rules := r }
  | "rows" => (list (PanelRow.read dialect) d).map fun rs ↦ { f with rows := rs }
  | "outlier" => (nullable (Outlier.read dialect) d).map fun o ↦ { f with outlier := o }
  | "slot_spacing" => (real d).map fun x ↦ { f with slotSpacing := x }
  | "group_width" => (real d).map fun x ↦ { f with groupWidth := x }
  | "floor_ms" => (real d).map fun x ↦ { f with floorMs := x }
  | "hatch_spacing" => (size d).map fun n ↦ { f with hatchSpacing := n }
  | "stall_label" => (text dialect d).map fun s ↦ { f with stallLabel := s }
  | "main_width_ratio" => (real d).map fun x ↦ { f with mainWidthRatio := x }
  | "spacer_ratio" => (real d).map fun x ↦ { f with spacerRatio := x }
  | "width" => (size d).map fun n ↦ { f with width := n }
  | "height" => (size d).map fun n ↦ { f with height := n }
  | _ => .ok f

def read (dialect : Dialect) : Reader (LatencyFigure Float) :=
  record dialect fieldNames ["name", "engines", "queries", "rows"] blank (set dialect)

def document (f : LatencyFigure Float) : Document :=
  .object [("name", .text f.name), ("engines", .list (f.engines.map EngineStyle.document)),
    ("queries", .list (f.queries.map .text)), ("rules", f.rules.document),
    ("rows", .list (f.rows.map PanelRow.document)),
    ("outlier", (f.outlier.map Outlier.document).getD .null),
    ("slot_spacing", Document.ofFloat f.slotSpacing),
    ("group_width", Document.ofFloat f.groupWidth), ("floor_ms", Document.ofFloat f.floorMs),
    ("hatch_spacing", Document.ofNat f.hatchSpacing), ("stall_label", .text f.stallLabel),
    ("main_width_ratio", Document.ofFloat f.mainWidthRatio),
    ("spacer_ratio", Document.ofFloat f.spacerRatio), ("width", Document.ofNat f.width),
    ("height", Document.ofNat f.height)]

end LatencyFigure
end QueryBench
