import QueryBench.Csv.Scan
import QueryBench.Text.Blank

/-!
# Fields as texts

The fields of a record have to be UTF-8.  Blanks around a field do not belong to
it, whether or not it was quoted.  Where a field is not UTF-8, the offset of its
first bad byte is counted after the ASCII blanks in front of it, but in a header
from the start of the field.
-/

namespace QueryBench
namespace Csv

inductive Fault where
  /-- A field is not UTF-8 from a byte on. -/
  | invalidText (record : Record) (field badByte : Nat)
  /-- A record has not as many fields as the first one. -/
  | width (record : Record) (expected : Nat)
deriving DecidableEq, Repr

namespace Fault

def message : Fault → String
  | invalidText r field badByte =>
      s!"CSV parse error: record {r.index} (line {r.line}, field: {field}, " ++
        s!"byte: {r.offset}): invalid utf-8: invalid UTF-8 in field {field} " ++
        s!"near byte index {badByte}"
  | width r expected =>
      s!"CSV error: record {r.index} (line: {r.line}, byte: {r.offset}): found record " ++
        s!"with {r.fields.length} fields, but the previous record has {expected} fields"

end Fault

def isAsciiBlank (b : UInt8) : Bool :=
  b == 0x20 || b == 0x09 || b == 0x0A || b == 0x0C || b == 0x0D

/-- The bytes without ASCII blanks at the two ends. -/
def trimBytes (field : Bytes) : Bytes :=
  ((field.dropWhile isAsciiBlank).reverse.dropWhile isAsciiBlank).reverse

namespace Record

/-- The texts of some bytes, which are those of the fields from the `k`-th on. -/
def textsFrom (r : Record) (k : Nat) : List Bytes → Except Fault (List String)
  | [] => .ok []
  | bytes :: rest =>
      match bytes.toString? with
      | none => .error (.invalidText r k bytes.validLength)
      | some s => (r.textsFrom (k + 1) rest).map (Text.trim s :: ·)

def texts (r : Record) : Except Fault (List String) :=
  r.textsFrom 0 (r.fields.map trimBytes)

/-- The texts of all fields of a header. -/
def headerTexts (r : Record) : Except Fault (List String) := r.textsFrom 0 r.fields

end Record
end Csv
end QueryBench
