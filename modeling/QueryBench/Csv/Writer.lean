import QueryBench.Text.Bytes

/-!
# Writing tables

A table is a sequence of records, each a nonempty sequence of fields that commas
separate and a line feed ends.  A field that holds a comma, a quote or a line end
stands in quotes, with the quotes inside it doubled.
-/

namespace QueryBench
namespace Csv

def comma : UInt8 := 0x2C

def quote : UInt8 := 0x22

def lineFeed : UInt8 := 0x0A

def carriageReturn : UInt8 := 0x0D

def isLineEnd (b : UInt8) : Bool := b == lineFeed || b == carriageReturn

/-- Bytes that cannot stand in a field without quotes. -/
def isSpecial (b : UInt8) : Bool := b == comma || b == quote || isLineEnd b

def doubled (field : Bytes) : Bytes :=
  field.flatMap fun b ↦ if b = quote then [quote, quote] else [b]

def writeField (field : Bytes) : Bytes :=
  if field.any isSpecial then quote :: doubled field ++ [quote] else field

/-- Fields joined by commas. -/
def writeFields : List Bytes → Bytes
  | [] => []
  | [field] => writeField field
  | field :: rest => writeField field ++ comma :: writeFields rest

def writeRecord (fields : List String) : Bytes :=
  writeFields (fields.map Bytes.ofString) ++ [lineFeed]

def write (records : List (List String)) : Bytes :=
  records.flatMap writeRecord

theorem doubled_cons_quote (field : Bytes) :
    doubled (quote :: field) = quote :: quote :: doubled field := rfl

theorem doubled_cons_of_ne {b : UInt8} (h : b ≠ quote) (field : Bytes) :
    doubled (b :: field) = b :: doubled field := by
  rw [doubled, List.flatMap_cons, if_neg h, List.singleton_append, ← doubled]

theorem isSpecial_ascii (b : UInt8) (h : isSpecial b = true) : b.toNat < 0x80 := by
  simp only [isSpecial, isLineEnd, Bool.or_eq_true, beq_iff_eq] at h
  rcases h with (rfl | rfl) | rfl | rfl <;> decide

@[simp] theorem write_append (a b : List (List String)) :
    write (a ++ b) = write a ++ write b := by
  simp [write]

theorem writeField_of_plain {field : Bytes} (h : field.any isSpecial = false) :
    writeField field = field := by
  simp [writeField, h]

end Csv
end QueryBench
