import QueryBench.Csv.Writer

/-!
# Scanning tables

The records of a table, found in one pass over its bytes.  A field that starts
with a quote extends to the next quote that is not doubled; what then follows up
to the separator belongs to it as it stands.  Elsewhere a quote is an ordinary
byte.  Line feeds and carriage returns end a record, and one that has no byte is
no record.  The end of the bytes ends an open field.

A record knows where the record before it ended: how many line feeds and how many
bytes had been read by then.
-/

namespace QueryBench
namespace Csv

/-- A record and the place where the one before it ended. -/
structure Record where
  fields : List Bytes
  /-- How many records stand before it. -/
  index : Nat
  /-- One more than the line feeds before the place. -/
  line : Nat
  /-- The bytes before the place. -/
  offset : Nat
deriving DecidableEq, Repr

/-- What the next byte belongs to. -/
inductive Phase where
  /-- No byte of a record has been read. -/
  | betweenRecords
  | fieldStart
  | plain
  | quoted
  /-- After a quote inside quotes, which may be the first of two. -/
  | quoteInQuoted
deriving DecidableEq, Repr

structure Scan where
  phase : Phase
  /-- Bytes of the open field, the last one first. -/
  field : Bytes
  /-- Closed fields of the open record, the last one first. -/
  fields : List Bytes
  /-- Closed records, the last one first. -/
  records : List Record
  count : Nat
  /-- Line and offset where the last closed record ended. -/
  place : Nat × Nat
  /-- Line and offset that have been reached. -/
  reached : Nat × Nat

namespace Scan

/-- Before the first byte, after a mark of `skipped` bytes. -/
def start (skipped : Nat) : Scan :=
  ⟨.betweenRecords, [], [], [], 0, (1, 0), (1, skipped)⟩

def push (s : Scan) (b : UInt8) (phase : Phase) : Scan :=
  { s with field := b :: s.field, phase := phase }

def closeField (s : Scan) : Scan :=
  { s with field := [], fields := s.field.reverse :: s.fields, phase := .fieldStart }

def closeRecord (s : Scan) : Scan :=
  let s := s.closeField
  { s with
    phase := .betweenRecords
    fields := []
    records := ⟨s.fields.reverse, s.count, s.place.1, s.place.2⟩ :: s.records
    count := s.count + 1
    place := s.reached }

def unquoted (s : Scan) (b : UInt8) : Scan :=
  if b = comma then s.closeField
  else if isLineEnd b then s.closeRecord
  else s.push b .plain

/-- The first byte of a field. -/
def opening (s : Scan) (b : UInt8) : Scan :=
  if b = quote then { s with phase := .quoted } else s.unquoted b

/-- Counts a byte as read. -/
def advance (s : Scan) (b : UInt8) : Scan :=
  { s with reached := (s.reached.1 + (if b = lineFeed then 1 else 0), s.reached.2 + 1) }

def take (s : Scan) (b : UInt8) : Scan :=
  match s.phase with
  | .betweenRecords => if isLineEnd b then s else s.opening b
  | .fieldStart => s.opening b
  | .plain => s.unquoted b
  | .quoted => if b = quote then { s with phase := .quoteInQuoted } else s.push b .quoted
  | .quoteInQuoted => if b = quote then s.push b .quoted else s.unquoted b

def step (s : Scan) (b : UInt8) : Scan := (s.advance b).take b

def run (s : Scan) (bytes : Bytes) : Scan := bytes.foldl step s

/-- All records, once the bytes have ended. -/
def finish (s : Scan) : List Record :=
  match s.phase with
  | .betweenRecords => s.records.reverse
  | _ => s.closeRecord.records.reverse

@[simp] theorem run_nil (s : Scan) : s.run [] = s := rfl

@[simp] theorem run_cons (s : Scan) (b : UInt8) (rest : Bytes) :
    s.run (b :: rest) = (s.step b).run rest := rfl

theorem run_append (s : Scan) (a b : Bytes) : s.run (a ++ b) = (s.run a).run b := by
  simp [run]

end Scan

/-- The mark that may stand before the text of a file. -/
def byteOrderMark : Bytes := [0xEF, 0xBB, 0xBF]

/-- The bytes without a leading mark, and how many were left out. -/
def dropMark (bytes : Bytes) : Bytes × Nat :=
  if byteOrderMark.isPrefixOf bytes then (bytes.drop 3, 3) else (bytes, 0)

def records (bytes : Bytes) : List Record :=
  let (body, skipped) := dropMark bytes
  ((Scan.start skipped).run body).finish

end Csv
end QueryBench
