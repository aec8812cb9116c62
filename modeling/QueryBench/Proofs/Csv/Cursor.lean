import QueryBench.Csv.Scan

/-!
# The open record of a scan

What a scan will read depends on its phase, its open field and the closed fields of
its open record, and not on the records behind it or on where they stand.  A byte
does one of five things to the open record, and the phase alone decides which.
-/

namespace QueryBench
namespace Csv

inductive Move where
  /-- A line end where no record is open. -/
  | skip
  | push (next : Phase)
  /-- A quote that is not text. -/
  | turn (next : Phase)
  | endField
  | endRecord
deriving DecidableEq, Repr

namespace Move

def unquoted (b : UInt8) : Move :=
  if b = comma then endField else if isLineEnd b then endRecord else push .plain

def opening (b : UInt8) : Move := if b = quote then turn .quoted else unquoted b

end Move

def Phase.move : Phase → UInt8 → Move
  | betweenRecords, b => if isLineEnd b then .skip else .opening b
  | fieldStart, b => .opening b
  | plain, b => .unquoted b
  | quoted, b => if b = quote then .turn quoteInQuoted else .push quoted
  | quoteInQuoted, b => if b = quote then .push quoted else .unquoted b

section MoveInversion

variable {ph next : Phase} {b : UInt8}

theorem Phase.move_eq_skip (h : ph.move b = .skip) :
    ph = betweenRecords ∧ isLineEnd b = true := by
  cases ph <;> grind [move, Move.opening, Move.unquoted]

/-- Text outside quotes is neither a comma nor a line end, and no quote leads into
quotes there. -/
theorem Phase.move_eq_push (h : ph.move b = .push next) :
    (next = plain ∧ b ≠ comma ∧ isLineEnd b = false) ∨
      (next = quoted ∧ (ph = quoted ∨ ph = quoteInQuoted ∧ b = quote)) := by
  cases ph <;> grind [move, Move.opening, Move.unquoted]

theorem Phase.open_of_push (h : ph.move b = .push next) : next ≠ betweenRecords := by
  rcases move_eq_push h with ⟨rfl, -⟩ | ⟨rfl, -⟩ <;> simp

theorem Phase.move_eq_turn (h : ph.move b = .turn next) :
    b = quote ∧ (next = quoted ∨ next = quoteInQuoted) := by
  cases ph <;> grind [move, Move.opening, Move.unquoted]

theorem Phase.open_of_turn (h : ph.move b = .turn next) : next ≠ betweenRecords := by
  rcases move_eq_turn h with ⟨-, rfl | rfl⟩ <;> simp

theorem Phase.move_eq_endField (h : ph.move b = .endField) : b = comma := by
  cases ph <;> grind [move, Move.opening, Move.unquoted]

theorem Phase.move_eq_endRecord (h : ph.move b = .endRecord) :
    ph ≠ betweenRecords ∧ isLineEnd b = true := by
  cases ph <;> grind [move, Move.opening, Move.unquoted]

end MoveInversion

/-- The open record of a scan. -/
structure Cursor where
  phase : Phase
  field : Bytes
  fields : List Bytes
deriving DecidableEq, Repr

namespace Cursor

def start : Cursor := ⟨.betweenRecords, [], []⟩

/-- The open record as it is if it ends here. -/
def record (c : Cursor) : List Bytes := (c.field.reverse :: c.fields).reverse

/-- The records that end in some bytes, or with them. -/
def records : Cursor → Bytes → List (List Bytes)
  | c, [] => if c.phase = .betweenRecords then [] else [c.record]
  | c, b :: rest =>
      match c.phase.move b with
      | .skip => c.records rest
      | .push next => records ⟨next, b :: c.field, c.fields⟩ rest
      | .turn next => records ⟨next, c.field, c.fields⟩ rest
      | .endField => records ⟨.fieldStart, [], c.field.reverse :: c.fields⟩ rest
      | .endRecord => c.record :: start.records rest

variable {c : Cursor} {b : UInt8} {next : Phase} (rest : Bytes)

theorem records_skip (h : c.phase.move b = .skip) : c.records (b :: rest) = c.records rest := by
  rw [records, h]

theorem records_push (h : c.phase.move b = .push next) :
    c.records (b :: rest) = records ⟨next, b :: c.field, c.fields⟩ rest := by
  rw [records, h]

theorem records_turn (h : c.phase.move b = .turn next) :
    c.records (b :: rest) = records ⟨next, c.field, c.fields⟩ rest := by
  rw [records, h]

theorem records_endField (h : c.phase.move b = .endField) :
    c.records (b :: rest) = records ⟨.fieldStart, [], c.field.reverse :: c.fields⟩ rest := by
  rw [records, h]

theorem records_endRecord (h : c.phase.move b = .endRecord) :
    c.records (b :: rest) = c.record :: start.records rest := by
  rw [records, h]

/-- No field is open between records, and a field has been closed before another one
starts. -/
structure WellFormed (c : Cursor) : Prop where
  between : c.phase = .betweenRecords → c = start
  atStart : c.phase = .fieldStart → c.field = [] ∧ c.fields ≠ []

end Cursor

namespace Scan

def cursor (s : Scan) : Cursor := ⟨s.phase, s.field, s.fields⟩

/-- The fields of the closed records. -/
def closed (s : Scan) : List (List Bytes) := s.records.reverse.map Record.fields

def perform (s : Scan) (b : UInt8) : Move → Scan
  | .skip => s
  | .push next => s.push b next
  | .turn next => { s with phase := next }
  | .endField => s.closeField
  | .endRecord => s.closeRecord

theorem unquoted_eq_perform (s : Scan) (b : UInt8) :
    s.unquoted b = s.perform b (.unquoted b) := by
  unfold unquoted Move.unquoted
  split
  · rfl
  · split <;> rfl

theorem opening_eq_perform (s : Scan) (b : UInt8) : s.opening b = s.perform b (.opening b) := by
  unfold opening Move.opening
  split
  · rfl
  · exact s.unquoted_eq_perform b

theorem step_eq_perform (s : Scan) (b : UInt8) :
    s.step b = (s.advance b).perform b (s.phase.move b) := by
  have hphase : (s.advance b).phase = s.phase := rfl
  unfold step take Phase.move
  rw [hphase]
  cases s.phase with
  | betweenRecords =>
      dsimp only
      split
      · rfl
      · exact opening_eq_perform _ b
  | fieldStart => exact opening_eq_perform _ b
  | plain => exact unquoted_eq_perform _ b
  | quoted => dsimp only; split <;> rfl
  | quoteInQuoted =>
      dsimp only
      split
      · rfl
      · exact unquoted_eq_perform _ b

/-- The cursor reads the records that the scan closes from here on. -/
theorem fields_finish_run (s : Scan) (bytes : Bytes) :
    (s.run bytes).finish.map Record.fields = s.closed ++ s.cursor.records bytes := by
  induction bytes generalizing s with
  | nil =>
      cases hphase : s.phase <;>
        simp [finish, hphase, cursor, closed, Cursor.records, Cursor.record, closeRecord,
          closeField]
  | cons b rest ih =>
      rw [run_cons, ih, step_eq_perform]
      cases hmove : s.phase.move b with
      | skip =>
          rw [Cursor.records_skip rest hmove]
          rfl
      | push next =>
          rw [Cursor.records_push rest hmove]
          rfl
      | turn next =>
          rw [Cursor.records_turn rest hmove]
          rfl
      | endField =>
          rw [Cursor.records_endField rest hmove]
          rfl
      | endRecord =>
          rw [Cursor.records_endRecord rest hmove]
          simp [perform, closed, cursor, closeRecord, closeField, advance, Cursor.record,
            Cursor.start]

theorem wellFormed_step {s : Scan} (h : s.cursor.WellFormed) (b : UInt8) :
    (s.step b).cursor.WellFormed := by
  rw [step_eq_perform]
  cases hmove : s.phase.move b with
  | skip => exact h
  | push next =>
      rcases Phase.move_eq_push hmove with ⟨rfl, -, -⟩ | ⟨rfl, -⟩ <;>
        exact ⟨nofun, nofun⟩
  | turn next =>
      rcases Phase.move_eq_turn hmove with ⟨-, rfl | rfl⟩ <;>
        exact ⟨nofun, nofun⟩
  | endField => exact ⟨nofun, fun _ ↦ ⟨rfl, List.cons_ne_nil _ _⟩⟩
  | endRecord => exact ⟨fun _ ↦ rfl, nofun⟩

theorem wellFormed_run {s : Scan} (h : s.cursor.WellFormed) (bytes : Bytes) :
    (s.run bytes).cursor.WellFormed := by
  induction bytes generalizing s with
  | nil => exact h
  | cons b rest ih => exact ih (wellFormed_step h b)

theorem wellFormed_start (skipped : Nat) : (start skipped).cursor.WellFormed :=
  ⟨fun _ ↦ rfl, nofun⟩

end Scan
end Csv
end QueryBench
