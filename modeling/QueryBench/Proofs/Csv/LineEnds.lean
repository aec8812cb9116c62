import Mathlib.Algebra.Order.BigOperators.Group.List
import Mathlib.Algebra.Order.Ring.Nat
import QueryBench.Proofs.Csv.Cursor
import QueryBench.Proofs.Csv.FieldText

/-!
# Line ends of tables

A record takes a line end from the bytes to end, and one more for each line end inside
its fields.  Bytes that end with a line feed hold enough of them for all their records,
the last one included: either the line feed ends it, or it is the end of a field and is
trimmed off.
-/

namespace QueryBench
namespace Csv

def lineEnds (bytes : Bytes) : Nat := bytes.countP isLineEnd

@[simp] theorem lineEnds_nil : lineEnds [] = 0 := rfl

@[simp] theorem lineEnds_append (x y : Bytes) : lineEnds (x ++ y) = lineEnds x + lineEnds y :=
  List.countP_append

theorem lineEnds_cons (b : UInt8) (bytes : Bytes) :
    lineEnds (b :: bytes) = lineEnds bytes + if isLineEnd b then 1 else 0 :=
  List.countP_cons

/-- The line ends inside the fields of a record and the one that ends it. -/
def recordEnds (fields : List Bytes) : Nat :=
  (fields.map fun f ↦ lineEnds (trimBytes f)).sum + 1

def tableEnds (records : List (List Bytes)) : Nat := (records.map recordEnds).sum

@[simp] theorem tableEnds_cons (fields : List Bytes) (records : List (List Bytes)) :
    tableEnds (fields :: records) = recordEnds fields + tableEnds records := rfl

theorem lineEnds_trimBytes_le (field : Bytes) : lineEnds (trimBytes field) ≤ lineEnds field := by
  obtain ⟨front, back, -, -, hfield⟩ := exists_eq_trimBy isAsciiBlank field
  have hends := congrArg lineEnds hfield
  rw [lineEnds_append, lineEnds_append] at hends
  have htrim : trimBytes field = trimBy isAsciiBlank field := rfl
  rw [htrim]
  omega

/-- A line feed at the end of a field is trimmed off. -/
theorem trimBytes_append_lineFeed (field : Bytes) :
    trimBytes (field ++ [lineFeed]) = trimBytes field := by
  apply trimBy_append_right
  intro b hb
  rw [List.mem_singleton.mp hb]
  rfl

namespace Cursor

/-- The line ends inside the open record. -/
def heldEnds (c : Cursor) : Nat := lineEnds c.field + (c.fields.map lineEnds).sum

theorem recordEnds_record_le (c : Cursor) : recordEnds c.record ≤ c.heldEnds + 1 := by
  have hfields : (c.fields.map fun f ↦ lineEnds (trimBytes f)).sum ≤
      (c.fields.map lineEnds).sum :=
    List.sum_le_sum fun f _ ↦ lineEnds_trimBytes_le f
  have hfield := lineEnds_trimBytes_le c.field.reverse
  have hreverse : lineEnds c.field.reverse = lineEnds c.field := List.countP_reverse
  rw [recordEnds, record, List.map_reverse, List.sum_reverse, List.map_cons, List.sum_cons,
    heldEnds]
  omega

/-- A line feed is read as the end of a record or as the end of a field. -/
theorem tableEnds_records_lineFeed (c : Cursor) :
    tableEnds (c.records [lineFeed]) ≤ c.heldEnds + 1 := by
  cases hmove : c.phase.move lineFeed with
  | skip =>
      obtain ⟨hphase, -⟩ := Phase.move_eq_skip hmove
      rw [records_skip [] hmove, records, if_pos hphase]
      exact Nat.zero_le _
  | push next =>
      rcases Phase.move_eq_push hmove with ⟨-, -, hnot⟩ | ⟨rfl, -⟩
      · cases hnot
      · have htrim : recordEnds (record ⟨.quoted, lineFeed :: c.field, c.fields⟩) =
            recordEnds c.record := by
          simp [recordEnds, record, trimBytes_append_lineFeed]
        rw [records_push [] hmove, records, if_neg (by simp), tableEnds_cons, htrim]
        exact c.recordEnds_record_le
  | turn next =>
      have hquote := (Phase.move_eq_turn hmove).1
      cases hquote
  | endField =>
      have hcomma := Phase.move_eq_endField hmove
      cases hcomma
  | endRecord =>
      rw [records_endRecord [] hmove]
      exact c.recordEnds_record_le

theorem tableEnds_records_le (c : Cursor) (bytes : Bytes) :
    tableEnds (c.records (bytes ++ [lineFeed])) ≤
      c.heldEnds + lineEnds (bytes ++ [lineFeed]) := by
  induction bytes generalizing c with
  | nil => exact c.tableEnds_records_lineFeed
  | cons b bytes ih =>
      rw [List.cons_append, lineEnds_cons]
      cases hmove : c.phase.move b with
      | skip =>
          rw [records_skip _ hmove]
          have hle := ih c
          omega
      | push next =>
          rw [records_push _ hmove]
          have hle := ih ⟨next, b :: c.field, c.fields⟩
          rw [heldEnds] at hle ⊢
          dsimp only at hle
          rw [lineEnds_cons] at hle
          omega
      | turn next =>
          rw [records_turn _ hmove]
          have hle := ih ⟨next, c.field, c.fields⟩
          rw [heldEnds] at hle ⊢
          dsimp only at hle
          omega
      | endField =>
          rw [records_endField _ hmove]
          have hle := ih ⟨.fieldStart, [], c.field.reverse :: c.fields⟩
          have hreverse : lineEnds c.field.reverse = lineEnds c.field := List.countP_reverse
          rw [heldEnds, List.map_cons, List.sum_cons, hreverse, lineEnds_nil] at hle
          rw [heldEnds]
          omega
      | endRecord =>
          rw [records_endRecord _ hmove, tableEnds_cons,
            (Phase.move_eq_endRecord hmove).2, if_pos rfl]
          have hle := ih start
          have hstart : start.heldEnds = 0 := rfl
          have hrecord := c.recordEnds_record_le
          omega

/-- The line end that ends the open record is not there for the records after it. -/
theorem tableEnds_tail_lt {c : Cursor} (hopen : c.phase ≠ .betweenRecords) (bytes : Bytes) :
    ∃ first rest, c.records (bytes ++ [lineFeed]) = first :: rest ∧
      (rest ≠ [] → tableEnds rest < lineEnds (bytes ++ [lineFeed])) := by
  induction bytes generalizing c with
  | nil =>
      cases hmove : c.phase.move lineFeed with
      | skip => exact absurd (Phase.move_eq_skip hmove).1 hopen
      | push next =>
          rcases Phase.move_eq_push hmove with ⟨-, -, hnot⟩ | ⟨rfl, -⟩
          · cases hnot
          · exact ⟨_, [], records_push [] hmove, fun h ↦ absurd rfl h⟩
      | turn next =>
          have hquote := (Phase.move_eq_turn hmove).1
          cases hquote
      | endField =>
          have hcomma := Phase.move_eq_endField hmove
          cases hcomma
      | endRecord => exact ⟨_, [], records_endRecord [] hmove, fun h ↦ absurd rfl h⟩
  | cons b bytes ih =>
      rw [List.cons_append, lineEnds_cons]
      have hstep : ∀ c' : Cursor, c'.phase ≠ .betweenRecords →
          c.records (b :: (bytes ++ [lineFeed])) = c'.records (bytes ++ [lineFeed]) →
          ∃ first rest, c.records (b :: (bytes ++ [lineFeed])) = first :: rest ∧
            (rest ≠ [] → tableEnds rest <
              lineEnds (bytes ++ [lineFeed]) + if isLineEnd b then 1 else 0) := by
        intro c' hopen' heq
        obtain ⟨first, rest, hrecords, hlt⟩ := ih hopen'
        exact ⟨first, rest, heq.trans hrecords, fun hrest ↦ Nat.lt_add_right _ (hlt hrest)⟩
      cases hmove : c.phase.move b with
      | skip => exact absurd (Phase.move_eq_skip hmove).1 hopen
      | push next => exact hstep _ (Phase.open_of_push hmove) (records_push _ hmove)
      | turn next => exact hstep _ (Phase.open_of_turn hmove) (records_turn _ hmove)
      | endField => exact hstep _ (by simp) (records_endField _ hmove)
      | endRecord =>
          refine ⟨_, _, records_endRecord _ hmove, fun _ ↦ ?_⟩
          rw [(Phase.move_eq_endRecord hmove).2, if_pos rfl]
          have hle := tableEnds_records_le start bytes
          have hstart : start.heldEnds = 0 := rfl
          omega

end Cursor

/-! ## Line ends of written tables -/

theorem lineEnds_doubled (field : Bytes) : lineEnds (doubled field) = lineEnds field := by
  induction field with
  | nil => rfl
  | cons b field ih =>
      by_cases hb : b = quote
      · rw [hb, doubled_cons_quote, lineEnds_cons, lineEnds_cons, ih, lineEnds_cons]
        rfl
      · rw [doubled_cons_of_ne hb, lineEnds_cons, ih, lineEnds_cons]

theorem lineEnds_writeField (field : Bytes) : lineEnds (writeField field) = lineEnds field := by
  unfold writeField
  split
  · rw [lineEnds_append, lineEnds_cons, lineEnds_doubled]
    rfl
  · rfl

theorem lineEnds_writeFields (fields : List Bytes) :
    lineEnds (writeFields fields) = (fields.map lineEnds).sum := by
  induction fields with
  | nil => rfl
  | cons field fields ih =>
      cases fields with
      | nil => rw [writeFields, lineEnds_writeField]; simp
      | cons field' fields =>
          have hwrite : writeFields (field :: field' :: fields) =
              writeField field ++ comma :: writeFields (field' :: fields) := rfl
          rw [hwrite, lineEnds_append, lineEnds_writeField, lineEnds_cons, ih]
          rfl

theorem lineEnds_writeRecord (fields : List String) :
    lineEnds (writeRecord fields) =
      (fields.map fun s ↦ lineEnds (Bytes.ofString s)).sum + 1 := by
  rw [writeRecord, lineEnds_append, lineEnds_writeFields, List.map_map]
  rfl

end Csv
end QueryBench
