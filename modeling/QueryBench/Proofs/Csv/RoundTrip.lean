import QueryBench.Proofs.Csv.Cursor
import QueryBench.Proofs.Text.Utf8

/-!
# Reading what was written

Between records the reader takes a written record for what it was, whatever its
fields hold, as long as there are at least two of them: a single empty field would
leave nothing but a line end.  A whole table is read as it was written unless its first
text starts with a mark, which the reader drops.
-/

namespace QueryBench
namespace Csv

theorem isSpecial_eq_false {b : UInt8} (h : isSpecial b = false) :
    b ≠ comma ∧ b ≠ quote ∧ isLineEnd b = false := by
  simp only [isSpecial, Bool.or_eq_false_iff, beq_eq_false_iff_ne] at h
  exact ⟨h.1.1, h.1.2, h.2⟩

namespace Phase

variable {ph : Phase} {b : UInt8}

theorem move_of_not_special (hph : ph ≠ quoted) (hb : isSpecial b = false) :
    ph.move b = .push plain := by
  obtain ⟨hcomma, hquote, hend⟩ := isSpecial_eq_false hb
  cases ph with
  | quoted => exact absurd rfl hph
  | betweenRecords | fieldStart | plain | quoteInQuoted =>
      simp [move, Move.opening, Move.unquoted, hcomma, hquote, hend]

theorem move_comma (hph : ph ≠ quoted) : ph.move comma = .endField := by
  cases ph with
  | quoted => exact absurd rfl hph
  | betweenRecords | fieldStart | plain | quoteInQuoted => rfl

theorem move_lineFeed (hph : ph ≠ quoted) (hopen : ph ≠ betweenRecords) :
    ph.move lineFeed = .endRecord := by
  cases ph with
  | quoted => exact absurd rfl hph
  | betweenRecords => exact absurd rfl hopen
  | fieldStart | plain | quoteInQuoted => rfl

theorem move_quoted (hb : b ≠ quote) : quoted.move b = .push quoted := if_neg hb

end Phase

namespace Cursor

variable {c : Cursor} (rest : Bytes)

/-! ## Fields -/

/-- Bytes that are neither commas nor quotes nor line ends belong to the open field. -/
theorem exists_records_plain {text : Bytes} (h : text.any isSpecial = false) :
    ∃ next : Phase, (c.phase ≠ .quoted → next ≠ .quoted) ∧
      (c.phase ≠ .betweenRecords → next ≠ .betweenRecords) ∧
      c.records (text ++ rest) = records ⟨next, text.reverse ++ c.field, c.fields⟩ rest := by
  induction text generalizing c with
  | nil => exact ⟨c.phase, id, id, rfl⟩
  | cons b text ih =>
      rw [List.any_cons, Bool.or_eq_false_iff] at h
      obtain ⟨next, hpush, hnext⟩ : ∃ next, c.phase.move b = .push next ∧
          (c.phase ≠ .quoted → next ≠ .quoted) := by
        by_cases hphase : c.phase = .quoted
        · rw [hphase]
          exact ⟨_, Phase.move_quoted (isSpecial_eq_false h.1).2.1, fun hne ↦ absurd rfl hne⟩
        · exact ⟨_, Phase.move_of_not_special hphase h.1, nofun⟩
      obtain ⟨next', hunquoted, hopen, hrest⟩ := ih (c := ⟨next, b :: c.field, c.fields⟩) h.2
      refine ⟨next', hunquoted ∘ hnext, fun _ ↦ hopen (Phase.open_of_push hpush), ?_⟩
      rw [List.cons_append, records_push _ hpush, hrest, List.reverse_cons, List.append_assoc]
      rfl

theorem records_plain_comma {text : Bytes} (hphase : c.phase ≠ .quoted)
    (htext : text.any isSpecial = false) :
    c.records (text ++ comma :: rest) =
      records ⟨.fieldStart, [], (c.field.reverse ++ text) :: c.fields⟩ rest := by
  obtain ⟨next, hnext, -, hrecords⟩ := exists_records_plain (c := c) (comma :: rest) htext
  rw [hrecords, records_endField rest (Phase.move_comma (hnext hphase)), List.reverse_append,
    List.reverse_reverse]

theorem records_plain_lineFeed {text : Bytes} (hphase : c.phase ≠ .quoted)
    (hopen : c.phase ≠ .betweenRecords) (htext : text.any isSpecial = false) :
    c.records (text ++ lineFeed :: rest) =
      (c.fields.reverse ++ [c.field.reverse ++ text]) :: start.records rest := by
  obtain ⟨next, hnext, hnext', hrecords⟩ := exists_records_plain (c := c) (lineFeed :: rest) htext
  rw [hrecords, records_endRecord rest (Phase.move_lineFeed (hnext hphase) (hnext' hopen)), record,
    List.reverse_cons, List.reverse_append, List.reverse_reverse]

/-- Inside quotes the doubled text is read as the text, up to the closing quote. -/
theorem records_doubled (text field : Bytes) (fields : List Bytes) :
    records ⟨.quoted, field, fields⟩ (doubled text ++ quote :: rest) =
      records ⟨.quoteInQuoted, text.reverse ++ field, fields⟩ rest := by
  induction text generalizing field with
  | nil => exact records_turn rest rfl
  | cons b text ih =>
      by_cases hb : b = quote
      · subst hb
        rw [doubled_cons_quote, List.cons_append, records_turn _ rfl, List.cons_append,
          records_push _ rfl, ih, List.reverse_cons, List.append_assoc]
        rfl
      · rw [doubled_cons_of_ne hb, List.cons_append, records_push _ (Phase.move_quoted hb), ih,
          List.reverse_cons, List.append_assoc]
        rfl

/-- A field can start here. -/
def Fresh (c : Cursor) : Prop :=
  (c.phase = .betweenRecords ∨ c.phase = .fieldStart) ∧ c.field = []

theorem Fresh.ne_quoted (h : c.Fresh) : c.phase ≠ .quoted := by
  rcases h.1 with hphase | hphase <;> simp [hphase]

theorem Fresh.records_quote (h : c.Fresh) :
    c.records (quote :: rest) = records ⟨.quoted, [], c.fields⟩ rest := by
  have hmove : c.phase.move quote = .turn .quoted := by
    rcases h.1 with hphase | hphase <;> rw [hphase] <;> rfl
  rw [records_turn rest hmove, h.2]

theorem records_writeField_comma (field : Bytes) (h : c.Fresh) :
    c.records (writeField field ++ comma :: rest) =
      records ⟨.fieldStart, [], field :: c.fields⟩ rest := by
  unfold writeField
  split
  · rw [List.append_assoc, List.cons_append, h.records_quote, List.singleton_append,
      records_doubled, records_endField rest rfl, List.append_nil, List.reverse_reverse]
  · rename_i hplain
    rw [records_plain_comma rest h.ne_quoted (eq_false_of_ne_true hplain), h.2]
    rfl

theorem records_writeField_lineFeed (field : Bytes) (h : c.Fresh)
    (hopen : c.phase ≠ .betweenRecords) :
    c.records (writeField field ++ lineFeed :: rest) =
      (c.fields.reverse ++ [field]) :: start.records rest := by
  unfold writeField
  split
  · rw [List.append_assoc, List.cons_append, h.records_quote, List.singleton_append,
      records_doubled, records_endRecord rest rfl, record, List.append_nil,
      List.reverse_reverse, List.reverse_cons]
  · rename_i hplain
    rw [records_plain_lineFeed rest h.ne_quoted hopen (eq_false_of_ne_true hplain), h.2]
    rfl

/-! ## Records -/

theorem records_writeFields {fields : List Bytes} (hfields : fields ≠ []) (h : c.Fresh)
    (hopen : c.phase ≠ .betweenRecords) :
    c.records (writeFields fields ++ lineFeed :: rest) =
      (c.fields.reverse ++ fields) :: start.records rest := by
  induction fields generalizing c with
  | nil => exact absurd rfl hfields
  | cons field fields ih =>
      cases fields with
      | nil =>
          rw [writeFields, records_writeField_lineFeed rest field h hopen]
      | cons field' fields =>
          rw [writeFields, List.append_assoc, List.cons_append,
            records_writeField_comma _ field h, ih (by simp) ⟨.inr rfl, rfl⟩ (by simp),
            List.reverse_cons, List.append_assoc]
          · rfl
          · simp

/-- The first of several fields may follow a line end. -/
theorem records_writeRecord {fields : List String} (hfields : 2 ≤ fields.length) :
    start.records (writeRecord fields ++ rest) =
      fields.map Bytes.ofString :: start.records rest := by
  match fields, hfields with
  | first :: second :: others, _ =>
      have hfresh : start.Fresh := ⟨.inl rfl, rfl⟩
      rw [writeRecord, List.map_cons, List.map_cons, writeFields, List.append_assoc,
        List.append_assoc, List.cons_append, records_writeField_comma _ _ hfresh,
        List.singleton_append, records_writeFields rest (by simp) ⟨.inr rfl, rfl⟩ (by simp)]
      · rfl
      · simp

theorem records_write {records : List (List String)} (h : ∀ r ∈ records, 2 ≤ r.length) :
    start.records (write records ++ rest) =
      records.map (List.map Bytes.ofString) ++ start.records rest := by
  induction records with
  | nil => rfl
  | cons r records ih =>
      have hwrite : write (r :: records) = writeRecord r ++ write records := rfl
      rw [hwrite, List.append_assoc, records_writeRecord _ (h r List.mem_cons_self),
        ih fun r' hr' ↦ h r' (List.mem_cons_of_mem r hr')]
      rfl

end Cursor

/-! ## Tables -/

open Cursor (start)

theorem map_fields_records (bytes : Bytes) :
    (records bytes).map Record.fields = start.records (dropMark bytes).1 := by
  unfold records
  exact Scan.fields_finish_run _ _

variable {table : List (List String)}

theorem records_write (h : ∀ r ∈ table, 2 ≤ r.length) :
    start.records (write table) = table.map (List.map Bytes.ofString) := by
  calc
    start.records (write table) = start.records (write table ++ []) := by rw [List.append_nil]
    _ = table.map (List.map Bytes.ofString) ++ start.records [] := Cursor.records_write [] h
    _ = table.map (List.map Bytes.ofString) := List.append_nil _

/-- Only a first field that starts with a mark can make a written table start with one. -/
theorem not_mark_of_first_field {first : String} (hfirst : first.toList.head? ≠ some '\uFEFF')
    (rest : Bytes) :
    byteOrderMark.isPrefixOf (writeField (Bytes.ofString first) ++ comma :: rest) = false := by
  rw [← Bool.not_eq_true]
  intro hmark
  obtain ⟨bytes, hbytes⟩ := List.isPrefixOf_iff_prefix.mp hmark
  unfold writeField at hbytes
  split at hbytes
  · cases hbytes
  · rw [Bytes.ofString_eq_ofChars] at hbytes
    cases hchars : first.toList with
    | nil =>
        rw [hchars] at hbytes
        cases hbytes
    | cons c cs =>
        rw [hchars, Bytes.ofChars_cons, List.append_assoc] at hbytes
        have hc : '\uFEFF' = c := by
          apply Bytes.utf8EncodeChar_append_inj (x := bytes)
          exact hbytes
        apply hfirst
        rw [hchars, hc]
        rfl

theorem dropMark_write (h : ∀ r ∈ table, 2 ≤ r.length)
    (hmark : ∀ r ∈ table.head?, ∀ s ∈ r.head?, s.toList.head? ≠ some '\uFEFF') :
    dropMark (write table) = (write table, 0) := by
  have hno : byteOrderMark.isPrefixOf (write table) = false := by
    cases table with
    | nil => rfl
    | cons r rest =>
        match r, h r List.mem_cons_self with
        | first :: second :: others, _ =>
            have hwrite : ∃ bytes, write ((first :: second :: others) :: rest) =
                writeField (Bytes.ofString first) ++ comma :: bytes := by
              simp [write, writeRecord, writeFields]
            obtain ⟨bytes, hbytes⟩ := hwrite
            rw [hbytes]
            exact not_mark_of_first_field (hmark _ rfl first rfl) bytes
  rw [dropMark, hno]
  rfl

/-- A table is read back field by field, unless its first text starts with a mark. -/
theorem map_fields_records_write (h : ∀ r ∈ table, 2 ≤ r.length)
    (hmark : ∀ r ∈ table.head?, ∀ s ∈ r.head?, s.toList.head? ≠ some '\uFEFF') :
    (records (write table)).map Record.fields = table.map (List.map Bytes.ofString) := by
  rw [map_fields_records, dropMark_write h hmark, records_write h]

end Csv
end QueryBench
