import QueryBench.Proofs.Csv.FieldText
import QueryBench.Proofs.Csv.RoundTrip

/-!
# Writing behind an open record

Bytes that do not end with a line end leave a record open, and what is written behind
them is taken for more of it.  The first field written is then glued to the open field:
its quotes, if it has any, no longer enclose it.
-/

namespace QueryBench
namespace Csv

/-- The record that is open at the end of a table. -/
def openRecord (content : Bytes) : Cursor := ((Scan.start 0).run (dropMark content).1).cursor

/-- The records that are closed before the end of a table. -/
def closedRecords (content : Bytes) : List (List Bytes) :=
  ((Scan.start 0).run (dropMark content).1).closed

theorem wellFormed_openRecord (content : Bytes) : (openRecord content).WellFormed :=
  Scan.wellFormed_run (Scan.wellFormed_start 0) _

open Cursor (start)

theorem records_append (content added : Bytes) :
    start.records ((dropMark content).1 ++ added) =
      closedRecords content ++ (openRecord content).records added := by
  have hwhole := Scan.fields_finish_run (Scan.start 0) ((dropMark content).1 ++ added)
  rw [Scan.run_append, Scan.fields_finish_run] at hwhole
  exact hwhole.symm

/-- Bytes behind a table belong to no mark, unless the table is part of one. -/
theorem dropMark_append {content : Bytes} (hne : content ≠ [])
    (hone : content ≠ [0xEF]) (htwo : content ≠ [0xEF, 0xBB]) (added : Bytes) :
    (dropMark (content ++ added)).1 = (dropMark content).1 ++ added := by
  have hmark : byteOrderMark.isPrefixOf (content ++ added) = byteOrderMark.isPrefixOf content ∧
      (byteOrderMark.isPrefixOf content = true → 3 ≤ content.length) := by
    match content with
    | [] => exact absurd rfl hne
    | [a] =>
        have ha : (0xEF == a) = false := beq_false_of_ne fun h ↦ hone (by rw [h])
        simp [byteOrderMark, List.isPrefixOf, ha]
    | [a, b] =>
        have hab : (0xEF == a && 0xBB == b) = false := by
          rw [Bool.eq_false_iff, Ne, Bool.and_eq_true, beq_iff_eq, beq_iff_eq]
          rintro ⟨rfl, rfl⟩
          exact htwo rfl
        simp [byteOrderMark, List.isPrefixOf, ← Bool.and_assoc, hab]
    | a :: b :: c :: content => simp [byteOrderMark, List.isPrefixOf]
  unfold dropMark
  rw [hmark.1]
  split
  · rename_i hprefix
    exact List.drop_append_of_le_length (hmark.2 hprefix)
  · rfl

/-- A mark in front of a field and its comma is the beginning of the field. -/
theorem exists_eq_mark_append {field rest bytes : Bytes}
    (h : field ++ comma :: rest = byteOrderMark ++ bytes) :
    ∃ text, field = byteOrderMark ++ text := by
  rcases field with _ | ⟨a, _ | ⟨b, _ | ⟨c, text⟩⟩⟩
  · cases h
  · cases h
  · cases h
  · cases h
    exact ⟨text, rfl⟩

namespace Cursor

variable {c : Cursor} (rest : Bytes)

/-- Whatever follows, a record keeps its closed fields and the start of its open one. -/
theorem exists_first (hopen : c.phase ≠ .betweenRecords) :
    ∃ extra more records, c.records rest =
      (c.fields.reverse ++ (c.field.reverse ++ extra) :: more) :: records := by
  induction rest generalizing c with
  | nil =>
      refine ⟨[], [], [], ?_⟩
      rw [records, if_neg hopen, record, List.reverse_cons, List.append_nil]
  | cons b rest ih =>
      cases hmove : c.phase.move b with
      | skip => exact absurd (Phase.move_eq_skip hmove).1 hopen
      | push next =>
          obtain ⟨extra, more, records, hrecords⟩ :=
            ih (c := ⟨next, b :: c.field, c.fields⟩) (Phase.open_of_push hmove)
          refine ⟨b :: extra, more, records, ?_⟩
          rw [records_push rest hmove, hrecords, List.reverse_cons, List.append_assoc]
          rfl
      | turn next =>
          obtain ⟨extra, more, records, hrecords⟩ :=
            ih (c := ⟨next, c.field, c.fields⟩) (Phase.open_of_turn hmove)
          exact ⟨extra, more, records, by rw [records_turn rest hmove, hrecords]⟩
      | endField =>
          obtain ⟨extra, more, records, hrecords⟩ :=
            ih (c := ⟨.fieldStart, [], c.field.reverse :: c.fields⟩) (by simp)
          refine ⟨[], extra :: more, records, ?_⟩
          rw [records_endField rest hmove, hrecords, List.reverse_cons, List.append_nil]
          simp
      | endRecord =>
          refine ⟨[], [], start.records rest, ?_⟩
          rw [records_endRecord rest hmove, record, List.reverse_cons, List.append_nil]

theorem exists_first_of_closed (field : Bytes) :
    ∃ more records,
      Cursor.records ⟨.fieldStart, [], [field]⟩ rest = (field :: more) :: records := by
  obtain ⟨extra, more, records, hrecords⟩ :=
    exists_first (c := ⟨.fieldStart, [], [field]⟩) rest (by simp)
  exact ⟨extra :: more, records, hrecords⟩

/-- Inside quotes a text without quotes is read as it is. -/
theorem records_quoted {text : Bytes} (htext : quote ∉ text) (field : Bytes)
    (fields : List Bytes) :
    records ⟨.quoted, field, fields⟩ (text ++ rest) =
      records ⟨.quoted, text.reverse ++ field, fields⟩ rest := by
  induction text generalizing field with
  | nil => rfl
  | cons b text ih =>
      rw [List.mem_cons, not_or] at htext
      rw [List.cons_append, records_push _ (Phase.move_quoted (Ne.symm htext.1)), ih htext.2,
        List.reverse_cons, List.append_assoc]
      rfl

theorem writeField_of_special {field : Bytes} (h : field.any isSpecial = true) :
    writeField field ++ rest = quote :: (doubled field ++ quote :: rest) := by
  rw [writeField, if_pos h, List.append_assoc]
  rfl

/-- A quoted text that begins with a comma, written inside quotes: its quote ends them
and its comma the field. -/
theorem records_quoted_comma (text field : Bytes) (fields : List Bytes) :
    records ⟨.quoted, field, fields⟩ (writeField (comma :: text) ++ rest) =
      records ⟨.fieldStart, [], field.reverse :: fields⟩ (doubled text ++ quote :: rest) := by
  have hspecial : (comma :: text).any isSpecial = true := rfl
  rw [writeField_of_special rest hspecial, records_turn _ rfl]
  exact records_endField _ rfl

/-! ## Outside quotes -/

/-- The bytes of a field that is open and a text behind them do not become the first of several
fields: the first record of the table ends with its first field, or that has a comma too few or too
many for the text, or more quotes than both together. -/
def Misread (field text : Bytes) (table : List (List Bytes)) : Prop :=
  ∃ f more others, table = (f :: more) :: others ∧
    (more = [] ∨ f.count comma ≠ text.count comma ∨
      field.count quote + text.count quote < f.count quote)

namespace Misread

variable {field text : Bytes} {table : List (List Bytes)} {b : UInt8}

theorem of_cons (h : Misread (b :: field) text table) : Misread field text table := by
  obtain ⟨f, more, others, htable, hcases⟩ := h
  refine ⟨f, more, others, htable, hcases.imp_right (Or.imp_right fun hlt ↦ ?_)⟩
  have hle : field.count quote ≤ (b :: field).count quote := List.count_le_count_cons
  omega

/-- The first byte of the text has been read, and is no comma. -/
theorem of_read (hb : b ≠ comma) (h : Misread (b :: field) text table) :
    Misread field (b :: text) table := by
  obtain ⟨f, more, others, htable, hcases⟩ := h
  refine ⟨f, more, others, htable, ?_⟩
  rw [List.count_cons_of_ne hb]
  refine hcases.imp_right (Or.imp_right fun hlt ↦ ?_)
  rw [List.count_cons] at hlt ⊢
  omega

end Misread

section Outside

variable {phase : Phase} {field : Bytes} {b : UInt8}

/-- A comma outside quotes ends the field ahead of it. -/
theorem misread_comma (hphase : phase ≠ .quoted) (hcomma : field.count comma = 0) (text : Bytes) :
    Misread field (comma :: text) (records ⟨phase, field, []⟩ (comma :: rest)) := by
  obtain ⟨more, others, hrecords⟩ := exists_first_of_closed rest field.reverse
  refine ⟨field.reverse, more, others, ?_, .inr (.inl ?_)⟩
  · rw [records_endField _ (Phase.move_comma hphase), hrecords]
  · rw [List.count_reverse, hcomma, List.count_cons_self]
    omega

/-- A line end outside quotes ends the record. -/
theorem misread_lineEnd (hphase : phase = .plain ∨ phase = .quoteInQuoted)
    (hend : isLineEnd b = true) (text : Bytes) :
    Misread field (b :: text) (records ⟨phase, field, []⟩ (b :: rest)) := by
  have hcomma : b ≠ comma := by
    rintro rfl
    cases hend
  have hquote : b ≠ quote := by
    rintro rfl
    cases hend
  have hmove : phase.move b = .endRecord := by
    rcases hphase with rfl | rfl <;> simp [Phase.move, Move.unquoted, hquote, hcomma, hend]
  exact ⟨field.reverse, [], _, records_endRecord _ hmove, .inl rfl⟩

/-- The closing quote of a text is more text, or it opens quotes again around the comma. -/
theorem misread_closing (hphase : phase = .plain ∨ phase = .quoteInQuoted) :
    Misread field [] (records ⟨phase, field, []⟩ (quote :: comma :: rest)) := by
  rcases hphase with rfl | rfl
  · obtain ⟨more, others, hrecords⟩ := exists_first_of_closed rest (quote :: field).reverse
    refine ⟨(quote :: field).reverse, more, others, ?_, .inr (.inr ?_)⟩
    · rw [records_push _ rfl, records_endField rest rfl, hrecords]
    · rw [List.count_reverse, List.count_cons_self]
      simp
  · obtain ⟨extra, more, others, hrecords⟩ :=
      exists_first (c := ⟨.quoted, comma :: quote :: field, []⟩) rest (by simp)
    refine ⟨(comma :: quote :: field).reverse ++ extra, more, others, ?_, .inr (.inl ?_)⟩
    · rw [records_push _ rfl, records_push rest rfl, hrecords]
      rfl
    · rw [List.count_append, List.count_reverse, List.count_cons_self, List.count_nil]
      omega

/-- A quoted text is misread behind its opening quote where that quote does not open quotes. -/
theorem misread_outside (text : Bytes) (hphase : phase = .plain ∨ phase = .quoteInQuoted)
    (hcomma : field.count comma = 0) :
    Misread field text (records ⟨phase, field, []⟩ (doubled text ++ quote :: comma :: rest)) := by
  induction text generalizing phase field with
  | nil => exact misread_closing rest hphase
  | cons b text ih =>
      have hne : phase ≠ .quoted := by
        rcases hphase with rfl | rfl <;> simp
      cases hspecial : isSpecial b with
      | false =>
          obtain ⟨hb, hquote, -⟩ := isSpecial_eq_false hspecial
          rw [doubled_cons_of_ne hquote, List.cons_append,
            records_push _ (Phase.move_of_not_special hne hspecial)]
          exact (ih (.inl rfl) ((List.count_cons_of_ne hb).trans hcomma)).of_read hb
      | true =>
          rw [isSpecial, Bool.or_eq_true, Bool.or_eq_true, beq_iff_eq, beq_iff_eq] at hspecial
          rcases hspecial with (rfl | rfl) | hend
          · exact misread_comma _ hne hcomma text
          · have hquoted : (quote :: field).count comma = 0 :=
              (List.count_cons_of_ne (by decide)).trans hcomma
            rw [doubled_cons_quote, List.cons_append, List.cons_append]
            rcases hphase with rfl | rfl
            · -- both quotes are text
              rw [records_push _ rfl, records_push _ rfl]
              exact (ih (.inl rfl) ((List.count_cons_of_ne (by decide)).trans hquoted)).of_cons
                |>.of_read (by decide)
            · -- the second quote ends what the first one opens
              rw [records_push _ rfl, records_turn _ rfl]
              exact (ih (.inr rfl) hquoted).of_read (by decide)
          · rw [doubled_cons_of_ne (by rintro rfl; cases hend), List.cons_append]
            exact misread_lineEnd _ hphase hend text

end Outside

/-! ## The first record that is read -/

/-- The first record that the cursor reads from some bytes has these texts. -/
def FirstTexts (c : Cursor) (bytes : Bytes) (texts : List String) : Prop :=
  ∃ first records, c.records bytes = first :: records ∧ first.map text? = texts.map some

namespace FirstTexts

variable {bytes : Bytes} {texts : List String}

theorem of_eq {c' : Cursor} {bytes' : Bytes} (h : c.FirstTexts bytes texts)
    (heq : c.records bytes = c'.records bytes') : c'.FirstTexts bytes' texts := by
  obtain ⟨first, records, hrecords, htexts⟩ := h
  exact ⟨first, records, heq.symm.trans hrecords, htexts⟩

theorem exists_column {fields : List Bytes} (h : fields.map text? = texts.map some) {k : Nat}
    {f : Bytes} (hf : fields[k]? = some f) : ∃ t, texts[k]? = some t ∧ text? f = some t := by
  have hk : (fields.map text?)[k]? = (texts.map some)[k]? := by rw [h]
  rw [List.getElem?_map, List.getElem?_map, hf] at hk
  cases ht : texts[k]? with
  | none =>
      rw [ht] at hk
      cases hk
  | some t =>
      rw [ht] at hk
      exact ⟨t, rfl, Option.some.inj hk⟩

theorem closed_column (h : c.FirstTexts bytes texts) (hopen : c.phase ≠ .betweenRecords)
    {k : Nat} {f : Bytes} (hf : c.fields.reverse[k]? = some f) :
    ∃ t, texts[k]? = some t ∧ text? f = some t := by
  obtain ⟨first, records, hrecords, htexts⟩ := h
  obtain ⟨extra, more, records', hfirst⟩ := exists_first bytes hopen
  rw [hrecords] at hfirst
  obtain ⟨rfl, -⟩ := List.cons.inj hfirst
  apply exists_column htexts
  rw [List.getElem?_append_left (List.getElem?_eq_some_iff.mp hf).1]
  exact hf

theorem blank_column (h : c.FirstTexts bytes texts) (hopen : c.phase ≠ .betweenRecords)
    (hblank : ∀ f ∈ c.fields, text? f = some "") {k : Nat} (hk : k < c.fields.length) :
    texts[k]? = some "" := by
  have hlt : k < c.fields.reverse.length := by rwa [List.length_reverse]
  obtain ⟨t, ht, htext⟩ := h.closed_column hopen (List.getElem?_eq_getElem hlt)
  rw [hblank _ (List.mem_reverse.mp (List.getElem_mem hlt))] at htext
  rw [ht, ← Option.some.inj htext]

theorem open_column (h : c.FirstTexts bytes texts) (hopen : c.phase ≠ .betweenRecords) :
    ∃ t extra, texts[c.fields.length]? = some t ∧ text? (c.field.reverse ++ extra) = some t := by
  obtain ⟨first, records, hrecords, htexts⟩ := h
  obtain ⟨extra, more, records', hfirst⟩ := exists_first bytes hopen
  rw [hrecords] at hfirst
  obtain ⟨rfl, -⟩ := List.cons.inj hfirst
  obtain ⟨t, ht, htext⟩ := exists_column htexts (k := c.fields.length)
    (f := c.field.reverse ++ extra) (by simp)
  exact ⟨t, extra, ht, htext⟩

theorem endField (h : c.FirstTexts (comma :: bytes) texts) (hphase : c.phase ≠ .quoted) :
    FirstTexts ⟨.fieldStart, [], c.field.reverse :: c.fields⟩ bytes texts :=
  h.of_eq (records_endField bytes (Phase.move_comma hphase))

theorem push_comma {field : Bytes} {fields : List Bytes}
    (h : FirstTexts ⟨.quoted, field, fields⟩ (comma :: bytes) texts) :
    FirstTexts ⟨.quoted, comma :: field, fields⟩ bytes texts :=
  h.of_eq (records_push bytes rfl)

/-- A column whose field has begun with commas inside quotes, and whose text comes next:
the text is what has begun. -/
theorem quoted_text {front : Bytes} (hfront : text? front = some "") {y : String}
    (hy : Text.trim y = y) {ys : Bytes} (hcomma : Bytes.ofString y = comma :: ys)
    {fields : List Bytes} {x : String} (hx : texts[fields.length]? = some x)
    (h : FirstTexts ⟨.quoted, (front ++ Bytes.ofString y).reverse, fields⟩
      (writeField (Bytes.ofString x) ++ bytes) texts) :
    x = y ∧ FirstTexts ⟨.fieldStart, [], (front ++ Bytes.ofString y) :: fields⟩
      (doubled ys ++ quote :: bytes) texts := by
  have hbegins : ∃ rest, Bytes.ofString x = comma :: rest := by
    obtain ⟨t, extra, ht, htext⟩ := h.open_column (by simp)
    dsimp only at ht htext
    rw [hx] at ht
    cases ht
    rw [List.reverse_reverse, hcomma, List.append_assoc] at htext
    exact ofString_of_text?_comma hfront htext
  obtain ⟨rest, hrest⟩ := hbegins
  rw [hrest] at h
  have hclosed := h.of_eq (records_quoted_comma bytes rest _ _)
  rw [List.reverse_reverse] at hclosed
  have hxy : x = y := by
    obtain ⟨t, ht, htext⟩ := hclosed.closed_column (by simp) (k := fields.length)
      (f := front ++ Bytes.ofString y) (by simp)
    rw [hx] at ht
    rw [text?_append_of_blank hfront hy, ← ht] at htext
    exact (Option.some.inj htext).symm
  subst hxy
  rw [hcomma] at hrest
  rw [(List.cons.inj hrest).2]
  exact ⟨rfl, hclosed⟩

end FirstTexts

end Cursor
end Csv
end QueryBench
