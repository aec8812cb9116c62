import QueryBench.Proofs.Csv.BlankRecord
import QueryBench.Proofs.Csv.LineEnds
import QueryBench.Proofs.Results.AppendedTables

/-!
# Appending to tables of any origin

A table can end inside a record, and rows that are appended to it are then read as more
of that record.  Counting line ends shows that the open record must become the first
appended row; comparing its columns shows that this happens only if nothing but blanks
is open and the first label needs no quotes.
-/

namespace QueryBench
namespace Timings

open Csv (text? Cursor comma quote lineEnds tableEnds)
open Csv.Cursor (start)

/-! ## Line ends of rows -/

def rowEnds (t : Trial) : Nat :=
  lineEnds (Bytes.ofString t.group.engine) + lineEnds (Bytes.ofString t.group.query) +
    lineEnds (Bytes.ofString t.group.scaleFactor.label) + 1

/-- A count is written without quotes. -/
theorem not_special_of_count? {s : String} {n : UInt64}
    (h : Numeral.count? s.toList = some n) : ∀ b ∈ Bytes.ofString s, Csv.isSpecial b = false := by
  have hnone : (Bytes.ofString s).countP Csv.isSpecial = 0 := by
    rw [Bytes.ofString_eq_ofChars, Bytes.countP_ofChars Csv.isSpecial_ascii, List.countP_eq_zero]
    intro c hc haccepts
    rw [Bytes.acceptsChar, Bool.and_eq_true, decide_eq_true_eq] at haccepts
    obtain ⟨hascii, hspecial⟩ := haccepts
    simp only [Csv.isSpecial, Csv.isLineEnd, Bool.or_eq_true, beq_iff_eq, ← UInt8.toNat_inj,
      UInt8.toNat_ofNat'] at hspecial
    rw [Nat.mod_eq_of_lt (by omega)] at hspecial
    simp only [comma, quote, Csv.lineFeed, Csv.carriageReturn, UInt8.toNat_ofNat] at hspecial
    rcases isDigit_of_count? h hc with rfl | hdigit
    · revert hspecial
      decide
    · rw [Char.isDigit, Bool.and_eq_true, decide_eq_true_eq, decide_eq_true_eq] at hdigit
      have hlo : 48 ≤ c.toNat := hdigit.1
      omega
  intro b hb
  rw [List.countP_eq_zero] at hnone
  exact Bool.eq_false_iff.mpr (hnone b hb)

theorem lineEnds_toString (n : UInt64) : lineEnds (Bytes.ofString (toString n)) = 0 := by
  rw [lineEnds, List.countP_eq_zero]
  intro b hb
  have hspecial := not_special_of_count? (count?_toString n) b hb
  rw [(Csv.isSpecial_eq_false hspecial).2.2]
  exact Bool.false_ne_true

theorem lineEnds_write (trials : List Trial) :
    lineEnds (write trials) = (trials.map rowEnds).sum := by
  induction trials with
  | nil => rfl
  | cons t trials ih =>
      have hwrite : write (t :: trials) = Csv.writeRecord (fields t) ++ write trials := rfl
      have hrecord : lineEnds (Csv.writeRecord (fields t)) = rowEnds t := by
        rw [Csv.lineEnds_writeRecord]
        cases hstall : t.reading.stallUs <;>
          simp [fields, hstall, lineEnds_toString, rowEnds, Nat.add_assoc]
      rw [hwrite, Csv.lineEnds_append, hrecord, ih]
      rfl

/-- The columns of a record that is read as a trial. -/
theorem columns_of_reads {first : List Bytes} {t : Trial} (h : Reads [first] [t]) :
    ∃ latency rest, first.map text? =
        (t.group.engine :: t.group.query :: t.group.scaleFactor.label :: latency :: rest).map some ∧
      ∃ n, Numeral.count? latency.toList = some n := by
  cases h with
  | blank _ hrest => cases hrest
  | row htexts htrial _ =>
      obtain ⟨sf, latency, rest, rfl, hsf, hcount⟩ := columns_of_trial htrial
      have htrim : Text.trim sf = sf := Csv.trim_of_mem_texts htexts (by simp)
      have hlabel : t.group.scaleFactor.label = sf := by
        rw [hsf, ScaleFactor.ofText, htrim]
      rw [hlabel]
      exact ⟨latency, rest, htexts, hcount⟩

theorem rowEnds_le_recordEnds {first : List Bytes} {t : Trial} (h : Reads [first] [t]) :
    rowEnds t ≤ Csv.recordEnds first := by
  obtain ⟨latency, rest, htexts, -⟩ := columns_of_reads h
  match first, htexts with
  | [_], htexts | [_, _], htexts => simp at htexts
  | f₀ :: f₁ :: f₂ :: others, htexts =>
      simp only [List.map_cons, List.cons.injEq] at htexts
      obtain ⟨hengine, hquery, hlabel, -⟩ := htexts
      have hends₀ := Csv.countP_isLineEnd_le hengine
      have hends₁ := Csv.countP_isLineEnd_le hquery
      have hends₂ := Csv.countP_isLineEnd_le hlabel
      simp only [Csv.recordEnds, List.map_cons, List.sum_cons, rowEnds, lineEnds]
      omega

theorem sum_rowEnds_le {records : List (List Bytes)} {trials : List Trial}
    (h : Reads records trials) : (trials.map rowEnds).sum ≤ tableEnds records := by
  induction h with
  | nil => exact Nat.le_refl 0
  | blank _ _ ih =>
      rw [Csv.tableEnds_cons]
      exact Nat.le_add_left_of_le ih
  | row htexts htrial _ ih =>
      have hrow := rowEnds_le_recordEnds (.row htexts htrial .nil)
      rw [Csv.tableEnds_cons, List.map_cons, List.sum_cons]
      exact Nat.add_le_add hrow ih

/-- Rows that are appended behind an open record can only be read if that record holds no
row yet and becomes the first of them: otherwise a line end is missing. -/
theorem open_record_becomes_first {c : Cursor} (hopen : c.phase ≠ .betweenRecords)
    {last added : List Trial} (hadded : added ≠ [])
    (h : Reads (c.records (write added)) (last ++ added)) :
    last = [] ∧ ∃ t rest first records, added = t :: rest ∧
      c.records (write added) = first :: records ∧ Reads [first] [t] := by
  have hwrite : ∃ bytes, write added = bytes ++ [Csv.lineFeed] := by
    obtain ⟨before, t, rfl⟩ := List.eq_nil_or_concat' added |>.resolve_left hadded
    refine ⟨write before ++ Csv.writeFields ((fields t).map Bytes.ofString), ?_⟩
    rw [write_append, List.append_assoc]
    simp [write, Csv.write, Csv.writeRecord]
  obtain ⟨bytes, hbytes⟩ := hwrite
  obtain ⟨first, records, hrecords, hlt⟩ := Csv.Cursor.tableEnds_tail_lt hopen bytes
  rw [← hbytes] at hrecords hlt
  rw [lineEnds_write] at hlt
  -- the records after the open one cannot hold all that was appended
  have hmissing : ∀ others, ¬ Reads records (others ++ added) := by
    intro others hall
    have hne : records ≠ [] := by
      rintro rfl
      cases hothers : others ++ added with
      | nil => exact hadded (List.append_eq_nil_iff.mp hothers).2
      | cons u us =>
          rw [hothers] at hall
          cases hall
    have hsum := sum_rowEnds_le hall
    rw [List.map_append, List.sum_append] at hsum
    have := hlt hne
    omega
  rw [hrecords] at h
  cases hrows : last ++ added with
  | nil => exact absurd (List.append_eq_nil_iff.mp hrows).2 hadded
  | cons t rest =>
      rw [hrows] at h
      cases h with
      | blank _ hrest =>
          rw [← hrows] at hrest
          exact absurd hrest (hmissing last)
      | row htexts htrial hrest =>
          cases last with
          | nil => exact ⟨rfl, t, rest, first, records, hrows, hrecords, .row htexts htrial .nil⟩
          | cons u last =>
              obtain ⟨-, rfl⟩ := List.cons.inj hrows
              exact absurd hrest (hmissing last)

/-! ## The first appended row -/

/-- The fields of a trial after its engine. -/
def otherFields (t : Trial) : List Bytes := ((fields t).drop 1).map Bytes.ofString

theorem write_cons (t : Trial) (rest : List Trial) :
    write (t :: rest) = Csv.writeField (Bytes.ofString t.group.engine) ++ comma ::
      (Csv.writeFields (otherFields t) ++ Csv.lineFeed :: write rest) := by
  simp [write, Csv.write, Csv.writeRecord, otherFields, fields, Csv.writeFields]

theorem exists_writeLabels (t : Trial) (rest : List Trial) :
    ∃ bytes, write (t :: rest) =
      Cursor.writeLabels t.group.engine t.group.query t.group.scaleFactor.label bytes := by
  cases hstall : t.reading.stallUs <;>
    simp [write, Csv.write, Csv.writeRecord, fields, hstall, Csv.writeFields, Cursor.writeLabels]

/-- Behind an open first field a plain text is read as more of it, and the rest of the row
as it was written. -/
theorem records_behind_field {c : Cursor} (hphase : c.phase ≠ .quoted) (hfields : c.fields = [])
    {text : Bytes} (htext : text.any Csv.isSpecial = false) (t : Trial) (rest : List Trial) :
    c.records (text ++ comma ::
        (Csv.writeFields (otherFields t) ++ Csv.lineFeed :: write rest)) =
      ((c.field.reverse ++ text) :: otherFields t) ::
        (rest.map fields).map (List.map Bytes.ofString) := by
  rw [Csv.Cursor.records_plain_comma _ hphase htext,
    Csv.Cursor.records_writeFields _ (by simp [otherFields, fields]) ⟨.inr rfl, rfl⟩ (by simp),
    records_write, hfields]
  rfl

theorem text?_otherFields {t : Trial} (h : Writable t) :
    (otherFields t).map text? = ((fields t).drop 1).map some :=
  text?_of_written fun _ hs ↦ trim_of_mem_fields h (List.mem_of_mem_drop hs)

/-- A new table whose first label starts with a mark outside quotes loses it. -/
theorem not_reads_of_mark {t : Trial} {rest : List Trial}
    (hmark : Csv.byteOrderMark.isPrefixOf (write (t :: rest)) = true) :
    ¬ Reads (start.records (Csv.dropMark (write (t :: rest))).1) (t :: rest) := by
  intro h
  have hdrop : (Csv.dropMark (write (t :: rest))).1 = (write (t :: rest)).drop 3 := by
    rw [Csv.dropMark, if_pos hmark]
  rw [hdrop] at h
  obtain ⟨bytes, hbytes⟩ := List.isPrefixOf_iff_prefix.mp hmark
  rw [write_cons] at h hbytes
  cases hspecial : (Bytes.ofString t.group.engine).any Csv.isSpecial with
  | true =>
      rw [Csv.writeField, if_pos hspecial] at hbytes
      cases hbytes
  | false =>
      rw [Csv.writeField_of_plain hspecial] at h hbytes
      obtain ⟨text, htext⟩ := Csv.exists_eq_mark_append hbytes.symm
      rw [htext, List.any_append, Bool.or_eq_false_iff] at hspecial
      have hread := records_behind_field (c := start) (by simp [start]) rfl hspecial.2 t rest
      rw [htext, List.append_assoc, List.drop_append_of_le_length (by simp [Csv.byteOrderMark]),
        Csv.byteOrderMark] at h
      simp only [List.drop_succ_cons, List.drop_zero, List.nil_append] at h
      rw [hread] at h
      cases h with
      | blank hblank _ =>
          have hlatency := hblank (Bytes.ofString (toString t.reading.latencyMs))
            (by simp [otherFields, fields])
          rw [Csv.text?_ofString, trim_toString] at hlatency
          exact ne_empty_of_count? (count?_toString _) (Option.some.inj hlatency)
      | row htexts htrial _ =>
          obtain ⟨latency, others, hcolumns, -⟩ := columns_of_reads (.row htexts htrial .nil)
          have hshort := Csv.length_le_of_text? (List.cons.inj hcolumns).1
          rw [htext, List.length_append] at hshort
          simp [start, Csv.byteOrderMark] at hshort

/-! ## Appends to any table -/

/-- Rows that are appended to some content are read as they are, after its own.  Either no
record is open, and the rows do not begin a table with a mark; or nothing is open but a
blank first field outside quotes, and the first label needs no quotes. -/
def Continues (content : Bytes) (added : List Trial) : Prop :=
  let c := Csv.openRecord content
  (c.phase = .betweenRecords ∧
      ¬ (content = [] ∧ Csv.byteOrderMark.isPrefixOf (write added) = true)) ∨
    ((c.phase = .plain ∨ c.phase = .quoteInQuoted) ∧ c.fields = [] ∧
      text? c.field.reverse = some "" ∧
      ∀ t ∈ added.head?, (Bytes.ofString t.group.engine).any Csv.isSpecial = false)

theorem parse_of_empty_iff {added : List Trial} (hadded : added ≠ [])
    (hwritable : ∀ t ∈ added, Writable t) {limit : Nat} (hlimit : added.length ≤ limit) :
    parse limit (write added) = .ok added ↔ Continues [] added := by
  have hphase : (Csv.openRecord []).phase = .betweenRecords := rfl
  obtain ⟨t, rest, rfl⟩ := List.exists_cons_of_ne_nil hadded
  rw [parse_eq_ok_iff, Continues]
  cases hmark : Csv.byteOrderMark.isPrefixOf (write (t :: rest)) with
  | true =>
      have hnot := not_reads_of_mark hmark
      simp [hphase, hnot]
  | false =>
      have hdrop : (Csv.dropMark (write (t :: rest))).1 = write (t :: rest) := by
        rw [Csv.dropMark, hmark]
        rfl
      rw [hdrop, records_write]
      exact iff_of_true ⟨reads_written hwritable, hlimit⟩ (.inl ⟨hphase, by simp⟩)

theorem reads_of_continues {c : Cursor}
    (hphase : c.phase = .plain ∨ c.phase = .quoteInQuoted) (hfields : c.fields = [])
    (hblank : text? c.field.reverse = some "") {t : Trial} {rest : List Trial}
    (hwritable : ∀ u ∈ t :: rest, Writable u)
    (hplain : (Bytes.ofString t.group.engine).any Csv.isSpecial = false) :
    Reads (c.records (write (t :: rest))) (t :: rest) := by
  have hne : c.phase ≠ .quoted := by
    rcases hphase with hphase | hphase <;> simp [hphase]
  have ht := hwritable t List.mem_cons_self
  rw [write_cons, Csv.writeField_of_plain hplain, records_behind_field hne hfields hplain]
  have htexts : ((c.field.reverse ++ Bytes.ofString t.group.engine) :: otherFields t).map text? =
      (fields t).map some := by
    rw [List.map_cons, Csv.text?_append_of_blank hblank ht.engine, text?_otherFields ht]
    rfl
  exact .row htexts (trial_fields ht 0)
    (reads_written fun u hu ↦ hwritable u (List.mem_cons_of_mem t hu))

/-- A record that stays open when the content ends holds a row, or blanks. -/
theorem reads_open_iff {c : Cursor} (hc : c.WellFormed) {last added : List Trial}
    (hlast : Reads (c.records []) last) (hadded : added ≠ [])
    (hwritable : ∀ t ∈ added, Writable t) (hopen : c.phase ≠ .betweenRecords) :
    Reads (c.records (write added)) (last ++ added) ↔
      (c.phase = .plain ∨ c.phase = .quoteInQuoted) ∧ c.fields = [] ∧
        text? c.field.reverse = some "" ∧
        ∀ t ∈ added.head?, (Bytes.ofString t.group.engine).any Csv.isSpecial = false := by
  have hrecord : c.records [] = [c.record] := by
    rw [Csv.Cursor.records, if_neg hopen]
  rw [hrecord] at hlast
  constructor
  · intro h
    obtain ⟨rfl, t, rest, first, records, rfl, hrecords, hfirst⟩ :=
      open_record_becomes_first hopen hadded h
    have hblank : ∀ f ∈ c.record, text? f = some "" := by
      cases hlast with
      | blank hblank _ => exact hblank
    obtain ⟨latency, others, htexts, n, hcount⟩ := columns_of_reads hfirst
    have hcomma : comma ∉ Bytes.ofString latency := by
      intro hmem
      cases not_special_of_count? hcount comma hmem
    obtain ⟨bytes, hbytes⟩ := exists_writeLabels t rest
    have hcolumns : c.FirstTexts (Cursor.writeLabels t.group.engine t.group.query
        t.group.scaleFactor.label bytes) (t.group.engine :: t.group.query ::
          t.group.scaleFactor.label :: latency :: others) := by
      rw [← hbytes]
      exact ⟨first, records, hrecords, htexts⟩
    obtain ⟨hphase, hfields, hplain⟩ := hcolumns.outside_first_field hc hopen hblank
      (ne_empty_of_count? hcount) hcomma
    refine ⟨hphase, hfields, hblank _ (by simp [Csv.Cursor.record]), ?_⟩
    intro u hu
    cases hu
    exact hplain
  · rintro ⟨hphase, hfields, hblank, hplain⟩
    obtain ⟨t, rest, rfl⟩ := List.exists_cons_of_ne_nil hadded
    have hnone : last = [] := by
      have hempty : Reads [c.record] [] := by
        refine .blank ?_ .nil
        simpa [Csv.Cursor.record, hfields] using hblank
      exact hlast.unique hempty
    rw [hnone]
    exact reads_of_continues hphase hfields hblank hwritable (hplain t rfl)

theorem parse_append_iff {content : Bytes} (hne : content ≠ []) {limit : Nat}
    {rows added : List Trial} (hrows : parse limit content = .ok rows) (hadded : added ≠ [])
    (hwritable : ∀ t ∈ added, Writable t) (hlimit : rows.length + added.length ≤ limit) :
    parse limit (content ++ write added) = .ok (rows ++ added) ↔ Continues content added := by
  obtain ⟨hreads, -⟩ := parse_eq_ok_iff.mp hrows
  -- a part of a mark is not UTF-8
  have hpart : ∀ bytes : Bytes, start.records (Csv.dropMark bytes).1 = [[bytes]] →
      text? bytes = none → content ≠ bytes := by
    rintro bytes hrecords htext rfl
    rw [hrecords] at hreads
    obtain ⟨texts, htexts⟩ := hreads.exists_texts
    cases texts with
    | nil => cases htexts
    | cons s texts =>
        have hsome := (List.cons.inj htexts).1
        rw [htext] at hsome
        cases hsome
  have hdrop := Csv.dropMark_append hne (hpart [0xEF] rfl (by decide))
    (hpart [0xEF, 0xBB] rfl (by decide)) (write added)
  rw [← List.append_nil (Csv.dropMark content).1, Csv.records_append] at hreads
  obtain ⟨before, last, rfl, hbefore, hlast⟩ := hreads.exists_of_append
  have hwhole : parse limit (content ++ write added) = .ok (before ++ last ++ added) ↔
      Reads ((Csv.openRecord content).records (write added)) (last ++ added) := by
    rw [parse_eq_ok_iff, hdrop, Csv.records_append, List.append_assoc]
    constructor
    · rintro ⟨h, -⟩
      obtain ⟨before', rest, heq, hbefore', hrest⟩ := h.exists_of_append
      rw [hbefore.unique hbefore'] at heq
      rw [List.append_cancel_left heq]
      exact hrest
    · intro h
      refine ⟨hbefore.append h, ?_⟩
      rwa [← List.append_assoc, List.length_append]
  rw [hwhole, Continues]
  have hc := Csv.wellFormed_openRecord content
  by_cases hopen : (Csv.openRecord content).phase = .betweenRecords
  · have hnone : last = [] := by
      rw [Csv.Cursor.records, if_pos hopen] at hlast
      exact hlast.unique .nil
    rw [hc.between hopen, records_write, hnone]
    exact iff_of_true (reads_written hwritable) (.inl ⟨rfl, fun h ↦ hne h.1⟩)
  · rw [reads_open_iff hc hlast hadded hwritable hopen]
    simp only [hopen, false_and, false_or]

/-- Rows that are appended to a table keep what it holds, and are read after it, exactly if
the table does not end inside a record that is more than a blank first field. -/
theorem read_append_iff {fs : FileSystem} {path : String} {content : Bytes} {limit : Nat}
    {rows added : List Trial} (hcontent : fs.read path = .ok content)
    (hrows : read fs limit path = .ok rows) (hadded : added ≠ [])
    (hwritable : ∀ t ∈ added, Writable t) (hlimit : rows.length + added.length ≤ limit) :
    ∃ fs', append fs path added = .ok fs' ∧
      (read fs' limit path = .ok (rows ++ added) ↔ Continues content added) := by
  obtain ⟨fs', happend, hread⟩ := exists_append (FileSystem.holds_of_read hcontent) added
  refine ⟨fs', happend, ?_⟩
  rw [read_eq_ok_iff hread]
  have hparse := (read_eq_ok_iff hcontent).mp hrows
  by_cases hne : content = []
  · subst hne
    have hnone : rows = [] := by
      obtain ⟨hreads, -⟩ := parse_eq_ok_iff.mp hparse
      exact hreads.unique .nil
    rw [hnone, List.nil_append, List.nil_append]
    rw [hnone, List.length_nil, Nat.zero_add] at hlimit
    exact parse_of_empty_iff hadded hwritable hlimit
  · exact parse_append_iff hne hparse hadded hwritable hlimit

/-- A row without a line end. -/
def unterminatedRow : Bytes := Bytes.ofString "duckdb,q1,1,120"

def unterminatedFile : FileSystem := .ofEntries [] [(["rows.csv"], .file unterminatedRow)]

def rowBefore : Trial := ⟨⟨"duckdb", "q1", ⟨"1"⟩⟩, ⟨120, none, none⟩⟩

def rowAfter : Trial := ⟨⟨"duckdb", "q3", ⟨"1"⟩⟩, ⟨42, none, none⟩⟩

theorem read_append_to_unterminated_row :
    read unterminatedFile 9 "rows.csv" = .ok [rowBefore] ∧
      ∃ fs', append unterminatedFile "rows.csv" [rowAfter] = .ok fs' ∧
        read fs' 9 "rows.csv" ≠ .ok [rowBefore, rowAfter] := by
  have hcontent : unterminatedFile.read "rows.csv" = .ok unterminatedRow := by decide +kernel
  have hrows : read unterminatedFile 9 "rows.csv" = .ok [rowBefore] := by
    rw [read_eq_ok_iff hcontent]
    rfl
  have hphase : (Csv.openRecord unterminatedRow).phase = .plain := by decide +kernel
  have hfields : (Csv.openRecord unterminatedRow).fields ≠ [] := by decide +kernel
  have hwritable : ∀ t ∈ [rowAfter], Writable t := by
    intro t ht
    rw [List.mem_singleton.mp ht]
    exact ⟨by decide, by decide, by decide, rfl⟩
  obtain ⟨fs', happend, hiff⟩ :=
    read_append_iff hcontent hrows (List.cons_ne_nil rowAfter []) hwritable (by decide)
  refine ⟨hrows, fs', happend, fun hread ↦ ?_⟩
  rcases hiff.mp hread with ⟨hbetween, -⟩ | ⟨-, hnone, -⟩
  · rw [hphase] at hbetween
    cases hbetween
  · exact hfields hnone

end Timings
end QueryBench
