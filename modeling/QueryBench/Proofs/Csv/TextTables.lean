import QueryBench.Proofs.Csv.FieldText
import QueryBench.Proofs.Csv.RoundTrip

/-!
# Tables of texts

What cuts a table into fields are ASCII characters, and no byte of any other character is one
of these.  So the fields of a table that is UTF-8 are UTF-8.
-/

namespace QueryBench
namespace Csv

def IsText (bytes : Bytes) : Prop := ∃ cs, bytes = Bytes.ofChars cs

theorem IsText.append {a b : Bytes} (ha : IsText a) (hb : IsText b) : IsText (a ++ b) := by
  obtain ⟨cs, rfl⟩ := ha
  obtain ⟨ds, rfl⟩ := hb
  exact ⟨cs ++ ds, (Bytes.ofChars_append cs ds).symm⟩

theorem isText_encodeChar (c : Char) : IsText (String.utf8EncodeChar c) :=
  ⟨[c], by rw [Bytes.ofChars_cons, Bytes.ofChars_nil, List.append_nil]⟩

theorem IsText.isSome_text? {field : Bytes} (h : IsText field) : (text? field).isSome := by
  obtain ⟨cs, rfl⟩ := h
  rw [← Bytes.ofString_ofList, text?_ofString]
  rfl

namespace Cursor

variable {c : Cursor}

/-- The fields of the open record are texts. -/
structure HoldsTexts (c : Cursor) : Prop where
  field : IsText c.field.reverse
  fields : ∀ f ∈ c.fields, IsText f

theorem holdsTexts_start : start.HoldsTexts := ⟨⟨[], rfl⟩, nofun⟩

theorem HoldsTexts.record (h : c.HoldsTexts) : ∀ f ∈ c.record, IsText f := by
  intro f hf
  rw [Cursor.record, List.mem_reverse, List.mem_cons] at hf
  rcases hf with rfl | hf
  · exact h.field
  · exact h.fields f hf

theorem HoldsTexts.records (h : c.HoldsTexts) (cs : List Char) :
    ∀ fields ∈ c.records (Bytes.ofChars cs), ∀ f ∈ fields, IsText f := by
  induction cs generalizing c with
  | nil =>
      intro fields hfields
      rw [Bytes.ofChars_nil, Cursor.records] at hfields
      split at hfields
      · cases hfields
      · rw [List.mem_singleton.mp hfields]
        exact h.record
  | cons ch cs ih =>
      have hpushed : ∀ next : Phase,
          HoldsTexts ⟨next, (String.utf8EncodeChar ch).reverse ++ c.field, c.fields⟩ := by
        refine fun next ↦ ⟨?_, h.fields⟩
        rw [List.reverse_append, List.reverse_reverse]
        exact h.field.append (isText_encodeChar ch)
      rw [Bytes.ofChars_cons]
      rcases Bytes.utf8EncodeChar_cases isSpecial_ascii ch with ⟨-, b, hb, -⟩ | ⟨-, hnone⟩
      · rw [hb] at hpushed ⊢
        rw [List.singleton_append]
        cases hmove : c.phase.move b with
        | skip =>
            rw [records_skip _ hmove]
            exact ih h
        | push next =>
            rw [records_push _ hmove]
            exact ih (hpushed next)
        | turn next =>
            rw [records_turn _ hmove]
            exact ih ⟨h.field, h.fields⟩
        | endField =>
            rw [records_endField _ hmove]
            refine ih ⟨⟨[], rfl⟩, fun f hf ↦ ?_⟩
            rcases List.mem_cons.mp hf with rfl | hf
            · exact h.field
            · exact h.fields f hf
        | endRecord =>
            rw [records_endRecord _ hmove]
            intro fields hfields
            rcases List.mem_cons.mp hfields with rfl | hfields
            · exact h.record
            · exact ih holdsTexts_start fields hfields
      · have hplain : (String.utf8EncodeChar ch).any isSpecial = false :=
          List.any_eq_false.mpr fun b hb ↦ ne_true_of_eq_false (hnone b hb)
        obtain ⟨next, -, -, hrest⟩ := exists_records_plain (c := c) (Bytes.ofChars cs) hplain
        rw [hrest]
        exact ih (hpushed next)

end Cursor

/-- A mark in front of a text is a character of it. -/
theorem isText_dropMark (cs : List Char) : IsText (dropMark (Bytes.ofChars cs)).1 := by
  rw [dropMark]
  split
  · rename_i hmark
    obtain ⟨rest, hrest⟩ := List.isPrefixOf_iff_prefix.mp hmark
    cases cs with
    | nil => cases hrest
    | cons c cs =>
        rw [Bytes.ofChars_cons] at hrest ⊢
        have hc : '\uFEFF' = c := Bytes.utf8EncodeChar_append_inj (x := rest) hrest
        subst hc
        exact ⟨cs, rfl⟩
  · exact ⟨cs, rfl⟩

/-- The fields of a table that is UTF-8 have texts. -/
theorem isSome_text?_of_ofString (s : String) :
    ∀ r ∈ records (Bytes.ofString s), ∀ f ∈ r.fields, (text? f).isSome := by
  intro r hr f hf
  obtain ⟨cs, hcs⟩ := isText_dropMark s.toList
  have hfields : r.fields ∈ Cursor.start.records (Bytes.ofChars cs) := by
    rw [← hcs, ← Bytes.ofString_eq_ofChars, ← map_fields_records]
    exact List.mem_map_of_mem hr
  exact (Cursor.holdsTexts_start.records cs r.fields hfields f hf).isSome_text?

end Csv
end QueryBench
