import QueryBench.Proofs.Csv.OpenRecord

/-!
# Writing behind blanks

Four fields or more are written behind an open record that holds blanks only, and the
last of the four is neither blank nor has a comma.  They are read back as the first four
columns only where the open field is the first one, is outside quotes, and the first
written field needs no quotes.  In all other cases a column is shifted or a quote or a
comma is read as text.
-/

namespace QueryBench
namespace Csv
namespace Cursor

variable {c : Cursor}

/-- Three written fields that are not the last ones. -/
def writeLabels (engine query label : String) (rest : Bytes) : Bytes :=
  writeField (Bytes.ofString engine) ++ comma ::
    (writeField (Bytes.ofString query) ++ comma ::
      (writeField (Bytes.ofString label) ++ comma :: rest))

variable {engine query label latency : String} {rest : Bytes} {texts : List String}

namespace FirstTexts

/-- An empty field is written as nothing. -/
theorem of_empty {x : String} (hx : x = "") {bytes : Bytes}
    (h : c.FirstTexts (writeField (Bytes.ofString x) ++ comma :: bytes) texts) :
    c.FirstTexts (comma :: bytes) texts := by
  subst hx
  exact h

/-- Outside quotes the commas of empty fields shift all columns. -/
theorem no_closed_field_outside (hphase : c.phase ≠ .quoted) (hopen : c.phase ≠ .betweenRecords)
    (hblank : ∀ f ∈ c.fields, text? f = some "") (hfield : text? c.field.reverse = some "")
    (hlatency : latency ≠ "")
    (h : c.FirstTexts (writeLabels engine query label rest)
      (engine :: query :: label :: latency :: texts)) : c.fields = [] := by
  by_contra hne
  have hlength : 0 < c.fields.length := List.length_pos_iff.mpr hne
  have hengine : engine = "" := by
    have hcolumn := h.blank_column hopen hblank hlength
    exact Option.some.inj hcolumn
  have h₁ := (h.of_empty hengine).endField hphase
  have hblank₁ : ∀ f ∈ c.field.reverse :: c.fields, text? f = some "" := by
    simpa using ⟨hfield, hblank⟩
  have hquery : query = "" := by
    have hcolumn := h₁.blank_column (k := 1) (by simp) hblank₁ (by simpa using hlength)
    exact Option.some.inj hcolumn
  have h₂ := (h₁.of_empty hquery).endField (by simp)
  have hblank₂ : ∀ f ∈ [] :: c.field.reverse :: c.fields, text? f = some "" := by
    intro f hf
    rcases List.mem_cons.mp hf with rfl | hf
    · rfl
    · exact hblank₁ f hf
  have hlabel : label = "" := by
    have hcolumn := h₂.blank_column (k := 2) (by simp) hblank₂ (by simpa using hlength)
    exact Option.some.inj hcolumn
  have h₃ := (h₂.of_empty hlabel).endField (by simp)
  have hblank₃ : ∀ f ∈ [] :: [] :: c.field.reverse :: c.fields, text? f = some "" := by
    intro f hf
    rcases List.mem_cons.mp hf with rfl | hf
    · rfl
    · exact hblank₂ f hf
  have hcolumn := h₃.blank_column (k := 3) (by simp) hblank₃ (by simpa using hlength)
  exact hlatency (Option.some.inj hcolumn)

/-- The text of a column keeps the comma that it has begun with. -/
theorem comma_mem_column (hopen : c.phase ≠ .betweenRecords) {front field : Bytes}
    (hfront : text? front = some "") (hfield : c.field.reverse = front ++ comma :: field)
    {x : String} (hx : texts[c.fields.length]? = some x) {bytes : Bytes}
    (h : c.FirstTexts bytes texts) : comma ∈ Bytes.ofString x := by
  obtain ⟨t, extra, ht, htext⟩ := h.open_column hopen
  rw [hx] at ht
  cases ht
  rw [hfield, List.append_assoc] at htext
  obtain ⟨bs, hbs⟩ := ofString_of_text?_comma hfront htext
  rw [hbs]
  exact List.mem_cons_self

/-- Behind one closed field, the open one has begun with the comma of the first label.  The second
label is then a comma, the third one is one, and the fourth text begins with one. -/
theorem comma_mem_of_one_closed {f field : Bytes} (hfield : text? field.reverse = some "")
    (h : FirstTexts ⟨.quoted, comma :: field, [f]⟩ (writeField (Bytes.ofString query) ++ comma ::
        (writeField (Bytes.ofString label) ++ comma :: rest))
      (engine :: query :: label :: latency :: texts)) : comma ∈ Bytes.ofString latency := by
  have hone : (comma :: field).reverse = field.reverse ++ Bytes.ofString "," := by
    rw [List.reverse_cons]
    rfl
  rw [← List.reverse_reverse (comma :: field), hone] at h
  obtain ⟨rfl, h₂⟩ := h.quoted_text hfield (by decide) rfl rfl
  have h₃ : FirstTexts ⟨.quoted, ([] ++ Bytes.ofString ",").reverse,
      [field.reverse ++ Bytes.ofString ",", f]⟩
      (writeField (Bytes.ofString label) ++ comma :: rest) _ :=
    h₂.of_eq ((records_turn _ rfl).trans (records_push _ rfl))
  obtain ⟨rfl, h₄⟩ := h₃.quoted_text rfl (by decide) rfl rfl
  have h₅ : FirstTexts ⟨.quoted, [comma], [[] ++ Bytes.ofString ",",
      field.reverse ++ Bytes.ofString ",", f]⟩ rest _ :=
    h₄.of_eq ((records_turn _ rfl).trans (records_push _ rfl))
  have hempty : text? [] = some "" := rfl
  exact comma_mem_column (by simp) hempty rfl rfl h₅

/-- Behind two closed fields, the open one has begun with two commas.  The third label is then
these two, and the second of them leaves the fourth text blank. -/
theorem eq_empty_of_two_closed {f g field : Bytes} (hfield : text? field.reverse = some "")
    (h : FirstTexts ⟨.quoted, comma :: comma :: field, [f, g]⟩
      (writeField (Bytes.ofString label) ++ comma :: rest)
      (engine :: query :: label :: latency :: texts)) : latency = "" := by
  have htwo : (comma :: comma :: field).reverse = field.reverse ++ Bytes.ofString ",," := by
    rw [List.reverse_cons, List.reverse_cons, List.append_assoc]
    rfl
  rw [← List.reverse_reverse (comma :: comma :: field), htwo] at h
  obtain ⟨rfl, h₂⟩ := h.quoted_text hfield (by decide) rfl rfl
  have h₃ : FirstTexts ⟨.fieldStart, [], [[], field.reverse ++ Bytes.ofString ",,", f, g]⟩
      (quote :: comma :: rest) _ := h₂.endField (by simp)
  obtain ⟨t, ht, htext⟩ := h₃.closed_column (k := 3) (f := []) (by simp) rfl
  have hempty : text? [] = some "" := rfl
  rw [hempty] at htext
  rw [Option.some.inj htext]
  exact Option.some.inj ht

/-- Inside quotes the comma after an empty field is text of the next label, whose own
quotes and commas then end fields too early. -/
theorem no_closed_field_quoted {field : Bytes} {fields : List Bytes}
    (hblank : ∀ f ∈ fields, text? f = some "") (hfield : text? field.reverse = some "")
    (hlatency : latency ≠ "") (hcomma : comma ∉ Bytes.ofString latency)
    (h : FirstTexts ⟨.quoted, field, fields⟩ (writeLabels engine query label rest)
      (engine :: query :: label :: latency :: texts)) : fields = [] := by
  by_contra hne
  have hlength : 0 < fields.length := List.length_pos_iff.mpr hne
  have hengine : engine = "" := by
    have hcolumn := h.blank_column (by simp) hblank hlength
    exact Option.some.inj hcolumn
  have h₁ := (h.of_empty hengine).push_comma
  match fields, hblank with
  | [f], hblank => exact hcomma (comma_mem_of_one_closed hfield h₁)
  | [f, g], hblank =>
      have hquery : query = "" := by
        have hcolumn := h.blank_column (k := 1) (by simp) hblank (by simp)
        exact Option.some.inj hcolumn
      exact hlatency (eq_empty_of_two_closed hfield (h₁.of_empty hquery).push_comma)
  | [f, g, g'], hblank =>
      have hbegins : (comma :: field).reverse = field.reverse ++ comma :: [] :=
        List.reverse_cons
      exact hcomma (comma_mem_column (by simp) hfield hbegins rfl h₁)
  | f :: g :: g' :: g'' :: fields, hblank =>
      have hcolumn := h.blank_column (k := 3) (by simp) hblank (by simp)
      exact hlatency (Option.some.inj hcolumn)

/-! ## The open field is the first one -/

/-- Where the opening quote of the first field is text, so is another quote of it, or a
comma of it is not. -/
theorem no_outside {phase : Phase} {field : Bytes}
    (hphase : phase = .plain ∨ phase = .quoteInQuoted) (hcomma : field.count comma = 0)
    (htexts : texts ≠ [])
    (h : FirstTexts ⟨phase, field, []⟩ (doubled (Bytes.ofString engine) ++ quote :: comma :: rest)
      (engine :: texts)) : False := by
  obtain ⟨first, records, hrecords, hfirst⟩ := h
  obtain ⟨f, more, others, houtside, hcases⟩ :=
    misread_outside rest (Bytes.ofString engine) hphase hcomma
  rw [hrecords] at houtside
  obtain ⟨rfl, -⟩ := List.cons.inj houtside
  obtain ⟨hengine, hmore⟩ := List.cons.inj hfirst
  rcases hcases with rfl | hcommas | hquotes
  · cases texts with
    | nil => exact htexts rfl
    | cons t texts => cases hmore
  · exact hcommas (count_comma_of_text? hengine)
  · rw [count_quote_of_text? hengine] at hquotes
    omega

theorem count_comma_of_blank {field : Bytes} (hfield : text? field.reverse = some "") :
    field.count comma = 0 := by
  have hcount := count_comma_of_text? hfield
  rw [List.count_reverse] at hcount
  exact hcount

theorem no_quoted {field : Bytes} (hfield : text? field.reverse = some "") (htexts : texts ≠ [])
    (h : FirstTexts ⟨.quoted, field, []⟩ (writeField (Bytes.ofString engine) ++ comma :: rest)
      (engine :: texts)) : False := by
  cases hspecial : (Bytes.ofString engine).any isSpecial with
  | true =>
      rw [writeField_of_special _ hspecial] at h
      have hturned : FirstTexts ⟨.quoteInQuoted, field, []⟩ _ _ := h.of_eq (records_turn _ rfl)
      exact no_outside (.inr rfl) (count_comma_of_blank hfield) htexts hturned
  | false =>
      have hplain : ∀ b ∈ Bytes.ofString engine, isSpecial b = false := by
        intro b hb
        rw [List.any_eq_false] at hspecial
        exact eq_false_of_ne_true (hspecial b hb)
      have hquote : quote ∉ Bytes.ofString engine := by
        intro hmem
        cases hplain quote hmem
      rw [writeField_of_plain hspecial] at h
      have hread := (h.of_eq (records_quoted _ hquote _ _)).push_comma
      obtain ⟨t, extra, ht, htext⟩ := hread.open_column (by simp)
      cases ht
      have hmem := comma_mem_of_text? htext (by simp)
      cases hplain comma hmem

theorem plain_of_outside {phase : Phase} {field : Bytes}
    (hphase : phase = .plain ∨ phase = .quoteInQuoted) (hfield : text? field.reverse = some "")
    (htexts : texts ≠ [])
    (h : FirstTexts ⟨phase, field, []⟩ (writeField (Bytes.ofString engine) ++ comma :: rest)
      (engine :: texts)) : (Bytes.ofString engine).any isSpecial = false := by
  rw [← Bool.not_eq_true]
  intro hspecial
  rw [writeField_of_special _ hspecial] at h
  rcases hphase with rfl | rfl
  · have hplain : FirstTexts ⟨.plain, quote :: field, []⟩ _ _ := h.of_eq (records_push _ rfl)
    refine no_outside (.inl rfl) ?_ htexts hplain
    rw [List.count_cons_of_ne (by decide), count_comma_of_blank hfield]
  · -- the opening quote is text, and all others are read as they were meant
    have hquoted : FirstTexts ⟨.quoted, quote :: field, []⟩ _ _ := h.of_eq (records_push _ rfl)
    have hclosed := (hquoted.of_eq (records_doubled _ _ _ _)).endField (by simp)
    obtain ⟨t, ht, htext⟩ := hclosed.closed_column (k := 0) (by simp) rfl
    cases ht
    have hcount := count_quote_of_text? htext
    rw [List.count_reverse, List.count_append, List.count_reverse, List.count_cons_self] at hcount
    omega

/-- The only way to read the written labels in their columns. -/
theorem outside_first_field (hc : c.WellFormed) (hopen : c.phase ≠ .betweenRecords)
    (hblank : ∀ f ∈ c.record, text? f = some "") (hlatency : latency ≠ "")
    (hcomma : comma ∉ Bytes.ofString latency)
    (h : c.FirstTexts (writeLabels engine query label rest)
      (engine :: query :: label :: latency :: texts)) :
    (c.phase = .plain ∨ c.phase = .quoteInQuoted) ∧ c.fields = [] ∧
      (Bytes.ofString engine).any isSpecial = false := by
  have hfield : text? c.field.reverse = some "" := hblank _ (by simp [record])
  have hclosed : ∀ f ∈ c.fields, text? f = some "" := fun f hf ↦ hblank f (by simp [record, hf])
  obtain ⟨phase, field, fields⟩ := c
  dsimp only at hopen hfield hclosed
  cases phase with
  | betweenRecords => exact absurd rfl hopen
  | fieldStart =>
      have hnone := h.no_closed_field_outside (by simp) hopen hclosed hfield hlatency
      exact absurd hnone (hc.atStart rfl).2
  | quoted =>
      obtain rfl := h.no_closed_field_quoted hclosed hfield hlatency hcomma
      exact (h.no_quoted hfield (by simp)).elim
  | plain =>
      obtain rfl := h.no_closed_field_outside (by simp) hopen hclosed hfield hlatency
      exact ⟨.inl rfl, rfl, plain_of_outside (.inl rfl) hfield (by simp) h⟩
  | quoteInQuoted =>
      obtain rfl := h.no_closed_field_outside (by simp) hopen hclosed hfield hlatency
      exact ⟨.inr rfl, rfl, plain_of_outside (.inr rfl) hfield (by simp) h⟩

end FirstTexts
end Cursor
end Csv
end QueryBench
