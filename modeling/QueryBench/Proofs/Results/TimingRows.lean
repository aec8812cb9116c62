import QueryBench.Results.Timings
import QueryBench.Proofs.Csv.FieldText
import QueryBench.Proofs.Outcomes

/-!
# Rows of timing tables

A table is read record by record: one whose fields are all blank is passed over, and
any other one is a trial.  What the records of a table give does not depend on where
they stand, so reading commutes with cutting a table into pieces.
-/

namespace QueryBench
namespace Timings

open Csv (text?)

/-! ## Numerals in fields -/

theorem toList_toString (n : UInt64) : (toString n).toList = Nat.toDigits 10 n.toNat := by
  have hrepr : toString n = n.toNat.repr := rfl
  rw [hrepr, Nat.toList_repr]

theorem count?_toString (n : UInt64) : Numeral.count? (toString n).toList = some n := by
  rw [toList_toString, Numeral.count?_toDigits]

theorem trim_toString (n : UInt64) : Text.trim (toString n) = toString n := by
  have hdigit : ∀ c ∈ (toString n).toList, Text.isBlank c = false := by
    intro c hc
    rw [toList_toString] at hc
    have hd := Nat.isDigit_of_mem_toDigits (by decide) (by decide) hc
    rw [Char.isDigit, Bool.and_eq_true, decide_eq_true_eq, decide_eq_true_eq] at hd
    obtain ⟨hlo, hhi⟩ := hd
    have hlo' : 48 ≤ c.toNat := hlo
    have hhi' : c.toNat ≤ 57 := hhi
    rw [← Bool.not_eq_true]
    intro hblank
    simp only [Text.isBlank, Text.blankRanges, List.any_cons, List.any_nil, Bool.or_eq_true,
      Bool.and_eq_true, decide_eq_true_eq, Bool.false_eq_true, or_false] at hblank
    omega
  apply String.toList_injective
  rw [Text.toList_trim, ← Text.trimChars_eq_trimBy]
  apply Text.trimChars_eq_self
  · intro c hc
    exact hdigit c (List.mem_of_mem_head? hc)
  · intro c hc
    exact hdigit c (List.mem_of_getLast? hc)

/-- A count holds nothing but digits and a sign. -/
theorem isDigit_of_count? {cs : List Char} {n : UInt64} (h : Numeral.count? cs = some n)
    {c : Char} (hc : c ∈ cs) : c = '+' ∨ c.isDigit = true := by
  have hdigits : ∀ ds : List Char, (Numeral.digits? ds).isSome = true →
      ∀ d ∈ ds, d.isDigit = true := by
    intro ds hds d hd
    unfold Numeral.digits? at hds
    split at hds
    · cases hds
    · rename_i hall
      rw [Bool.not_eq_true, Bool.or_eq_false_iff, Bool.not_eq_false'] at hall
      exact List.all_eq_true.mp hall.2 d hd
  have hsome : (Numeral.digits? (Numeral.dropPlus cs)).isSome = true := by
    unfold Numeral.count? at h
    split at h
    · rename_i m hm
      simp [hm]
    · cases h
  unfold Numeral.dropPlus at hsome
  split at hsome
  · rcases List.mem_cons.mp hc with rfl | hc
    · exact .inl rfl
    · exact .inr (hdigits _ hsome c hc)
  · exact .inr (hdigits _ hsome c hc)

theorem ne_empty_of_count? {s : String} {n : UInt64} (h : Numeral.count? s.toList = some n) :
    s ≠ "" := by
  rintro rfl
  cases h

/-! ## Trials of rows -/

/-- The line matters to errors only. -/
theorem stallField_eq_ok_iff_of_line (line : Nat) {fields : List String} {stall : Option UInt64} :
    stallField line fields = .ok stall ↔ stallField 0 fields = .ok stall := by
  cases fields with
  | nil => rfl
  | cons field rest =>
      rw [stallField, stallField]
      by_cases hempty : field.isEmpty = true
      · rw [if_pos hempty, if_pos hempty]
      · rw [if_neg hempty, if_neg hempty]
        cases stall? field <;> simp

/-- What a row has to hold for its trial. -/
theorem trial_eq_ok_iff_fields {line : Nat} {fields : List String} {t : Trial} :
    trial line fields = .ok t ↔ ∃ engine query sf latency rest ms stall,
      fields = engine :: query :: sf :: latency :: rest ∧ rest.length ≤ 1 ∧
        Numeral.count? latency.toList = some ms ∧ stallField line rest = .ok stall ∧
          t = ⟨⟨engine, query, .ofText sf⟩, ⟨ms, stall, none⟩⟩ := by
  constructor
  · intro h
    unfold trial at h
    split at h
    · rename_i engine query sf latency rest
      split at h
      · cases h
      · rename_i hrest
        cases hcount : Numeral.count? latency.toList with
        | none =>
            rw [hcount] at h
            cases h
        | some ms =>
            rw [hcount] at h
            obtain ⟨stall, hstall, rfl⟩ := map_eq_ok_iff.mp h
            exact ⟨engine, query, sf, latency, rest, ms, stall, rfl, Nat.not_lt.mp hrest, hcount,
              hstall, rfl⟩
    · cases h
  · rintro ⟨engine, query, sf, latency, rest, ms, stall, rfl, hrest, hcount, hstall, rfl⟩
    rw [trial, if_neg (Nat.not_lt.mpr hrest), hcount]
    dsimp only
    rw [hstall]
    rfl

theorem trial_eq_ok_iff_of_line (line : Nat) {fields : List String} {t : Trial} :
    trial line fields = .ok t ↔ trial 0 fields = .ok t := by
  rw [trial_eq_ok_iff_fields, trial_eq_ok_iff_fields]
  simp only [stallField_eq_ok_iff_of_line line]

/-- The columns of a row. -/
theorem columns_of_trial {line : Nat} {fields : List String} {t : Trial}
    (h : trial line fields = .ok t) :
    ∃ sf latency rest, fields = t.group.engine :: t.group.query :: sf :: latency :: rest ∧
      t.group.scaleFactor = .ofText sf ∧ ∃ n, Numeral.count? latency.toList = some n := by
  obtain ⟨_, _, sf, latency, rest, ms, _, rfl, -, hcount, -, rfl⟩ := trial_eq_ok_iff_fields.mp h
  exact ⟨sf, latency, rest, rfl, rfl, ms, hcount⟩

/-! ## Tables -/

/-- The trials that some records hold, each given by its fields. -/
inductive Reads : List (List Bytes) → List Trial → Prop
  | nil : Reads [] []
  | blank {fields : List Bytes} {records : List (List Bytes)} {trials : List Trial}
      (hblank : ∀ f ∈ fields, text? f = some "") (hrest : Reads records trials) :
      Reads (fields :: records) trials
  | row {fields : List Bytes} {records : List (List Bytes)} {trials : List Trial}
      {texts : List String} {t : Trial} (htexts : fields.map text? = texts.map some)
      (htrial : trial 0 texts = .ok t) (hrest : Reads records trials) :
      Reads (fields :: records) (t :: trials)

theorem texts_injective {texts texts' : List String} (h : texts.map some = texts'.map some) :
    texts = texts' :=
  (List.map_inj_right fun _ _ heq ↦ Option.some.inj heq).mp h

/-- A row is not blank: it has a latency. -/
theorem not_blank_of_trial {line : Nat} {fields : List Bytes} {texts : List String} {t : Trial}
    (htexts : fields.map text? = texts.map some) (htrial : trial line texts = .ok t) :
    ¬ ∀ f ∈ fields, text? f = some "" := by
  intro hblank
  obtain ⟨sf, latency, rest, rfl, -, n, hn⟩ := columns_of_trial htrial
  have hmem : some latency ∈ fields.map text? := by
    rw [htexts]
    simp
  obtain ⟨f, hf, hlatency⟩ := List.mem_map.mp hmem
  rw [hblank f hf] at hlatency
  exact ne_empty_of_count? hn (Option.some.inj hlatency).symm

theorem blank_iff {fields : List Bytes} {texts : List String}
    (htexts : fields.map text? = texts.map some) :
    (∀ f ∈ fields, text? f = some "") ↔ texts.all (·.isEmpty) = true := by
  calc
    (∀ f ∈ fields, text? f = some "") ↔ ∀ o ∈ fields.map text?, o = some "" := by simp
    _ ↔ ∀ o ∈ texts.map some, o = some "" := by rw [htexts]
    _ ↔ texts.all (·.isEmpty) = true := by simp

namespace Reads

theorem exists_texts {fields : List Bytes} {records : List (List Bytes)} {trials : List Trial}
    (h : Reads (fields :: records) trials) :
    ∃ texts : List String, fields.map text? = texts.map some := by
  cases h with
  | blank hblank _ =>
      refine ⟨fields.map fun _ ↦ "", ?_⟩
      rw [List.map_map]
      exact List.map_congr_left hblank
  | row htexts _ _ => exact ⟨_, htexts⟩

theorem unique {records : List (List Bytes)} {trials trials' : List Trial}
    (h : Reads records trials) (h' : Reads records trials') : trials = trials' := by
  induction h generalizing trials' with
  | nil =>
      cases h'
      rfl
  | blank hblank hrest ih =>
      cases h' with
      | blank _ hrest' => exact ih hrest'
      | row htexts htrial _ => exact absurd hblank (not_blank_of_trial htexts htrial)
  | row htexts htrial hrest ih =>
      cases h' with
      | blank hblank _ => exact absurd hblank (not_blank_of_trial htexts htrial)
      | row htexts' htrial' hrest' =>
          rw [htexts] at htexts'
          rw [texts_injective htexts', htrial'] at htrial
          rw [Except.ok.inj htrial, ih hrest']

theorem append {records records' : List (List Bytes)} {trials trials' : List Trial}
    (h : Reads records trials) (h' : Reads records' trials') :
    Reads (records ++ records') (trials ++ trials') := by
  induction h with
  | nil => exact h'
  | blank hblank _ ih => exact .blank hblank ih
  | row htexts htrial _ ih => exact .row htexts htrial ih

theorem exists_of_append {records records' : List (List Bytes)} {trials : List Trial}
    (h : Reads (records ++ records') trials) :
    ∃ front back, trials = front ++ back ∧ Reads records front ∧ Reads records' back := by
  induction records generalizing trials with
  | nil => exact ⟨[], trials, rfl, .nil, h⟩
  | cons fields records ih =>
      cases h with
      | blank hblank hrest =>
          obtain ⟨front, back, rfl, hfront, hback⟩ := ih hrest
          exact ⟨front, back, rfl, .blank hblank hfront, hback⟩
      | row htexts htrial hrest =>
          obtain ⟨front, back, rfl, hfront, hback⟩ := ih hrest
          exact ⟨_ :: front, back, rfl, .row htexts htrial hfront, hback⟩

end Reads

theorem reads_blank_iff {fields : List Bytes} (hblank : ∀ f ∈ fields, text? f = some "")
    {records : List (List Bytes)} {trials : List Trial} :
    Reads (fields :: records) trials ↔ Reads records trials := by
  constructor
  · intro h
    cases h with
    | blank _ hrest => exact hrest
    | row htexts htrial _ => exact absurd hblank (not_blank_of_trial htexts htrial)
  · exact .blank hblank

theorem reads_row_iff {fields : List Bytes} {texts : List String}
    (htexts : fields.map text? = texts.map some) (hblank : ¬ texts.all (·.isEmpty) = true)
    {records : List (List Bytes)} {trials : List Trial} :
    Reads (fields :: records) trials ↔
      ∃ t rest, trials = t :: rest ∧ trial 0 texts = .ok t ∧ Reads records rest := by
  constructor
  · intro h
    cases h with
    | blank hall _ => exact absurd ((blank_iff htexts).mp hall) hblank
    | row htexts' htrial hrest =>
        rw [htexts] at htexts'
        rw [← texts_injective htexts'] at htrial
        exact ⟨_, _, rfl, htrial, hrest⟩
  · rintro ⟨t, rest, rfl, htrial, hrest⟩
    exact .row htexts htrial hrest

/-- A record that is not blank gives a trial and takes up room. -/
theorem ofRecords_row_eq_ok_iff {limit room : Nat} {r : Csv.Record} {records : List Csv.Record}
    {texts : List String} (htexts : r.texts = .ok texts) (hblank : ¬ texts.all (·.isEmpty) = true)
    {trials : List Trial} :
    ofRecords limit room (r :: records) = .ok trials ↔
      ∃ t rest, trials = t :: rest ∧ trial 0 texts = .ok t ∧
        ∃ left, room = left + 1 ∧ ofRecords limit left records = .ok rest := by
  rw [ofRecords.eq_def]
  dsimp only
  rw [htexts]
  dsimp only
  rw [if_neg hblank]
  cases room with
  | zero => simp
  | succ room =>
      simp only [← trial_eq_ok_iff_of_line r.line]
      cases trial r.line texts with
      | error defect => simp
      | ok t =>
          dsimp only
          rw [map_eq_ok_iff]
          constructor
          · rintro ⟨rest, hrest, rfl⟩
            exact ⟨t, rest, rfl, rfl, room, rfl, hrest⟩
          · rintro ⟨_, rest, rfl, ⟨⟩, _, ⟨⟩, hrest⟩
            exact ⟨rest, hrest, rfl⟩

/-- A table is read exactly if its records are and the rows fit the limit. -/
theorem ofRecords_eq_ok_iff {limit room : Nat} {records : List Csv.Record}
    {trials : List Trial} :
    ofRecords limit room records = .ok trials ↔
      Reads (records.map Csv.Record.fields) trials ∧ trials.length ≤ room := by
  induction records generalizing room trials with
  | nil =>
      unfold ofRecords
      constructor
      · rintro ⟨⟩
        exact ⟨.nil, Nat.zero_le room⟩
      · rintro ⟨h, -⟩
        cases h
        rfl
  | cons r records ih =>
      rw [List.map_cons]
      cases htexts : r.texts with
      | error fault =>
          rw [ofRecords, htexts]
          refine iff_of_false nofun ?_
          rintro ⟨h, -⟩
          obtain ⟨texts, hok⟩ := h.exists_texts
          rw [← Csv.texts_eq_ok_iff, htexts] at hok
          cases hok
      | ok texts =>
          have hok := Csv.texts_eq_ok_iff.mp htexts
          by_cases hblank : texts.all (·.isEmpty) = true
          · rw [ofRecords, htexts, reads_blank_iff ((blank_iff hok).mpr hblank)]
            simpa only [hblank, if_true] using ih
          · rw [ofRecords_row_eq_ok_iff htexts hblank, reads_row_iff hok hblank]
            simp only [ih]
            constructor
            · rintro ⟨t, rest, rfl, htrial, left, rfl, hreads, hlength⟩
              exact ⟨⟨t, rest, rfl, htrial, hreads⟩, Nat.succ_le_succ hlength⟩
            · rintro ⟨⟨t, rest, rfl, htrial, hreads⟩, hlength⟩
              obtain ⟨left, rfl⟩ :=
                Nat.exists_eq_add_one.mpr (Nat.lt_of_lt_of_le (Nat.succ_pos _) hlength)
              exact ⟨t, rest, rfl, htrial, left, rfl, hreads, Nat.le_of_succ_le_succ hlength⟩

/-! ## Written trials -/

/-- A trial that a table can hold: it has no counters, and no blanks around its labels. -/
structure Writable (t : Trial) : Prop where
  engine : Text.trim t.group.engine = t.group.engine
  query : Text.trim t.group.query = t.group.query
  scaleFactor : Text.trim t.group.scaleFactor.label = t.group.scaleFactor.label
  counters : t.reading.counters = none

theorem trial_fields {t : Trial} (h : Writable t) (line : Nat) :
    trial line (fields t) = .ok t := by
  obtain ⟨⟨engine, query, ⟨label⟩⟩, ⟨latency, stall, counters⟩⟩ := t
  obtain ⟨-, -, hlabel, hcounters⟩ := h
  dsimp only at hlabel hcounters
  subst hcounters
  cases stall with
  | none =>
      simp [fields, trial, count?_toString, stallField, Except.map, ScaleFactor.ofText, hlabel]
  | some stall =>
      have hstall : stall? (toString stall) = some stall := by
        rw [stall?, count?_toString]
      have hne : (toString stall).isEmpty = false := by
        rw [Bool.eq_false_iff]
        intro hempty
        exact ne_empty_of_count? (count?_toString stall) (String.isEmpty_iff.mp hempty)
      simp [fields, trial, count?_toString, stallField, Except.map, ScaleFactor.ofText, hlabel,
        hstall, hne]

theorem trim_of_mem_fields {t : Trial} (h : Writable t) {s : String} (hs : s ∈ fields t) :
    Text.trim s = s := by
  simp only [fields, List.mem_append, List.mem_cons, List.not_mem_nil, or_false,
    Option.mem_toList, Option.map_eq_some_iff] at hs
  rcases hs with (rfl | rfl | rfl | rfl) | ⟨stall, -, rfl⟩
  · exact h.engine
  · exact h.query
  · exact h.scaleFactor
  · exact trim_toString _
  · exact trim_toString stall

/-- The fields of a written trial are read back as they were. -/
theorem text?_of_written {texts : List String} (h : ∀ s ∈ texts, Text.trim s = s) :
    (texts.map Bytes.ofString).map text? = texts.map some := by
  rw [List.map_map]
  apply List.map_congr_left
  intro s hs
  have htrim := h s hs
  rw [Function.comp_apply, Csv.text?_ofString, htrim]

theorem reads_written {trials : List Trial} (h : ∀ t ∈ trials, Writable t) :
    Reads ((trials.map fields).map (List.map Bytes.ofString)) trials := by
  induction trials with
  | nil => exact .nil
  | cons t trials ih =>
      have ht := h t List.mem_cons_self
      have hrest := ih fun u hu ↦ h u (List.mem_cons_of_mem t hu)
      exact .row (text?_of_written fun s hs ↦ trim_of_mem_fields ht hs) (trial_fields ht 0) hrest

end Timings
end QueryBench
