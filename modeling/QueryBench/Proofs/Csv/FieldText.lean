import QueryBench.Csv.Text
import QueryBench.Proofs.Text.Trim
import QueryBench.Proofs.Text.Utf8

/-!
# Texts of fields

A field is read exactly if its bytes are UTF-8, and then as their trimmed text: that
ASCII blanks are cut off before the bytes are decoded makes no difference.  A field
therefore has the same commas and quotes as its text, and no fewer line ends.
-/

namespace QueryBench
namespace Csv

/-- The text that a field is read as. -/
def text? (field : Bytes) : Option String := field.toString?.map Text.trim

theorem text?_eq_some_iff {field : Bytes} {t : String} :
    text? field = some t ↔ ∃ s, field = Bytes.ofString s ∧ Text.trim s = t := by
  unfold text?
  rw [Option.map_eq_some_iff]
  simp only [Bytes.toString?_eq_some_iff]

theorem text?_ofString (s : String) : text? (Bytes.ofString s) = some (Text.trim s) :=
  text?_eq_some_iff.mpr ⟨s, rfl, rfl⟩

theorem trim_of_text? {field : Bytes} {t : String} (h : text? field = some t) :
    Text.trim t = t := by
  obtain ⟨s, -, rfl⟩ := text?_eq_some_iff.mp h
  exact Text.trim_trim s

theorem trim_of_mem_texts {fields : List Bytes} {texts : List String}
    (h : fields.map text? = texts.map some) {t : String} (ht : t ∈ texts) : Text.trim t = t := by
  have hmem : some t ∈ fields.map text? := by
    rw [h]
    exact List.mem_map_of_mem ht
  obtain ⟨f, -, hf⟩ := List.mem_map.mp hmem
  exact trim_of_text? hf

/-! ## Trimming before decoding -/

theorem isAsciiBlank_ascii (b : UInt8) (h : isAsciiBlank b = true) : b.toNat < 0x80 := by
  simp only [isAsciiBlank, Bool.or_eq_true, beq_iff_eq] at h
  rcases h with (((rfl | rfl) | rfl) | rfl) | rfl <;> decide

theorem trimBytes_ofChars (cs : List Char) :
    trimBytes (Bytes.ofChars cs) =
      Bytes.ofChars (trimBy (Bytes.acceptsChar isAsciiBlank) cs) := by
  unfold trimBytes trimBy
  rw [Bytes.dropWhile_ofChars isAsciiBlank_ascii]
  have hback := Bytes.dropWhile_reverse_ofChars isAsciiBlank_ascii
    (cs.dropWhile (Bytes.acceptsChar isAsciiBlank)).reverse
  rw [List.reverse_reverse] at hback
  rw [hback, List.reverse_reverse]

theorem isBlank_of_acceptsChar (c : Char) (h : Bytes.acceptsChar isAsciiBlank c = true) :
    Text.isBlank c = true := by
  simp only [Bytes.acceptsChar, Bool.and_eq_true, decide_eq_true_eq] at h
  obtain ⟨hascii, hblank⟩ := h
  simp only [isAsciiBlank, Bool.or_eq_true, beq_iff_eq, ← UInt8.toNat_inj,
    UInt8.toNat_ofNat'] at hblank
  simp only [Text.isBlank, Text.blankRanges, List.any_cons, List.any_nil, Bool.or_eq_true,
    Bool.and_eq_true, decide_eq_true_eq]
  rw [Nat.mod_eq_of_lt (by omega)] at hblank
  rcases hblank with (((h | h) | h) | h) | h <;> rw [h] <;> decide

/-- ASCII blanks around some bytes do not decide whether they are UTF-8. -/
theorem exists_ofString_of_trimBytes {field : Bytes} {s : String}
    (h : trimBytes field = Bytes.ofString s) : ∃ t, field = Bytes.ofString t := by
  have hchars : ∀ bs : Bytes, (∀ b ∈ bs, isAsciiBlank b = true) →
      ∃ cs, bs = Bytes.ofChars cs := by
    intro bs hbs
    refine ⟨bs.map fun b ↦ Char.ofNat b.toNat, ?_⟩
    induction bs with
    | nil => rfl
    | cons b bs ih =>
        have hb := hbs b List.mem_cons_self
        have htail := ih fun b' hb' ↦ hbs b' (List.mem_cons_of_mem _ hb')
        have hencode : String.utf8EncodeChar (Char.ofNat b.toNat) = [b] := by
          simp only [isAsciiBlank, Bool.or_eq_true, beq_iff_eq] at hb
          rcases hb with (((rfl | rfl) | rfl) | rfl) | rfl <;> rfl
        rw [List.map_cons, Bytes.ofChars_cons, hencode, ← htail]
        rfl
  obtain ⟨front, back, hfront, hback, hfield⟩ := exists_eq_trimBy isAsciiBlank field
  obtain ⟨cs, hcs⟩ := hchars front hfront
  obtain ⟨ds, hds⟩ := hchars back hback
  refine ⟨String.ofList (cs ++ s.toList ++ ds), ?_⟩
  rw [Bytes.ofString_ofList, Bytes.ofChars_append, Bytes.ofChars_append, ← hcs, ← hds]
  rw [← Bytes.ofString_eq_ofChars, ← h]
  exact hfield

/-- That a field is trimmed before it is decoded makes no difference to its text. -/
theorem text?_trimBytes (field : Bytes) : text? (trimBytes field) = text? field := by
  have hutf8 : ∀ s, text? (trimBytes (Bytes.ofString s)) = text? (Bytes.ofString s) := by
    intro s
    rw [text?_ofString, Bytes.ofString_eq_ofChars, trimBytes_ofChars, ← Bytes.ofString_ofList,
      text?_ofString, Option.some.injEq]
    apply String.toList_injective
    rw [Text.toList_trim, Text.toList_trim, String.toList_ofList,
      trimBy_trimBy_of_imp isBlank_of_acceptsChar]
  cases htrimmed : (trimBytes field).toString? with
  | some s =>
      obtain ⟨t, rfl⟩ := exists_ofString_of_trimBytes (Bytes.toString?_eq_some_iff.mp htrimmed)
      exact hutf8 t
  | none =>
      cases hfield : field.toString? with
      | none => rw [text?, text?, htrimmed, hfield]
      | some t =>
          obtain rfl := Bytes.toString?_eq_some_iff.mp hfield
          exact hutf8 t

theorem textsFrom_eq_ok_iff (r : Record) (k : Nat) (fields : List Bytes) {ts : List String} :
    r.textsFrom k fields = .ok ts ↔ fields.map text? = ts.map some := by
  induction fields generalizing k ts with
  | nil => cases ts <;> simp [Record.textsFrom]
  | cons field rest ih =>
      rw [List.map_cons, Record.textsFrom, text?]
      cases field.toString? with
      | none => cases ts <;> simp
      | some s =>
          cases hrest : r.textsFrom (k + 1) rest with
          | error fault =>
              have hnone : ∀ us : List String, rest.map text? ≠ us.map some := by
                intro us hus
                rw [← ih (k + 1), hrest] at hus
                cases hus
              cases ts <;> simp [Except.map, hnone]
          | ok us =>
              have hus := (ih (k + 1)).mp hrest
              cases ts with
              | nil => simp [Except.map]
              | cons t ts =>
                  have hsome : us.map some = ts.map some ↔ us = ts :=
                    List.map_inj_right fun _ _ heq ↦ Option.some.inj heq
                  simp [Except.map, hus, hsome]

theorem texts_eq_ok_iff {r : Record} {ts : List String} :
    r.texts = .ok ts ↔ r.fields.map text? = ts.map some := by
  have htrimmed : (r.fields.map trimBytes).map text? = r.fields.map text? := by
    rw [List.map_map]
    exact List.map_congr_left fun f _ ↦ text?_trimBytes f
  rw [Record.texts, textsFrom_eq_ok_iff, htrimmed]

theorem headerTexts_eq_ok_iff {r : Record} {names : List String} :
    r.headerTexts = .ok names ↔ r.fields.map text? = names.map some :=
  textsFrom_eq_ok_iff r 0 r.fields

/-- The fields of a record are read if each of them is. -/
theorem exists_texts_iff {fields : List Bytes} :
    (∃ texts : List String, fields.map text? = texts.map some) ↔
      ∀ f ∈ fields, (text? f).isSome := by
  constructor
  · rintro ⟨texts, htexts⟩ f hf
    have hmem : text? f ∈ texts.map some := by
      rw [← htexts]
      exact List.mem_map_of_mem hf
    obtain ⟨t, -, ht⟩ := List.mem_map.mp hmem
    rw [← ht]
    rfl
  · intro h
    induction fields with
    | nil => exact ⟨[], rfl⟩
    | cons f fields ih =>
        obtain ⟨t, ht⟩ := Option.isSome_iff_exists.mp (h f List.mem_cons_self)
        obtain ⟨texts, htexts⟩ := ih fun g hg ↦ h g (List.mem_cons_of_mem f hg)
        exact ⟨t :: texts, by rw [List.map_cons, ht, htexts, List.map_cons]⟩

/-! ## Blank fields -/

theorem text?_eq_empty_iff {field : Bytes} :
    text? field = some "" ↔
      ∃ cs, field = Bytes.ofChars cs ∧ ∀ c ∈ cs, Text.isBlank c = true := by
  have htrim : ∀ s, Text.trim s = "" ↔ ∀ c ∈ s.toList, Text.isBlank c = true := by
    intro s
    rw [← trimBy_eq_nil_iff, ← Text.toList_trim, String.toList_eq_nil_iff]
  rw [text?_eq_some_iff]
  constructor
  · rintro ⟨s, rfl, hs⟩
    exact ⟨s.toList, rfl, (htrim s).mp hs⟩
  · rintro ⟨cs, rfl, hcs⟩
    refine ⟨String.ofList cs, (Bytes.ofString_ofList cs).symm, ?_⟩
    rw [htrim, String.toList_ofList]
    exact hcs

/-- A blank field and a trimmed text after it are read as that text. -/
theorem text?_append_of_blank {front : Bytes} (hfront : text? front = some "") {s : String}
    (hs : Text.trim s = s) : text? (front ++ Bytes.ofString s) = some s := by
  obtain ⟨cs, rfl, hcs⟩ := text?_eq_empty_iff.mp hfront
  rw [Bytes.ofString_eq_ofChars, ← Bytes.ofChars_append, ← Bytes.ofString_ofList, text?_ofString,
    Option.some.injEq]
  apply String.toList_injective
  rw [Text.toList_trim, String.toList_ofList, trimBy_append_left hcs, Text.toList_of_trim hs]

/-- The first comma after blanks begins the text. -/
theorem ofString_of_text?_comma {front rest : Bytes} (hfront : text? front = some "")
    {t : String} (h : text? (front ++ comma :: rest) = some t) :
    ∃ rest', Bytes.ofString t = comma :: rest' := by
  obtain ⟨cs, rfl, hcs⟩ := text?_eq_empty_iff.mp hfront
  obtain ⟨s, hs, rfl⟩ := text?_eq_some_iff.mp h
  have hprefix : cs ++ [','] <+: s.toList := by
    apply List.isPrefix_of_utf8Encode_append_eq_utf8Encode rest.toByteArray
    rw [String.utf8Encode_toList, ← Bytes.toByteArray_ofString, ← hs]
    have hencode : (cs ++ [',']).utf8Encode = (Bytes.ofChars (cs ++ [','])).toByteArray := rfl
    rw [hencode, ← List.toByteArray_append, Bytes.ofChars_append, List.append_assoc]
    rfl
  obtain ⟨ds, hds⟩ := hprefix
  have htrim : (Text.trim s).toList = trimBy Text.isBlank (',' :: ds) := by
    rw [Text.toList_trim, ← hds, List.append_assoc, trimBy_append_left hcs]
    rfl
  obtain ⟨es, hes⟩ := trimBy_cons_of_neg (p := Text.isBlank) (x := ',') (by decide) ds
  refine ⟨Bytes.ofChars es, ?_⟩
  rw [Bytes.ofString_eq_ofChars, htrim, hes, Bytes.ofChars_cons]
  rfl

/-! ## Bytes that trimming keeps -/

/-- A field has as many bytes of a visible ASCII character as its text. -/
theorem count_of_text? {field : Bytes} {t : String} (h : text? field = some t) {b : UInt8}
    (hascii : b.toNat < 0x80) (hvisible : Text.isBlank (Char.ofNat b.toNat) = false) :
    field.count b = (Bytes.ofString t).count b := by
  have hp : ∀ a : UInt8, (a == b) = true → a.toNat < 0x80 := by
    intro a ha
    rw [beq_iff_eq.mp ha]
    exact hascii
  have hblank : ∀ c, Text.isBlank c = true → Bytes.acceptsChar (· == b) c = false := by
    intro c hc
    by_contra haccepts
    rw [Bool.not_eq_false, Bytes.acceptsChar, Bool.and_eq_true, decide_eq_true_eq,
      beq_iff_eq] at haccepts
    rw [← haccepts.2, UInt8.toNat_ofNat', Nat.mod_eq_of_lt (by omega), Char.ofNat_toNat,
      hc] at hvisible
    cases hvisible
  obtain ⟨s, rfl, rfl⟩ := text?_eq_some_iff.mp h
  obtain ⟨front, back, hfront, hback, hs⟩ := exists_eq_trimBy Text.isBlank s.toList
  rw [← Text.toList_trim] at hs
  unfold List.count
  rw [Bytes.ofString_eq_ofChars, Bytes.ofString_eq_ofChars, Bytes.countP_ofChars hp,
    Bytes.countP_ofChars hp]
  have hnone : ∀ cs : List Char, (∀ c ∈ cs, Text.isBlank c = true) →
      cs.countP (Bytes.acceptsChar (· == b)) = 0 := by
    intro cs hcs
    rw [List.countP_eq_zero]
    intro c hc
    rw [hblank c (hcs c hc)]
    exact Bool.false_ne_true
  rw [hs, List.countP_append, List.countP_append, hnone front hfront, hnone back hback,
    Nat.zero_add, Nat.add_zero]

theorem count_comma_of_text? {field : Bytes} {t : String} (h : text? field = some t) :
    field.count comma = (Bytes.ofString t).count comma :=
  count_of_text? h (by decide) (by decide)

theorem count_quote_of_text? {field : Bytes} {t : String} (h : text? field = some t) :
    field.count quote = (Bytes.ofString t).count quote :=
  count_of_text? h (by decide) (by decide)

theorem comma_mem_of_text? {field : Bytes} {t : String} (h : text? field = some t)
    (hcomma : comma ∈ field) : comma ∈ Bytes.ofString t := by
  rw [← List.count_pos_iff, ← count_comma_of_text? h]
  exact List.count_pos_iff.mpr hcomma

theorem length_le_of_text? {field : Bytes} {t : String} (h : text? field = some t) :
    (Bytes.ofString t).length ≤ field.length := by
  obtain ⟨s, rfl, rfl⟩ := text?_eq_some_iff.mp h
  obtain ⟨front, back, -, -, hs⟩ := exists_eq_trimBy Text.isBlank s.toList
  rw [← Text.toList_trim] at hs
  have hlength := congrArg (fun cs ↦ (Bytes.ofChars cs).length) hs
  simp only [Bytes.ofChars_append, List.length_append, ← Bytes.ofString_eq_ofChars] at hlength
  omega

theorem isLineEnd_ascii (b : UInt8) (h : isLineEnd b = true) : b.toNat < 0x80 := by
  simp only [isLineEnd, Bool.or_eq_true, beq_iff_eq] at h
  rcases h with rfl | rfl <;> decide

/-- The line ends of a text stand in its field between the ASCII blanks. -/
theorem countP_isLineEnd_le {field : Bytes} {t : String} (h : text? field = some t) :
    (Bytes.ofString t).countP isLineEnd ≤ (trimBytes field).countP isLineEnd := by
  obtain ⟨s, rfl, rfl⟩ := text?_eq_some_iff.mp h
  rw [Bytes.ofString_eq_ofChars, Bytes.ofString_eq_ofChars, trimBytes_ofChars,
    Bytes.countP_ofChars isLineEnd_ascii, Bytes.countP_ofChars isLineEnd_ascii,
    Text.toList_trim, ← trimBy_trimBy_of_imp isBlank_of_acceptsChar]
  obtain ⟨front, back, -, -, hs⟩ := exists_eq_trimBy Text.isBlank
    (trimBy (Bytes.acceptsChar isAsciiBlank) s.toList)
  have hsublist : (trimBy Text.isBlank (trimBy (Bytes.acceptsChar isAsciiBlank) s.toList)).Sublist
      (front ++ trimBy Text.isBlank (trimBy (Bytes.acceptsChar isAsciiBlank) s.toList) ++ back) :=
    (List.sublist_append_right front _).trans (List.sublist_append_left _ back)
  rw [← hs] at hsublist
  exact hsublist.countP_le

end Csv
end QueryBench
