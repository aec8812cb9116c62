import Mathlib.Tactic.IntervalCases
import QueryBench.Proofs.Chart.Consistency
import QueryBench.Proofs.Text.Utf8

/-!
# What is read as a color

A color is written as a hash and six hexadecimal digits.  More than that is read: each channel is
taken for a number of its own, whose sign may stand in the place of its first digit.  No other
text is a color, and figures are valid with exactly what is read.

Reading a color by its bytes comes to the same: only ASCII is cut, so no cut goes through a
character.
-/

namespace QueryBench

/-! ## Cutting bytes -/

namespace Bytes

/-- The text between two places, if neither is beyond the end or inside a character. -/
def slice? (b : Bytes) (i j : ℕ) : Option String :=
  if i ≤ j ∧ j ≤ b.length then toString? ((b.take j).drop i) else none

theorem ofChars_eq_map {cs : List Char} (h : ∀ c ∈ cs, c.toNat < 0x80) :
    ofChars cs = cs.map fun c ↦ UInt8.ofNat c.toNat := by
  induction cs with
  | nil => rfl
  | cons c cs ih =>
      rw [List.forall_mem_cons] at h
      rw [ofChars_cons, utf8EncodeChar_of_ascii h.1, ih h.2]
      rfl

/-- Bytes are ASCII exactly if the characters are. -/
theorem ofChars_ascii_iff {cs : List Char} :
    ((ofChars cs).all fun b ↦ b.toNat < 0x80) = true ↔ ∀ c ∈ cs, c.toNat < 0x80 := by
  simp only [List.all_eq_true, decide_eq_true_eq]
  constructor
  · intro h c hc
    by_contra hlarge
    obtain ⟨b, hb⟩ := List.exists_mem_of_ne_nil _ (String.utf8EncodeChar_ne_nil (c := c))
    have hupper := le_of_mem_utf8EncodeChar hlarge hb
    have hlower := h b (List.mem_flatMap.mpr ⟨c, hc, hb⟩)
    omega
  · intro h b hb
    rw [ofChars_eq_map h, List.mem_map] at hb
    obtain ⟨c, hc, rfl⟩ := hb
    have := h c hc
    rw [UInt8.toNat_ofNat', Nat.mod_eq_of_lt (by omega)]
    exact this

/-- ASCII is cut between characters. -/
theorem slice?_ofChars {cs : List Char} (h : ∀ c ∈ cs, c.toNat < 0x80) {i j : ℕ}
    (hij : i ≤ j) (hj : j ≤ cs.length) :
    slice? (ofChars cs) i j = some (String.ofList ((cs.take j).drop i)) := by
  have hpart : ∀ c ∈ (cs.take j).drop i, c.toNat < 0x80 :=
    fun c hc ↦ h c (List.mem_of_mem_take (List.mem_of_mem_drop hc))
  have hlength : (ofChars cs).length = cs.length := by rw [ofChars_eq_map h, List.length_map]
  rw [slice?, if_pos ⟨hij, hlength ▸ hj⟩, toString?_eq_some_iff, ofString_ofList,
    ofChars_eq_map hpart, ofChars_eq_map h, List.map_drop, List.map_take]

end Bytes

namespace Color

/-- The hexadecimal digit of a value, as a small letter or a capital where it is a letter. -/
def IsHexDigit (c : Char) (n : ℕ) : Prop :=
  n < 16 ∧ (c = Nat.digitChar n ∨ c = (Nat.digitChar n).toUpper)

theorem hexValue?_of_isHexDigit {c : Char} {n : ℕ} (h : IsHexDigit c n) :
    Document.hexValue? c = some n := by
  obtain ⟨hlt, rfl | rfl⟩ := h <;> interval_cases n <;> rfl

theorem isHexDigit_of_hexValue? {c : Char} {n : ℕ} (h : Document.hexValue? c = some n) :
    IsHexDigit c n := by
  rw [Document.hexValue?] at h
  rw [← Char.ofNat_toNat c]
  split at h
  · rename_i hdigit
    rw [Char.isDigit, Bool.and_eq_true, decide_eq_true_iff, decide_eq_true_iff] at hdigit
    have hlow : 48 ≤ c.toNat := hdigit.1
    have hhigh : c.toNat ≤ 57 := hdigit.2
    obtain rfl : c.toNat - 48 = n := Option.some.inj h
    generalize c.toNat = m at *
    interval_cases m <;> exact ⟨by decide, by decide⟩
  · split at h
    · rename_i hsmall
      have hlow : 97 ≤ c.toNat := hsmall.1
      have hhigh : c.toNat ≤ 102 := hsmall.2
      obtain rfl : c.toNat - 97 + 10 = n := Option.some.inj h
      generalize c.toNat = m at *
      interval_cases m <;> exact ⟨by decide, by decide⟩
    · split at h
      · rename_i hcapital
        have hlow : 65 ≤ c.toNat := hcapital.1
        have hhigh : c.toNat ≤ 70 := hcapital.2
        obtain rfl : c.toNat - 65 + 10 = n := Option.some.inj h
        generalize c.toNat = m at *
        interval_cases m <;> exact ⟨by decide, by decide⟩
      · cases h

theorem hexValue?_eq_some_iff {c : Char} {n : ℕ} :
    Document.hexValue? c = some n ↔ IsHexDigit c n :=
  ⟨isHexDigit_of_hexValue?, hexValue?_of_isHexDigit⟩

theorem not_isHexDigit_plus (n : ℕ) : ¬ IsHexDigit '+' n := by
  intro h
  cases hexValue?_of_isHexDigit h

/-! ## Channels -/

/-- Two hexadecimal digits. -/
inductive IsPair : List Char → UInt8 → Prop
  | intro {a b : Char} {m n : ℕ} (ha : IsHexDigit a m) (hb : IsHexDigit b n) :
      IsPair [a, b] (UInt8.ofNat (m * 16 + n))

/-- A plus sign and a hexadecimal digit. -/
inductive IsSigned : List Char → UInt8 → Prop
  | intro {b : Char} {n : ℕ} (hb : IsHexDigit b n) : IsSigned ['+', b] (UInt8.ofNat n)

/-- What is read as a channel. -/
def IsChannel (cs : List Char) (v : UInt8) : Prop := IsPair cs v ∨ IsSigned cs v

theorem channel?_eq_some_iff {a b : Char} {v : UInt8} :
    channel? a b = some v ↔ IsChannel [a, b] v := by
  rw [channel?]
  constructor
  · intro h
    split at h
    · rename_i m n hm hn
      obtain rfl := Option.some.inj h
      have hb := hexValue?_eq_some_iff.mp hn
      split at hm
      · rename_i hplus
        subst hplus
        obtain rfl := Option.some.inj hm
        rw [Nat.zero_mul, Nat.zero_add]
        exact .inr (.intro hb)
      · exact .inl (.intro (hexValue?_eq_some_iff.mp hm) hb)
    · cases h
  · rintro (hpair | hsigned)
    · cases hpair with
      | intro ha hb =>
          have hne : a ≠ '+' := by
            rintro rfl
            exact not_isHexDigit_plus _ ha
          rw [if_neg hne, hexValue?_of_isHexDigit ha, hexValue?_of_isHexDigit hb]
    · cases hsigned with
      | intro hb =>
          rw [if_pos rfl, hexValue?_of_isHexDigit hb]
          simp

theorem IsChannel.exists_eq {cs : List Char} {v : UInt8} (h : IsChannel cs v) :
    ∃ a b, cs = [a, b] := by
  rcases h with h | h <;> cases h <;> exact ⟨_, _, rfl⟩

/-! ## Colors -/

/-- A hash and three channels, each of which stands for a value. -/
def Spells (channel : List Char → UInt8 → Prop) (s : String) (c : Color) : Prop :=
  ∃ r g b, s.toList = '#' :: (r ++ g ++ b) ∧ channel r c.red ∧ channel g c.green ∧
    channel b c.blue

theorem parse?_eq_some_iff {s : String} {c : Color} : parse? s = some c ↔ Spells IsChannel s c := by
  constructor
  · intro h
    unfold parse? at h
    split at h
    · rename_i a b c d e f hs
      split at h
      · rename_i red green blue hred hgreen hblue
        obtain rfl := Option.some.inj h
        exact ⟨[a, b], [c, d], [e, f], hs, channel?_eq_some_iff.mp hred,
          channel?_eq_some_iff.mp hgreen, channel?_eq_some_iff.mp hblue⟩
      · cases h
    · cases h
  · rintro ⟨r, g, b, hs, hr, hg, hb⟩
    obtain ⟨r₁, r₂, rfl⟩ := hr.exists_eq
    obtain ⟨g₁, g₂, rfl⟩ := hg.exists_eq
    obtain ⟨b₁, b₂, rfl⟩ := hb.exists_eq
    unfold parse?
    rw [hs]
    simp only [List.cons_append, List.nil_append]
    rw [channel?_eq_some_iff.mpr hr, channel?_eq_some_iff.mpr hg, channel?_eq_some_iff.mpr hb]

theorem parse?_ne_none_iff {s : String} : parse? s ≠ none ↔ ∃ c, Spells IsChannel s c := by
  simp only [Option.ne_none_iff_exists', parse?_eq_some_iff]

theorem isPair_iff {cs : List Char} {v : UInt8} : IsPair cs v ↔ IsChannel cs v ∧ '+' ∉ cs := by
  constructor
  · intro h
    refine ⟨.inl h, fun hmem ↦ ?_⟩
    cases h with
    | intro ha hb =>
        rcases List.mem_cons.mp hmem with rfl | hmem
        · exact not_isHexDigit_plus _ ha
        · obtain rfl := List.mem_singleton.mp hmem
          exact not_isHexDigit_plus _ hb
  · rintro ⟨hpair | hsigned, hplus⟩
    · exact hpair
    · cases hsigned
      exact absurd List.mem_cons_self hplus

/-- What is read as a color without a sign is written as one. -/
theorem spells_isPair_iff {s : String} {c : Color} :
    Spells IsPair s c ↔ parse? s = some c ∧ '+' ∉ s.toList := by
  rw [parse?_eq_some_iff]
  constructor
  · rintro ⟨r, g, b, hs, hr, hg, hb⟩
    obtain ⟨hr, hr'⟩ := isPair_iff.mp hr
    obtain ⟨hg, hg'⟩ := isPair_iff.mp hg
    obtain ⟨hb, hb'⟩ := isPair_iff.mp hb
    refine ⟨⟨r, g, b, hs, hr, hg, hb⟩, ?_⟩
    rw [hs]
    simp [hr', hg', hb']
  · rintro ⟨⟨r, g, b, hs, hr, hg, hb⟩, hplus⟩
    rw [hs] at hplus
    simp only [List.mem_cons, List.mem_append, not_or] at hplus
    obtain ⟨-, ⟨hr', hg'⟩, hb'⟩ := hplus
    exact ⟨r, g, b, hs, isPair_iff.mpr ⟨hr, hr'⟩, isPair_iff.mpr ⟨hg, hg'⟩,
      isPair_iff.mpr ⟨hb, hb'⟩⟩

/-! ## Colors in bytes -/

/-- What is read between two places of some bytes as a channel, where there is text. -/
def channelAt? (hex : Bytes) (i j : ℕ) : Option (Option UInt8) :=
  (hex.slice? i j).map fun s ↦
    match s.toList with
    | [a, b] => channel? a b
    | _ => none

/-- A color read from bytes: a hash and six ASCII bytes, cut into three channels.  Where a cut
goes through a character there is no answer at all, not even that there is no color. -/
def ofBytes? (b : Bytes) : Option (Option Color) :=
  if b.head? = some 0x23 ∧ b.tail.length = 6 ∧ (b.tail.all fun x ↦ x.toNat < 0x80) = true then
    match channelAt? b.tail 0 2, channelAt? b.tail 2 4, channelAt? b.tail 4 6 with
    | some (some red), some (some green), some (some blue) => some (some ⟨red, green, blue⟩)
    | some _, some _, some _ => some none
    | _, _, _ => none
  else some none

theorem IsHexDigit.ascii {c : Char} {n : ℕ} (h : IsHexDigit c n) : c.toNat < 0x80 := by
  obtain ⟨hlt, rfl | rfl⟩ := h <;> interval_cases n <;> decide

theorem IsChannel.ascii {cs : List Char} {v : UInt8} (h : IsChannel cs v) :
    ∀ c ∈ cs, c.toNat < 0x80 := by
  rcases h with h | h
  · cases h with
    | intro ha hb => simpa using ⟨ha.ascii, hb.ascii⟩
  · cases h with
    | intro hb => simpa using hb.ascii

theorem channelAt?_ofChars {cs : List Char} (h : ∀ c ∈ cs, c.toNat < 0x80) {i : ℕ}
    (hi : i + 2 ≤ cs.length) :
    channelAt? (Bytes.ofChars cs) i (i + 2) = some (channel? cs[i] cs[i + 1]) := by
  have hcut : (cs.take (i + 2)).drop i = [cs[i], cs[i + 1]] := by
    rw [List.drop_take, Nat.add_sub_cancel_left, List.drop_eq_getElem_cons (by omega),
      List.drop_eq_getElem_cons (by omega)]
    rfl
  rw [channelAt?, Bytes.slice?_ofChars h (Nat.le_add_right i 2) hi, hcut]
  simp

theorem head?_ofChars_cons_iff {c : Char} {cs : List Char} :
    (Bytes.ofChars (c :: cs)).head? = some 0x23 ↔ c = '#' := by
  constructor
  · intro h
    obtain ⟨rest, hrest⟩ := List.head?_eq_some_iff.mp h
    exact Bytes.utf8EncodeChar_append_inj (x := Bytes.ofChars cs) (y := rest) hrest
  · rintro rfl
    rfl

theorem tail_ofChars_hash (cs : List Char) :
    (Bytes.ofChars ('#' :: cs)).tail = Bytes.ofChars cs := rfl

/-- Reading a text and reading its bytes come to the same, and no cut fails. -/
theorem ofBytes?_ofString (s : String) : ofBytes? (Bytes.ofString s) = some (parse? s) := by
  rw [ofBytes?, Bytes.ofString_eq_ofChars]
  split
  · rename_i hguard
    obtain ⟨hhead, hlength, hascii⟩ := hguard
    cases hs : s.toList with
    | nil =>
        rw [hs] at hhead
        cases hhead
    | cons c cs =>
        rw [hs] at hhead hlength hascii
        obtain rfl := head?_ofChars_cons_iff.mp hhead
        rw [tail_ofChars_hash] at hlength hascii
        have hchars := Bytes.ofChars_ascii_iff.mp hascii
        rw [Bytes.ofChars_eq_map hchars, List.length_map] at hlength
        rw [tail_ofChars_hash, channelAt?_ofChars hchars (i := 0) (by omega),
          channelAt?_ofChars hchars (i := 2) (by omega),
          channelAt?_ofChars hchars (i := 4) (by omega), parse?, hs]
        match cs, hlength with
        | [a, b, c, d, e, f], _ =>
            simp only [List.getElem_cons_zero, List.getElem_cons_succ]
            cases channel? a b <;> cases channel? c d <;> cases channel? e f <;> rfl
  · rename_i hguard
    refine congrArg some (Eq.symm ?_)
    by_contra hcolor
    refine hguard ?_
    obtain ⟨c, r, g, b, hs, hr, hg, hb⟩ := parse?_ne_none_iff.mp hcolor
    have hascii : ∀ x ∈ r ++ g ++ b, x.toNat < 0x80 := by
      simp only [List.forall_mem_append]
      exact ⟨⟨hr.ascii, hg.ascii⟩, hb.ascii⟩
    have hlength : (r ++ g ++ b).length = 6 := by
      obtain ⟨r₁, r₂, rfl⟩ := hr.exists_eq
      obtain ⟨g₁, g₂, rfl⟩ := hg.exists_eq
      obtain ⟨b₁, b₂, rfl⟩ := hb.exists_eq
      rfl
    rw [hs]
    refine ⟨head?_ofChars_cons_iff.mpr rfl, ?_, Bytes.ofChars_ascii_iff.mpr hascii⟩
    rw [tail_ofChars_hash, Bytes.ofChars_eq_map hascii, List.length_map, hlength]

end Color

/-! ## Colors of figures -/

/-- The engines with other colors. -/
def recolored (color : EngineStyle → String) (engines : List EngineStyle) : List EngineStyle :=
  engines.map fun e ↦ { e with color := color e }

/-- The figure with other colors of its engines. -/
def LatencyFigure.recolor {α : Type} (color : EngineStyle → String) (f : LatencyFigure α) :
    LatencyFigure α :=
  { f with engines := recolored color f.engines }

/-- The figure with other colors of its engines. -/
def ThroughputFigure.recolor {α : Type} (color : EngineStyle → String) (f : ThroughputFigure α) :
    ThroughputFigure α :=
  { f with engines := recolored color f.engines }

section Figures

variable {α : Type} {color : EngineStyle → String}

theorem recolored_eq_nil_iff {engines : List EngineStyle} :
    recolored color engines = [] ↔ engines = [] :=
  List.map_eq_nil_iff

/-- The colors alone decide if engines stay without fault. -/
theorem EngineStyle.faults?_recolored_iff {engines : List EngineStyle}
    (h : faults? (α := α) [] engines = none) :
    faults? (α := α) [] (recolored color engines) = none ↔
      ∀ e ∈ recolored color engines, Color.parse? e.color ≠ none := by
  obtain ⟨-, htags, -⟩ := faults?_eq_none_iff.mp h
  have htags' : (recolored color engines).map (·.tag) = engines.map (·.tag) := by
    rw [recolored, List.map_map]
    rfl
  rw [faults?_eq_none_iff, htags']
  exact and_iff_left ⟨htags, fun _ _ ↦ List.not_mem_nil⟩

theorem EngineStyle.parse?_recolored_iff {engines : List EngineStyle} :
    (∀ e ∈ recolored color engines, Color.parse? e.color ≠ none) ↔
      ∀ e ∈ engines, ∃ c, Color.Spells Color.IsChannel (color e) c := by
  simp only [recolored, List.forall_mem_map, Color.parse?_ne_none_iff]

variable [Scalar α]

theorem LatencyFigure.fault?_recolor_iff {f : LatencyFigure α} (h : f.fault? = none) :
    (f.recolor color).fault? = none ↔
      ∀ e ∈ f.engines, ∃ c, Color.Spells Color.IsChannel (color e) c := by
  simp only [fault?, recolor, recolored_eq_nil_iff, List.findSome?_eq_none_iff,
    List.forall_mem_cons, id_eq] at h ⊢
  obtain ⟨hname, hengines, hfaults, hrest⟩ := h
  rw [← EngineStyle.parse?_recolored_iff, ← EngineStyle.faults?_recolored_iff hfaults]
  exact ⟨fun h' ↦ h'.2.2.1, fun hfaults' ↦ ⟨hname, hengines, hfaults', hrest⟩⟩

theorem ThroughputFigure.fault?_recolor_iff {f : ThroughputFigure α} (h : f.fault? = none) :
    (f.recolor color).fault? = none ↔
      ∀ e ∈ f.engines, ∃ c, Color.Spells Color.IsChannel (color e) c := by
  simp only [fault?, recolor, recolored_eq_nil_iff, List.findSome?_eq_none_iff,
    List.forall_mem_cons, id_eq] at h ⊢
  obtain ⟨hengines, -, hrest⟩ := h
  simp only [← EngineStyle.parse?_recolored_iff, ← EngineStyle.colorFault?_eq_none_iff (α := α)]
  exact ⟨fun h' ↦ h'.2.1, fun hcolors ↦ ⟨hengines, hcolors, hrest⟩⟩

/-- A color is read exactly if it is a hash and three channels, each of two hexadecimal digits or
of a plus sign and one, and stands for their values; written with digits alone are exactly those
that are read and have no sign.  Its bytes are read alike, and cut nowhere but between
characters.  A valid figure of either kind stays valid with other colors of its engines exactly
if all of them are so read. -/
theorem colors_are_read_up_to_signs {f : LatencyFigure α} (hf : f.fault? = none)
    {g : ThroughputFigure α} (hg : g.fault? = none) :
    (∀ (s : String) (c : Color), Color.parse? s = some c ↔ Color.Spells Color.IsChannel s c) ∧
    (∀ (s : String) (c : Color),
      Color.Spells Color.IsPair s c ↔ Color.parse? s = some c ∧ '+' ∉ s.toList) ∧
    (∀ s : String, Color.ofBytes? (Bytes.ofString s) = some (Color.parse? s)) ∧
    (∀ color : EngineStyle → String,
      ((f.recolor color).fault? = none ↔
        ∀ e ∈ f.engines, ∃ c, Color.Spells Color.IsChannel (color e) c) ∧
      ((g.recolor color).fault? = none ↔
        ∀ e ∈ g.engines, ∃ c, Color.Spells Color.IsChannel (color e) c)) :=
  ⟨fun _ _ ↦ Color.parse?_eq_some_iff, fun _ _ ↦ Color.spells_isPair_iff,
    Color.ofBytes?_ofString,
    fun _ ↦ ⟨LatencyFigure.fault?_recolor_iff hf, ThroughputFigure.fault?_recolor_iff hg⟩⟩

end Figures

/-- A color with signs is no color in digits; it is read, and the figures are valid with it. -/
theorem signedColor_is_read :
    LatencyFigure.fault? (α := Float) .mainFigure = none ∧
    ThroughputFigure.fault? (α := Float) .engineFigure = none ∧
    Color.parse? "#+1+2+3" = some ⟨1, 2, 3⟩ ∧
    (∀ c, ¬ Color.Spells Color.IsPair "#+1+2+3" c) ∧
    (LatencyFigure.mainFigure.recolor (α := Float) fun _ ↦ "#+1+2+3").fault? = none ∧
    (ThroughputFigure.engineFigure.recolor (α := Float) fun _ ↦ "#+1+2+3").fault? = none := by
  have hmain : LatencyFigure.fault? (α := Float) .mainFigure = none := by decide +kernel
  have hengine : ThroughputFigure.fault? (α := Float) .engineFigure = none := by decide +kernel
  obtain ⟨hread, hdigits, -, hvalid⟩ := colors_are_read_up_to_signs hmain hengine
  have hcolor : Color.parse? "#+1+2+3" = some ⟨1, 2, 3⟩ := by decide
  have hspells := (hread _ _).mp hcolor
  obtain ⟨hlatency, hthroughput⟩ := hvalid fun _ ↦ "#+1+2+3"
  refine ⟨hmain, hengine, hcolor, ?_, ?_, ?_⟩
  · intro c hc
    exact ((hdigits _ c).mp hc).2 (by decide)
  · exact hlatency.mpr fun _ _ ↦ ⟨_, hspells⟩
  · exact hthroughput.mpr fun _ _ ↦ ⟨_, hspells⟩

end QueryBench
