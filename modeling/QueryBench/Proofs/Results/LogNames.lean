import QueryBench.Proofs.FileSystem.Directory
import QueryBench.Proofs.Text.Trim
import QueryBench.Results.Layout
import QueryBench.Results.UmbraLog

/-!
# Names of logs and of timing tables

A log spells its query, mode and scale factor into its name.  Such a name and the name of
the timing table that the log belongs to each name one file of a directory, never the
same one, and a table is named differently for each mode and scale factor.
-/

namespace QueryBench

namespace Text

theorem trim_eq_self_of_not_blank {cs : List Char} (h : ∀ c ∈ cs, isBlank c = false) :
    trim (String.ofList cs) = String.ofList cs := by
  rw [trim, String.toList_ofList, trimChars_eq_self]
  · intro c hc
    exact h c (List.mem_of_mem_head? hc)
  · intro c hc
    exact h c (List.mem_of_mem_getLast? hc)

theorem isBlank_eq_false {c : Char} (hlower : 0x20 < c.toNat) (hupper : c.toNat < 0x80) :
    isBlank c = false := by
  rw [isBlank, List.any_eq_false]
  intro range hrange
  simp only [blankRanges, List.mem_cons, List.not_mem_nil, or_false] at hrange
  rw [Bool.and_eq_true, decide_eq_true_iff, decide_eq_true_iff]
  rcases hrange with rfl | rfl | rfl | rfl | rfl | rfl | rfl | rfl | rfl | rfl <;>
    dsimp only <;> omega

end Text

namespace UmbraLog

theorem isDigit_bounds {c : Char} (h : c.isDigit = true) : 48 ≤ c.toNat ∧ c.toNat ≤ 57 := by
  simpa [Char.isDigit, UInt32.le_iff_toNat_le] using h

theorem isQueryChar_bounds {c : Char} (h : isQueryChar c = true) :
    48 ≤ c.toNat ∧ c.toNat ≤ 122 := by
  simp only [isQueryChar, Bool.or_eq_true, Bool.and_eq_true, decide_eq_true_eq, beq_iff_eq] at h
  rcases h with (rfl | ⟨hlower, hupper⟩) | hdigit
  · decide
  · have ha : 97 ≤ c.toNat := hlower
    have hz : c.toNat ≤ 122 := hupper
    omega
  · have := isDigit_bounds hdigit
    omega

theorem isScaleChar_cases {c : Char} (h : isScaleChar c = true) :
    (48 ≤ c.toNat ∧ c.toNat ≤ 57) ∨ c = '.' ∨ c = '_' := by
  simp only [isScaleChar, Bool.or_eq_true, beq_iff_eq] at h
  rcases h with (hdigit | rfl) | rfl
  · exact .inl (isDigit_bounds hdigit)
  · exact .inr (.inl rfl)
  · exact .inr (.inr rfl)

/-! ## What a name spells -/

/-- The characters of a scale factor's label, where a name has an underscore for a dot. -/
def labelOf (sf : List Char) : List Char := sf.map fun c ↦ if c = '_' then '.' else c

theorem mem_labelOf {sf : List Char} (hscale : ∀ c ∈ sf, isScaleChar c = true) {c : Char}
    (hc : c ∈ labelOf sf) : (48 ≤ c.toNat ∧ c.toNat ≤ 57) ∨ c = '.' := by
  obtain ⟨d, hd, rfl⟩ := List.mem_map.mp hc
  rcases isScaleChar_cases (hscale d hd) with hdigit | rfl | rfl
  · by_cases hunderscore : d = '_'
    · rw [if_pos hunderscore]
      exact .inr rfl
    · rw [if_neg hunderscore]
      exact .inl hdigit
  · exact .inr rfl
  · exact .inr rfl

theorem ofText_labelOf {sf : List Char} (hscale : ∀ c ∈ sf, isScaleChar c = true) :
    ScaleFactor.ofText (String.ofList (labelOf sf)) = ⟨String.ofList (labelOf sf)⟩ := by
  apply congrArg ScaleFactor.mk
  apply Text.trim_eq_self_of_not_blank
  intro c hc
  rcases mem_labelOf hscale hc with hdigit | rfl
  · exact Text.isBlank_eq_false (by omega) (by omega)
  · decide

/-- A name is made of the query, the code of the mode and the scale factor of a log. -/
inductive Spells : String → UmbraLog → Prop
  | mk {rest sf : List Char} {code : Char} {mode : UmbraMode}
      (hquery : ∀ c ∈ rest, isQueryChar c = true) (hcode : UmbraMode.ofCode? code = some mode)
      (hscale : ∀ c ∈ sf, isScaleChar c = true) :
      Spells
        (String.ofList ('q' :: rest ++ ['_', code, '_', 'r', 'e', 's', '_'] ++ sf ++ ".csv".toList))
        ⟨String.ofList ('q' :: rest), mode, .ofText (String.ofList (labelOf sf))⟩

theorem spells_of_ofReversed? {body : List Char} {log : UmbraLog}
    (h : ofReversed? body = some log) :
    Spells (String.ofList (body.reverse ++ ".csv".toList)) log := by
  unfold ofReversed? at h
  split at h
  · rename_i sf code query hscale hfront
    split at h
    · rename_i mode rest hcode hquery
      split at h
      · rename_i hall
        injection h with h
        subst h
        have hbody : body.reverse =
            'q' :: rest ++ ['_', code, '_', 'r', 'e', 's', '_'] ++ sf := by
          rw [← List.takeWhile_append_dropWhile (p := isScaleChar) (l := body),
            List.reverse_append, hscale, hfront]
          simp [hquery]
        rw [hbody]
        refine .mk (List.all_eq_true.mp hall) hcode ?_
        intro c hc
        have hmem : c ∈ body.takeWhile isScaleChar := by
          rw [← List.mem_reverse, hscale]
          exact List.mem_cons_of_mem '_' hc
        exact List.all_eq_true.mp List.all_takeWhile c hmem
      · cases h
    · cases h
  · cases h

theorem spells_of_ofName? {name : String} {log : UmbraLog} (h : ofName? name = some log) :
    Spells name log := by
  unfold ofName? at h
  split at h
  · rename_i body hname
    have hbody : name = String.ofList (body.reverse ++ ".csv".toList) := by
      apply String.toList_injective
      rw [String.toList_ofList, ← List.reverse_reverse name.toList, hname]
      simp
    rw [hbody]
    exact spells_of_ofReversed? h
  · cases h

namespace Spells

variable {name : String} {log : UmbraLog}

theorem head? (h : Spells name log) : name.toList.head? = some 'q' := by
  cases h
  rw [String.toList_ofList]
  rfl

theorem isName (h : Spells name log) : Path.IsName name := by
  refine .of_head? h.head? (by decide) ?_
  cases h with
  | @mk rest sf code mode hquery hcode hscale =>
      have hmiddle : '/' ∉ ['_', code, '_', 'r', 'e', 's', '_'] := by
        have hslash : '/' ≠ code := by
          rintro rfl
          cases hcode
        simp [hslash]
      rw [String.toList_ofList]
      intro hmem
      simp only [List.mem_append, List.mem_cons (a := '/') (b := 'q')] at hmem
      rcases hmem with (((hmem | hmem) | hmem) | hmem) | hmem
      · cases hmem
      · exact absurd (hquery '/' hmem) (by decide)
      · exact hmiddle hmem
      · exact absurd (hscale '/' hmem) (by decide)
      · exact absurd hmem (by decide)

theorem trim_query (h : Spells name log) : Text.trim log.query = log.query := by
  cases h with
  | mk hquery _ _ =>
      apply Text.trim_eq_self_of_not_blank
      intro c hc
      rcases List.mem_cons.mp hc with rfl | hc
      · decide
      · have := isQueryChar_bounds (hquery c hc)
        exact Text.isBlank_eq_false (by omega) (by omega)

theorem label (h : Spells name log) :
    ∃ sf, (∀ c ∈ sf, isScaleChar c = true) ∧
      log.scaleFactor.label = String.ofList (labelOf sf) := by
  cases h with
  | mk _ _ hscale => exact ⟨_, hscale, congrArg ScaleFactor.label (ofText_labelOf hscale)⟩

theorem slash_notMem_label (h : Spells name log) : '/' ∉ log.scaleFactor.label.toList := by
  obtain ⟨sf, hscale, hlabel⟩ := h.label
  rw [hlabel, String.toList_ofList]
  intro hmem
  rcases mem_labelOf hscale hmem with hdigit | hdot
  · exact absurd hdigit (by decide)
  · exact absurd hdot (by decide)

theorem trim_label (h : Spells name log) :
    Text.trim log.scaleFactor.label = log.scaleFactor.label := by
  cases h
  exact Text.trim_trim _

end Spells

end UmbraLog

/-! ## Names of timing tables -/

namespace ResultLayout

theorem toList_timingFileName (engine : String) (sf : ScaleFactor) :
    (timingFileName engine sf).toList =
      "result_".toList ++ engine.toList ++ '_' :: sf.label.toList ++ ".csv".toList := by
  have hparts : timingFileName engine sf = "result_" ++ engine ++ "_" ++ sf.label ++ ".csv" := rfl
  rw [hparts]
  simp

theorem isAbsolute_timingFileName (engine : String) (sf : ScaleFactor) :
    Path.isAbsolute (timingFileName engine sf) = false := by
  rw [Path.isAbsolute, toList_timingFileName]
  rfl

theorem isName_timingFileName (mode : UmbraMode) {sf : ScaleFactor}
    (h : '/' ∉ sf.label.toList) :
    Path.IsName (timingFileName mode.engine sf) := by
  have htext := toList_timingFileName mode.engine sf
  have hhead : (timingFileName mode.engine sf).toList.head? = some 'r' := by
    rw [htext]
    rfl
  refine .of_head? hhead (by decide) ?_
  rw [htext]
  simp only [List.append_assoc, List.cons_append, List.mem_append, List.mem_cons, not_or]
  exact ⟨by decide, by cases mode <;> decide, by decide, h, by decide⟩

theorem timingFileName_injective {mode mode' : UmbraMode} {sf sf' : ScaleFactor}
    (h : timingFileName mode.engine sf = timingFileName mode'.engine sf') :
    mode = mode' ∧ sf = sf' := by
  have htext := congrArg String.toList h
  rw [toList_timingFileName, toList_timingFileName] at htext
  have hlabel : ∀ {engine : List Char},
      "result_".toList ++ engine ++ '_' :: sf.label.toList ++ ".csv".toList =
        "result_".toList ++ engine ++ '_' :: sf'.label.toList ++ ".csv".toList → sf = sf' := by
    intro engine heq
    have hlabels : sf.label.toList = sf'.label.toList := by simpa using heq
    exact congrArg ScaleFactor.mk (String.toList_injective hlabels)
  cases mode with
  | adaptive =>
      cases mode' with
      | adaptive => exact ⟨rfl, hlabel htext⟩
      | optimized => exact absurd htext (by simp [UmbraMode.engine])
  | optimized =>
      cases mode' with
      | adaptive => exact absurd htext (by simp [UmbraMode.engine])
      | optimized => exact ⟨rfl, hlabel htext⟩

end ResultLayout

theorem UmbraLog.Spells.ne_timingFileName {name : String} {log : UmbraLog}
    (h : Spells name log) (engine : String) (sf : ScaleFactor) :
    name ≠ ResultLayout.timingFileName engine sf := by
  rintro rfl
  have hhead := h.head?
  rw [ResultLayout.toList_timingFileName] at hhead
  cases hhead

end QueryBench
