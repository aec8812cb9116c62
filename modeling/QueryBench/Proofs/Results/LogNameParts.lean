import QueryBench.Proofs.Results.LogNames

/-!
# The parts of a log's name

A query may hold what looks like the end of a name, and a scale factor may begin or end with an
underscore or a dot.  Still a name can be read in one way only: ahead of its ending, the scale
factor and the underscore before it are the longest end of digits, dots and underscores, and of
what precedes them only the query has no fixed length.
-/

namespace QueryBench

/-- The letter that a mode has in names. -/
def UmbraMode.code : UmbraMode → Char
  | adaptive => 'a'
  | optimized => 'o'

theorem UmbraMode.ofCode?_code (mode : UmbraMode) : ofCode? mode.code = some mode := by
  cases mode <;> rfl

theorem UmbraMode.eq_code_of_ofCode? {c : Char} {mode : UmbraMode} (h : ofCode? c = some mode) :
    c = mode.code := by
  unfold ofCode? at h
  split at h
  · cases h
    rfl
  · cases h
    rfl
  · cases h

/-- What queries are spelled with in names, after their first letter. -/
def SpellsQuery (c : Char) : Prop := c = '_' ∨ ('a' ≤ c ∧ c ≤ 'z') ∨ ('0' ≤ c ∧ c ≤ '9')

/-- What scale factors are spelled with in names. -/
def SpellsScale (c : Char) : Prop := ('0' ≤ c ∧ c ≤ '9') ∨ c = '.' ∨ c = '_'

namespace UmbraLog

theorem isDigit_iff {c : Char} : c.isDigit = true ↔ '0' ≤ c ∧ c ≤ '9' := by
  rw [Char.isDigit, Bool.and_eq_true, decide_eq_true_iff, decide_eq_true_iff]
  rfl

theorem isQueryChar_iff {c : Char} : isQueryChar c = true ↔ SpellsQuery c := by
  simp only [isQueryChar, SpellsQuery, Bool.or_eq_true, Bool.and_eq_true, decide_eq_true_iff,
    beq_iff_eq, isDigit_iff, or_assoc]

theorem isScaleChar_iff {c : Char} : isScaleChar c = true ↔ SpellsScale c := by
  simp only [isScaleChar, SpellsScale, Bool.or_eq_true, beq_iff_eq, isDigit_iff, or_assoc]

end UmbraLog

/-- What the name of a log is put together from. -/
structure LogName where
  query : String
  mode : UmbraMode
  /-- The scale factor as it is written in names. -/
  scale : String
  query_spelled : ∃ rest, query.toList = 'q' :: rest ∧ ∀ c ∈ rest, SpellsQuery c
  scale_spelled : ∀ c ∈ scale.toList, SpellsScale c

namespace LogName

theorem isScaleChar_of_mem (n : LogName) {c : Char} (hc : c ∈ n.scale.toList) :
    UmbraLog.isScaleChar c = true :=
  UmbraLog.isScaleChar_iff.mpr (n.scale_spelled c hc)

def text (n : LogName) : String :=
  n.query ++ "_" ++ String.singleton n.mode.code ++ "_res_" ++ n.scale ++ ".csv"

/-- What the name tells; its underscores stand for dots in the scale factor. -/
def log (n : LogName) : UmbraLog :=
  ⟨n.query, n.mode, ⟨String.ofList (UmbraLog.labelOf n.scale.toList)⟩⟩

theorem toList_text (n : LogName) :
    n.text.toList = n.query.toList ++ ['_', n.mode.code, '_', 'r', 'e', 's', '_'] ++
      n.scale.toList ++ ".csv".toList := by
  simp [text]

/-- The scale factor and the underscore before it are cut off by the letter that precedes them. -/
theorem span_reversed (n : LogName) (front : List Char) :
    let body := n.scale.toList.reverse ++ '_' :: 's' :: front
    body.takeWhile UmbraLog.isScaleChar = n.scale.toList.reverse ++ ['_'] ∧
      body.dropWhile UmbraLog.isScaleChar = 's' :: front := by
  have hscale : ∀ c ∈ n.scale.toList.reverse, UmbraLog.isScaleChar c = true := by
    intro c hc
    exact n.isScaleChar_of_mem (List.mem_reverse.mp hc)
  dsimp only
  rw [List.takeWhile_append_of_pos hscale, List.dropWhile_append_of_pos hscale]
  exact ⟨rfl, rfl⟩

/-- The name without its ending, backwards. -/
def reversedBody (n : LogName) : List Char :=
  n.scale.toList.reverse ++
    '_' :: 's' :: 'e' :: 'r' :: '_' :: n.mode.code :: '_' :: n.query.toList.reverse

theorem reverse_toList_text (n : LogName) :
    n.text.toList.reverse = 'v' :: 's' :: 'c' :: '.' :: n.reversedBody := by
  rw [toList_text, reversedBody]
  simp

theorem ofReversed?_reversedBody (n : LogName) :
    UmbraLog.ofReversed? n.reversedBody = some n.log := by
  obtain ⟨rest, hquery, hrest⟩ := n.query_spelled
  obtain ⟨hscale, hfront⟩ :=
    n.span_reversed ('e' :: 'r' :: '_' :: n.mode.code :: '_' :: n.query.toList.reverse)
  have hend : (n.scale.toList.reverse ++ ['_']).reverse = '_' :: n.scale.toList := by simp
  have hall : rest.all UmbraLog.isQueryChar = true := by
    rw [List.all_eq_true]
    exact fun c hc ↦ UmbraLog.isQueryChar_iff.mpr (hrest c hc)
  have hback : String.ofList ('q' :: rest) = n.query := by rw [← hquery, String.ofList_toList]
  rw [reversedBody, UmbraLog.ofReversed?, hscale, hfront, hend]
  simp only [UmbraMode.ofCode?_code, List.reverse_reverse, hquery]
  rw [if_pos hall, hback, log, ← UmbraLog.ofText_labelOf fun _ ↦ n.isScaleChar_of_mem]
  rfl

theorem ofName?_text (n : LogName) : UmbraLog.ofName? n.text = some n.log := by
  unfold UmbraLog.ofName?
  rw [reverse_toList_text]
  exact n.ofReversed?_reversedBody

theorem exists_of_spells {name : String} {log : UmbraLog} (h : UmbraLog.Spells name log) :
    ∃ n : LogName, name = n.text ∧ log = n.log := by
  cases h with
  | @mk rest sf code mode hquery hcode hscale =>
      obtain rfl := UmbraMode.eq_code_of_ofCode? hcode
      refine ⟨⟨String.ofList ('q' :: rest), mode, String.ofList sf, ⟨rest, ?_, ?_⟩, ?_⟩, ?_, ?_⟩
      · exact String.toList_ofList
      · exact fun c hc ↦ UmbraLog.isQueryChar_iff.mp (hquery c hc)
      · rw [String.toList_ofList]
        exact fun c hc ↦ UmbraLog.isScaleChar_iff.mp (hscale c hc)
      · apply String.toList_injective
        rw [toList_text]
        simp
      · rw [UmbraLog.ofText_labelOf hscale]
        simp [log]

theorem text_injective : Function.Injective text := by
  intro n n' htext
  have hlog : n.log = n'.log := by
    apply Option.some.inj
    rw [← ofName?_text, htext, ofName?_text]
  obtain ⟨query, mode, scale, _, _⟩ := n
  obtain ⟨query', mode', scale', _, _⟩ := n'
  obtain ⟨rfl, rfl, -⟩ := UmbraLog.mk.inj hlog
  have hlists := congrArg String.toList htext
  rw [toList_text, toList_text, List.append_left_inj, List.append_right_inj] at hlists
  obtain rfl := String.toList_injective hlists
  rfl

end LogName

/-- A name is that of a log exactly if it is put together from a query, a mode and a scale factor
as they are spelled in names.  It tells these very parts, and no other parts make that name. -/
theorem UmbraLog.names_are_unambiguous :
    (∀ name log, ofName? name = some log ↔ ∃ n : LogName, name = n.text ∧ log = n.log) ∧
    (∀ n n' : LogName, n.text = n'.text → n = n') ∧
    ∀ n : LogName, ofName? n.text = some n.log := by
  refine ⟨?_, fun _ _ htext ↦ LogName.text_injective htext, LogName.ofName?_text⟩
  intro name log
  constructor
  · intro h
    exact LogName.exists_of_spells (spells_of_ofName? h)
  · rintro ⟨n, rfl, rfl⟩
    exact n.ofName?_text

/-- A query that holds the end of another name, and a scale factor between underscores. -/
def nestedName : LogName where
  query := "q1_a_res_1"
  mode := .optimized
  scale := "_0_.1"
  query_spelled := by
    refine ⟨"1_a_res_1".toList, rfl, fun c hc ↦ UmbraLog.isQueryChar_iff.mp ?_⟩
    exact List.all_eq_true.mp (by decide) c hc
  scale_spelled c hc := UmbraLog.isScaleChar_iff.mp (List.all_eq_true.mp (by decide) c hc)

theorem nestedName_is_unambiguous :
    nestedName.text = "q1_a_res_1_o_res__0_.1.csv" ∧
    UmbraLog.ofName? "q1_a_res_1_o_res__0_.1.csv" =
      some ⟨"q1_a_res_1", .optimized, ⟨".0..1"⟩⟩ ∧
    ∀ n : LogName, n.text = "q1_a_res_1_o_res__0_.1.csv" → n = nestedName := by
  have htext : nestedName.text = "q1_a_res_1_o_res__0_.1.csv" := by decide +kernel
  obtain ⟨-, hunique, hreads⟩ := UmbraLog.names_are_unambiguous
  refine ⟨htext, ?_, fun n hn ↦ hunique n nestedName (hn.trans htext.symm)⟩
  rw [← htext, hreads]
  decide +kernel

end QueryBench
