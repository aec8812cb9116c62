import QueryBench.Proofs.Results.LogNameParts
import QueryBench.Proofs.Results.LogTimes
import QueryBench.Proofs.Text.Lines
import QueryBench.Proofs.Text.Occurrences

/-!
# Marks in the lines of logs

A line of a log may hold the words that mark its times more than once.  The time of execution
follows the first execution mark, and that of compilation the last compilation mark behind it.
Each is the longest run of digits and dots there, and the line is read exactly if both are
numerals.
-/

namespace QueryBench
namespace UmbraLog

open Binary64

/-! ## Runs of digits and dots -/

/-- What times are spelled with. -/
def SpellsTime (c : Char) : Prop := ('0' ≤ c ∧ c ≤ '9') ∨ c = '.'

theorem isTimeChar_iff {c : Char} : isTimeChar c = true ↔ SpellsTime c := by
  rw [isTimeChar, SpellsTime, Bool.or_eq_true, isDigit_iff, beq_iff_eq]

/-- The longest front of a text that is spelled like a time. -/
structure IsTimeAt (text run : List Char) : Prop where
  front : run <+: text
  spelled : ∀ c ∈ run, SpellsTime c
  longest : ∀ run', run' <+: text → (∀ c ∈ run', SpellsTime c) → run'.length ≤ run.length

variable {text run : List Char}

theorem isTimeAt_takeWhile (text : List Char) : IsTimeAt text (text.takeWhile isTimeChar) where
  front := List.takeWhile_prefix _
  spelled _ hc := isTimeChar_iff.mp (List.mem_takeWhile_imp hc)
  longest run' hfront hspelled := by
    obtain ⟨rest, rfl⟩ := hfront
    rw [List.takeWhile_append_of_pos fun c hc ↦ isTimeChar_iff.mpr (hspelled c hc),
      List.length_append]
    exact Nat.le_add_right _ _

theorem IsTimeAt.eq_takeWhile (h : IsTimeAt text run) : run = text.takeWhile isTimeChar := by
  have hother := isTimeAt_takeWhile text
  have hle := hother.longest run h.front h.spelled
  have hge := h.longest _ hother.front hother.spelled
  exact List.IsPrefix.eq_of_length (List.prefix_of_prefix_length_le h.front hother.front hle)
    (Nat.le_antisymm hle hge)

/-- A run is a numeral, and this is the number nearest to what it denotes. -/
def ReadsAs (run : List Char) (x : Float) : Prop :=
  ∃ d, Numeral.Spells run d ∧ x = d.toFloat ∧ Holds x .positive (rounded d.toRat)

theorem exists_parse?_iff (h : ∀ c ∈ run, isTimeChar c = true) {x : Float} :
    (∃ n, Numeral.parse? run = some n ∧ x = n.toFloat) ↔ ReadsAs run x := by
  constructor
  · rintro ⟨n, hn, rfl⟩
    obtain ⟨d, rfl⟩ := finite_of_isTimeChar hn h
    have hspells := Numeral.parse?_eq_finite_iff.mp hn
    exact ⟨d, hspells, rfl, (holds_time hspells h).1⟩
  · rintro ⟨d, hspells, rfl, -⟩
    exact ⟨.finite d, Numeral.parse?_eq_finite_iff.mpr hspells, rfl⟩

/-! ## Marks -/

theorem followsLast_dropWhile_iff (text rest : List Char) :
    Text.FollowsLast compilationMark (text.dropWhile isTimeChar) rest ↔
      Text.FollowsLast compilationMark text rest := by
  induction text with
  | nil => rfl
  | cons c text ih =>
      cases hc : isTimeChar c with
      | false => rw [List.dropWhile_cons_of_neg (by simp [hc])]
      | true =>
          rw [List.dropWhile_cons_of_pos hc, ih]
          -- The mark begins with a letter, so it does not begin here.
          have hno : ∀ rest, c :: text ≠ compilationMark ++ rest := by
            intro rest htext
            obtain rfl : c = 'c' := (List.cons.inj htext).1
            exact absurd hc (by decide)
          by_cases hmark : compilationMark <:+: text
          · exact (Text.followsLast_cons_iff hmark).symm
          · rw [Text.followsLast_cons_iff_of_not hmark]
            refine iff_of_false ?_ (hno rest)
            rintro ⟨front, htext, -⟩
            exact hmark ⟨front, rest, htext.symm⟩

/-- A line tells the seconds of execution behind its first execution mark, and the seconds of
compilation behind the last compilation mark that follows. -/
inductive TellsSeconds (line : List Char) (x y : Float) : Prop
  | intro {rest rest' execution compilation : List Char}
      (hmark : Text.FollowsFirst executionMark line rest)
      (hmark' : Text.FollowsLast compilationMark rest rest')
      (hexecution : IsTimeAt rest execution) (hcompilation : IsTimeAt rest' compilation)
      (hx : ReadsAs execution x) (hy : ReadsAs compilation y) : TellsSeconds line x y

variable {line : List Char}

theorem times?_eq_some_iff {execution compilation : List Char} :
    times? line = some (execution, compilation) ↔
      ∃ rest rest', Text.FollowsFirst executionMark line rest ∧
        Text.FollowsLast compilationMark rest rest' ∧
        IsTimeAt rest execution ∧ IsTimeAt rest' compilation := by
  constructor
  · intro h
    rw [times?] at h
    split at h
    · cases h
    · rename_i rest hafter
      split at h
      · cases h
      · rename_i rest' hlast
        cases h
        have hmark' := Text.afterLast?_eq_some_iff.mp hlast
        exact ⟨rest, rest', Text.after?_eq_some_iff.mp hafter,
          (followsLast_dropWhile_iff rest rest').mp hmark', isTimeAt_takeWhile rest,
          isTimeAt_takeWhile rest'⟩
  · rintro ⟨rest, rest', hmark, hmark', hexecution, hcompilation⟩
    have hlast :=
      Text.afterLast?_eq_some_iff.mpr ((followsLast_dropWhile_iff rest rest').mpr hmark')
    rw [times?, Text.after?_eq_some_iff.mpr hmark]
    dsimp only
    rw [hlast, hexecution.eq_takeWhile, hcompilation.eq_takeWhile]

theorem seconds?_eq_some_iff (hfeed : '\n' ∉ line) {x y : Float} :
    seconds? line = some (x, y) ↔ TellsSeconds line x y := by
  have hline : (line.splitOn '\n').findSome? times? = times? line := by
    rw [List.splitOn_eq_singleton hfeed, List.findSome?_singleton]
  constructor
  · intro h
    obtain ⟨execution, compilation, n, m, htimes, hn, hm, rfl, rfl⟩ := seconds?_eq_some h
    rw [hline] at htimes
    obtain ⟨hspelled, hspelled'⟩ := isTimeChar_of_times? htimes
    obtain ⟨rest, rest', hmark, hmark', hexecution, hcompilation⟩ := times?_eq_some_iff.mp htimes
    exact .intro hmark hmark' hexecution hcompilation
      ((exists_parse?_iff hspelled).mp ⟨n, hn, rfl⟩)
      ((exists_parse?_iff hspelled').mp ⟨m, hm, rfl⟩)
  · rintro ⟨hmark, hmark', hexecution, hcompilation, hx, hy⟩
    have htimes := times?_eq_some_iff.mpr ⟨_, _, hmark, hmark', hexecution, hcompilation⟩
    obtain ⟨hspelled, hspelled'⟩ := isTimeChar_of_times? htimes
    obtain ⟨n, hn, rfl⟩ := (exists_parse?_iff hspelled).mpr hx
    obtain ⟨m, hm, rfl⟩ := (exists_parse?_iff hspelled').mpr hy
    rw [seconds?, hline, htimes]
    dsimp only
    rw [hn, hm]

theorem seconds?_ne_none_iff (hfeed : '\n' ∉ line) :
    seconds? line ≠ none ↔ ∃ x y, TellsSeconds line x y := by
  simp only [← seconds?_eq_some_iff hfeed, Option.ne_none_iff_exists', Prod.exists]

/-! ## Logs -/

variable {log : UmbraLog} {lines : List (List Char)}

/-- A line is blank, or it tells seconds. -/
def IsReadable (line : List Char) : Prop :=
  line.all Text.isBlank = true ∨ ∃ x y, TellsSeconds line x y

/-- The `n`-th line, counted from one, is the first that is not readable. -/
def FirstUnread (lines : List (List Char)) (n : ℕ) : Prop :=
  ∃ front line back, lines = front ++ line :: back ∧ n = front.length + 1 ∧
    ¬ IsReadable line ∧ ∀ l ∈ front, IsReadable l

/-- A trial has the times that a line tells. -/
def HasTimesOf (log : UmbraLog) (line : List Char) (t : Trial) : Prop :=
  ∃ x y, TellsSeconds line x y ∧ t = log.trial x y

theorem reports_iff (hfeed : '\n' ∉ line) {t : Trial} :
    log.Reports line t ↔ log.HasTimesOf line t := by
  simp only [Reports, HasTimesOf, seconds?_eq_some_iff hfeed]

theorem tells_iff (hlines : ∀ l ∈ lines, '\n' ∉ l) {trials : List Trial} :
    log.Tells lines trials ↔
      List.Forall₂ log.HasTimesOf (lines.filter fun l ↦ !l.all Text.isBlank) trials := by
  have hvisible : ∀ l ∈ lines.filter fun l ↦ !l.all Text.isBlank, '\n' ∉ l :=
    fun l hl ↦ hlines l (List.mem_of_mem_filter hl)
  rw [Tells]
  constructor
  · intro h
    exact ((List.forall₂_and_left _ _).mpr ⟨hvisible, h⟩).imp fun l t ht ↦
      (reports_iff ht.1).mp ht.2
  · intro h
    exact ((List.forall₂_and_left _ _).mpr ⟨hvisible, h⟩).imp fun l t ht ↦
      (reports_iff ht.1).mpr ht.2

theorem stopsAt_iff (hlines : ∀ l ∈ lines, '\n' ∉ l) {before : ℕ} :
    StopsAt lines before ↔ FirstUnread lines (before + 1) := by
  have hreadable : ∀ l ∈ lines, (l.all Text.isBlank = true ∨ seconds? l ≠ none) ↔ IsReadable l := by
    intro l hl
    rw [IsReadable, seconds?_ne_none_iff (hlines l hl)]
  have hunread : ∀ l ∈ lines,
      (l.all Text.isBlank = false ∧ seconds? l = none) ↔ ¬ IsReadable l := by
    intro l hl
    rw [← hreadable l hl, not_or, Bool.not_eq_true, not_not]
  constructor
  · rintro ⟨line, hline, hblank, hnone, hbefore⟩
    obtain ⟨hlt, rfl⟩ := List.getElem?_eq_some_iff.mp hline
    refine ⟨lines.take before, lines[before], lines.drop (before + 1), ?_, ?_, ?_, ?_⟩
    · rw [List.getElem_cons_drop, List.take_append_drop]
    · rw [List.length_take, Nat.min_eq_left hlt.le]
    · exact (hunread _ (List.getElem_mem hlt)).mp ⟨hblank, hnone⟩
    · exact fun l hl ↦ (hreadable l (List.mem_of_mem_take hl)).mp (hbefore l hl)
  · rintro ⟨front, line, back, rfl, hn, hline, hfront⟩
    obtain rfl := Nat.succ.inj hn
    obtain ⟨hblank, hnone⟩ := (hunread line (by simp)).mpr hline
    refine ⟨line, by simp, hblank, hnone, fun l hl ↦ ?_⟩
    rw [List.take_left] at hl
    exact (hreadable l (List.mem_append_left _ hl)).mpr (hfront l hl)

theorem trialsOf_eq_ok_iff {source text : String} {trials : List Trial} :
    log.trialsOf source text = .ok trials ↔ log.Tells (Text.lines text.toList) trials := by
  rw [← trialsFrom_eq_ok_iff (n := 1)]
  exact mapError_eq_ok_iff

theorem trialsOf_eq_error_iff {source text : String} {fault : FileFault} :
    log.trialsOf source text = .error fault ↔
      ∃ before, StopsAt (Text.lines text.toList) before ∧
        fault = ⟨source, .logLine (1 + before)⟩ := by
  rw [trialsOf, mapError_eq_error_iff]
  simp only [UmbraLog.trials, trialsFrom_eq_error_iff]
  constructor
  · rintro ⟨_, ⟨before, hstops, rfl⟩, rfl⟩
    exact ⟨before, hstops, rfl⟩
  · rintro ⟨before, hstops, rfl⟩
    exact ⟨_, ⟨before, hstops, rfl⟩, rfl⟩

/-- A line without line feeds tells two numbers exactly if they are the numerals behind its marks.
A log is read exactly if each of its lines is blank or tells seconds, and has a trial for each of
the latter, in order.  Otherwise the number of the first other line is reported. -/
theorem logs_are_read_by_marks (log : UmbraLog) :
    (∀ line x y, '\n' ∉ line → (seconds? line = some (x, y) ↔ TellsSeconds line x y)) ∧
    ∀ source text, ∃ lines, Text.BreaksInto text.toList lines ∧
      ((∃ trials, log.trialsOf source text = .ok trials) ↔ ∀ l ∈ lines, IsReadable l) ∧
      (∀ trials, log.trialsOf source text = .ok trials ↔
        List.Forall₂ log.HasTimesOf (lines.filter fun l ↦ !l.all Text.isBlank) trials) ∧
      ∀ fault, log.trialsOf source text = .error fault ↔
        ∃ n, FirstUnread lines n ∧ fault = ⟨source, .logLine n⟩ := by
  refine ⟨fun line x y hfeed ↦ seconds?_eq_some_iff hfeed, fun source text ↦ ?_⟩
  have hbreaks := Text.breaksInto_lines text.toList
  have hfeeds := hbreaks.notMem_feed
  have hok : ∀ trials, log.trialsOf source text = .ok trials ↔ List.Forall₂ log.HasTimesOf
      ((Text.lines text.toList).filter fun l ↦ !l.all Text.isBlank) trials :=
    fun trials ↦ trialsOf_eq_ok_iff.trans (tells_iff hfeeds)
  have herror : ∀ fault, log.trialsOf source text = .error fault ↔
      ∃ n, FirstUnread (Text.lines text.toList) n ∧ fault = ⟨source, .logLine n⟩ := by
    intro fault
    rw [trialsOf_eq_error_iff]
    constructor
    · rintro ⟨before, hstops, rfl⟩
      exact ⟨before + 1, (stopsAt_iff hfeeds).mp hstops, by rw [Nat.add_comm]⟩
    · rintro ⟨n, hunread, rfl⟩
      obtain ⟨before, rfl⟩ : ∃ before, n = before + 1 := by
        obtain ⟨front, -, -, -, rfl, -⟩ := hunread
        exact ⟨front.length, rfl⟩
      exact ⟨before, (stopsAt_iff hfeeds).mpr hunread, by rw [Nat.add_comm]⟩
  refine ⟨_, hbreaks, ⟨?_, fun hreadable ↦ ?_⟩, hok, herror⟩
  · rintro ⟨trials, htrials⟩ l hl
    cases hblank : l.all Text.isBlank with
    | true => exact .inl hblank
    | false =>
        have hmem : l ∈ (Text.lines text.toList).filter fun l ↦ !l.all Text.isBlank :=
          List.mem_filter.mpr ⟨hl, by rw [hblank]; rfl⟩
        obtain ⟨k, hk, rfl⟩ := List.mem_iff_getElem.mp hmem
        have htold := (hok trials).mp htrials
        obtain ⟨x, y, htells, -⟩ := htold.get hk (htold.length_eq ▸ hk)
        exact .inr ⟨x, y, htells⟩
  · cases htrials : log.trialsOf source text with
    | ok trials => exact ⟨trials, rfl⟩
    | error fault =>
        obtain ⟨n, ⟨front, line, back, hlines, -, hline, -⟩, -⟩ := (herror fault).mp htrials
        exact absurd (hreadable line (by rw [hlines]; simp)) hline

/-- A line with both marks repeated. -/
def repeatedMarks : String :=
  "q1 execution: (0.5 s) execution: (9) compilation: ( compilation: (0.25 s)"

/-- A time with two dots. -/
def dottedTime : String := "execution: (1.2.3) compilation: (1)"

/-- Two blank lines stand between the two. -/
def markedLog : String := repeatedMarks ++ "\r\n \n\n" ++ dottedTime ++ "\n"

theorem markedLog_stops_at_fourth_line :
    TellsSeconds repeatedMarks.toList 0.5 0.25 ∧
      sampleName.trialsOf "q1.csv" markedLog = .error ⟨"q1.csv", .logLine 4⟩ ∧
      ∃ lines, Text.BreaksInto markedLog.toList lines ∧ FirstUnread lines 4 := by
  obtain ⟨hline, hlog⟩ := logs_are_read_by_marks sampleName
  have hseconds : seconds? repeatedMarks.toList = some (0.5, 0.25) := by decide +kernel
  have hlines : Text.lines markedLog.toList =
      [repeatedMarks.toList, [' '], [], dottedTime.toList] := by
    decide +kernel
  have hstops : sampleName.trialsOf "q1.csv" markedLog = .error ⟨"q1.csv", .logLine 4⟩ := by
    rw [trialsOf_eq_error_iff, hlines]
    have hblank : ∀ l ∈ [[' '], []], l.all Text.isBlank = true := by decide
    refine ⟨3, ⟨dottedTime.toList, rfl, by decide +kernel, by decide +kernel, ?_⟩, rfl⟩
    intro l hl
    rcases List.mem_cons.mp hl with rfl | hl
    · exact .inr (by rw [hseconds]; exact Option.some_ne_none _)
    · exact .inl (hblank l hl)
  obtain ⟨lines, hbreaks, -, -, herror⟩ := hlog "q1.csv" markedLog
  obtain ⟨n, hunread, hfault⟩ := (herror _).mp hstops
  cases hfault
  exact ⟨(hline _ _ _ (by decide +kernel)).mp hseconds, hstops, lines, hbreaks, hunread⟩

end UmbraLog
end QueryBench
