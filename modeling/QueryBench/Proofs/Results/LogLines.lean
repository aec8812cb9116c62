import QueryBench.Proofs.Outcomes
import QueryBench.Proofs.Text.Utf8
import QueryBench.Results.UmbraLog

/-!
# Lines of logs

A log tells one trial for each of its lines that are not blank, in the order of the
lines.  It is rejected at the first such line without times, or because it is no text.
-/

namespace QueryBench
namespace UmbraLog

variable {log : UmbraLog}

/-- A line tells the times of a trial of the log. -/
def Reports (log : UmbraLog) (line : List Char) (t : Trial) : Prop :=
  ∃ execution compilation, seconds? line = some (execution, compilation) ∧
    t = log.trial execution compilation

/-- The lines that are not blank tell these trials, one each. -/
def Tells (log : UmbraLog) (lines : List (List Char)) (trials : List Trial) : Prop :=
  List.Forall₂ log.Reports (lines.filter fun l ↦ !l.all Text.isBlank) trials

theorem tells_blank_iff {line : List Char} (h : line.all Text.isBlank = true)
    {rest : List (List Char)} {trials : List Trial} :
    log.Tells (line :: rest) trials ↔ log.Tells rest trials := by
  simp [Tells, h]

theorem tells_cons_iff {line : List Char} (h : line.all Text.isBlank = false)
    {rest : List (List Char)} {trials : List Trial} :
    log.Tells (line :: rest) trials ↔
      ∃ t ts, log.Reports line t ∧ log.Tells rest ts ∧ trials = t :: ts := by
  rw [Tells, List.filter_cons, h, Bool.not_false, if_pos rfl]
  constructor
  · intro hlines
    cases hlines with
    | cons hline hrest => exact ⟨_, _, hline, hrest, rfl⟩
  · rintro ⟨t, ts, hline, hrest, rfl⟩
    exact .cons hline hrest

/-- The lines reach one that is not blank and tells no times. -/
def StopsAt (lines : List (List Char)) (before : Nat) : Prop :=
  ∃ line, lines[before]? = some line ∧ line.all Text.isBlank = false ∧ seconds? line = none ∧
    ∀ l ∈ lines.take before, l.all Text.isBlank = true ∨ seconds? l ≠ none

theorem stopsAt_succ_iff {line : List Char} {rest : List (List Char)} {n : Nat} :
    StopsAt (line :: rest) (n + 1) ↔
      (line.all Text.isBlank = true ∨ seconds? line ≠ none) ∧ StopsAt rest n := by
  simp only [StopsAt, List.getElem?_cons_succ, List.take_succ_cons, List.forall_mem_cons]
  constructor
  · rintro ⟨l, hl, hblank, hnone, hline, hbefore⟩
    exact ⟨hline, l, hl, hblank, hnone, hbefore⟩
  · rintro ⟨hline, l, hl, hblank, hnone, hbefore⟩
    exact ⟨l, hl, hblank, hnone, hline, hbefore⟩

theorem stopsAt_zero_iff {line : List Char} {rest : List (List Char)} :
    StopsAt (line :: rest) 0 ↔ line.all Text.isBlank = false ∧ seconds? line = none := by
  simp [StopsAt]

theorem trialsFrom_eq_ok_iff {n : Nat} {lines : List (List Char)} {trials : List Trial} :
    log.trialsFrom n lines = .ok trials ↔ log.Tells lines trials := by
  induction lines generalizing n trials with
  | nil =>
      constructor
      · rintro ⟨⟩
        exact .nil
      · rintro ⟨⟩
        rfl
  | cons line rest ih =>
      rw [trialsFrom]
      cases hblank : line.all Text.isBlank with
      | true =>
          rw [if_pos rfl, ih, tells_blank_iff hblank]
      | false =>
          rw [if_neg Bool.false_ne_true, tells_cons_iff hblank]
          cases htimes : seconds? line with
          | none => simp [Reports, htimes]
          | some times =>
              obtain ⟨x, y⟩ := times
              simp only [map_eq_ok_iff, ih]
              constructor
              · rintro ⟨ts, hrest, rfl⟩
                exact ⟨_, ts, ⟨x, y, htimes, rfl⟩, hrest, rfl⟩
              · rintro ⟨t, ts, ⟨x', y', htimes', rfl⟩, hrest, rfl⟩
                cases htimes.symm.trans htimes'
                exact ⟨ts, hrest, rfl⟩

theorem trialsFrom_eq_error_iff {n : Nat} {lines : List (List Char)} {defect : Defect} :
    log.trialsFrom n lines = .error defect ↔
      ∃ before, StopsAt lines before ∧ defect = .logLine (n + before) := by
  induction lines generalizing n with
  | nil => simp [trialsFrom, StopsAt]
  | cons line rest ih =>
      -- The first line stops the log, or it is passed and the rest decides.
      have hsplit : (∃ before, StopsAt (line :: rest) before ∧ defect = .logLine (n + before)) ↔
          (line.all Text.isBlank = false ∧ seconds? line = none) ∧ defect = .logLine n ∨
            (line.all Text.isBlank = true ∨ seconds? line ≠ none) ∧
              ∃ before, StopsAt rest before ∧ defect = .logLine (n + 1 + before) := by
        constructor
        · rintro ⟨before, hstops, rfl⟩
          cases before with
          | zero => exact .inl ⟨stopsAt_zero_iff.mp hstops, rfl⟩
          | succ before =>
              obtain ⟨hline, hrest⟩ := stopsAt_succ_iff.mp hstops
              refine .inr ⟨hline, before, hrest, ?_⟩
              rw [Nat.add_assoc, Nat.add_comm 1]
        · rintro (⟨hline, rfl⟩ | ⟨hline, before, hrest, rfl⟩)
          · exact ⟨0, stopsAt_zero_iff.mpr hline, rfl⟩
          · refine ⟨before + 1, stopsAt_succ_iff.mpr ⟨hline, hrest⟩, ?_⟩
            rw [Nat.add_assoc, Nat.add_comm 1]
      rw [hsplit, ← ih, trialsFrom]
      cases hblank : line.all Text.isBlank with
      | true => simp
      | false =>
          rw [if_neg Bool.false_ne_true]
          cases htimes : seconds? line with
          | none => simp [eq_comm]
          | some times => simp [map_eq_error_iff]

/-! ## Files -/

/-- A file is text whose lines tell these trials. -/
def Converts (log : UmbraLog) (bytes : Bytes) (trials : List Trial) : Prop :=
  ∃ text, bytes = Bytes.ofString text ∧ log.Tells (Text.lines text.toList) trials

/-- A file is no text, or a line of it tells no times; lines are numbered from one. -/
inductive Rejects (bytes : Bytes) : Defect → Prop
  | notText (h : ∀ text, bytes ≠ Bytes.ofString text) : Rejects bytes .notText
  | line {text : String} {before : Nat} (htext : bytes = Bytes.ofString text)
      (hstops : StopsAt (Text.lines text.toList) before) : Rejects bytes (.logLine (1 + before))

variable {fs : FileSystem} {path : String} {bytes : Bytes}

theorem read_eq_ok_iff (h : fs.read path = .ok bytes) {trials : List Trial} :
    log.read fs path = .ok trials ↔ log.Converts bytes trials := by
  rw [read, h]
  dsimp only
  cases htext : bytes.toString? with
  | none =>
      constructor
      · rintro ⟨⟩
      · rintro ⟨text, rfl, -⟩
        rw [Bytes.toString?_ofString] at htext
        cases htext
  | some text =>
      have hbytes := Bytes.toString?_eq_some_iff.mp htext
      dsimp only
      rw [trialsOf, mapError_eq_ok_iff, UmbraLog.trials, trialsFrom_eq_ok_iff]
      constructor
      · intro htells
        exact ⟨text, hbytes, htells⟩
      · rintro ⟨text', hbytes', htells⟩
        rw [hbytes', Bytes.toString?_ofString] at htext
        cases htext
        exact htells

theorem read_eq_error (h : fs.read path = .ok bytes) {fault : FileFault}
    (hread : log.read fs path = .error fault) :
    fault.path = path ∧ Rejects bytes fault.defect := by
  rw [read, h] at hread
  dsimp only at hread
  cases htext : bytes.toString? with
  | none =>
      rw [htext] at hread
      cases hread
      refine ⟨rfl, .notText ?_⟩
      rintro text rfl
      rw [Bytes.toString?_ofString] at htext
      cases htext
  | some text =>
      rw [htext] at hread
      dsimp only [trialsOf] at hread
      cases htrials : log.trials text with
      | ok trials =>
          rw [htrials] at hread
          cases hread
      | error defect =>
          rw [htrials] at hread
          cases hread
          obtain ⟨before, hstops, rfl⟩ := trialsFrom_eq_error_iff.mp htrials
          exact ⟨rfl, .line (Bytes.toString?_eq_some_iff.mp htext) hstops⟩

end UmbraLog
end QueryBench
