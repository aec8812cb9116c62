import QueryBench.Proofs.Csv.Cursor

/-!
# Where records stand

A record is told with the place where the record before it ended.  Between that place and
its own first byte there can be line ends that belong to no record: those of blank lines, and
the line feed behind a carriage return that has ended a record.  So the line of the place is
the line of the first byte exactly if no line feed stands between the two.
-/

namespace QueryBench
namespace Csv

def lineFeeds (bytes : Bytes) : Nat := bytes.count lineFeed

@[simp] theorem lineFeeds_append (x y : Bytes) :
    lineFeeds (x ++ y) = lineFeeds x + lineFeeds y :=
  List.count_append

theorem lineFeeds_singleton (b : UInt8) :
    lineFeeds [b] = if b = lineFeed then 1 else 0 := by
  rw [lineFeeds, List.count_singleton]
  by_cases h : b = lineFeed
  · rw [if_pos h, if_pos (beq_iff_eq.mpr h)]
  · rw [if_neg h, if_neg (mt beq_iff_eq.mp h)]

/-! ## Records that have ended -/

/-- The phase after a byte. -/
def Phase.after (ph : Phase) (b : UInt8) : Phase :=
  match ph.move b with
  | .skip => ph
  | .push next => next
  | .turn next => next
  | .endField => fieldStart
  | .endRecord => betweenRecords

/-- The phase that some bytes lead to, and how many records end in them. -/
structure Progress where
  phase : Phase
  ended : Nat
deriving DecidableEq, Repr

namespace Progress

def start : Progress := ⟨.betweenRecords, 0⟩

def step (p : Progress) (b : UInt8) : Progress :=
  ⟨p.phase.after b, p.ended + if p.phase.move b = .endRecord then 1 else 0⟩

def run (p : Progress) (bytes : Bytes) : Progress := bytes.foldl step p

theorem run_append (p : Progress) (x y : Bytes) : p.run (x ++ y) = (p.run x).run y := by
  simp [run]

theorem ended_le_run (p : Progress) (bytes : Bytes) : p.ended ≤ (p.run bytes).ended := by
  induction bytes generalizing p with
  | nil => exact Nat.le_refl _
  | cons b bytes ih => exact Nat.le_trans (Nat.le_add_right _ _) (ih (p.step b))

end Progress

/-- The progress of a scan. -/
def Scan.progress (s : Scan) : Progress := ⟨s.phase, s.count⟩

theorem Scan.progress_step (s : Scan) (b : UInt8) : (s.step b).progress = s.progress.step b := by
  rw [step_eq_perform, Progress.step, Phase.after, show s.progress.phase = s.phase from rfl]
  cases s.phase.move b <;> rfl

/-- Some bytes end with the `k`-th record, or are none and `k` is zero. -/
inductive EndsRecords : Bytes → Nat → Prop
  | none : EndsRecords [] 0
  | last {bytes : Bytes} {b : UInt8}
      (h : (Progress.start.run bytes).phase.move b = .endRecord) :
      EndsRecords (bytes ++ [b]) ((Progress.start.run bytes).ended + 1)

theorem EndsRecords.run_eq {bytes : Bytes} {k : Nat} (h : EndsRecords bytes k) :
    Progress.start.run bytes = ⟨.betweenRecords, k⟩ := by
  cases h with
  | none => rfl
  | @last bytes b h =>
      have hstep : (Progress.start.run bytes).step b =
          ⟨.betweenRecords, (Progress.start.run bytes).ended + 1⟩ := by
        simp [Progress.step, Phase.after, h]
      rw [Progress.run_append]
      exact hstep

/-! ## Places of records -/

/-- The record that `k` others precede stands behind the bytes `before`, which end with the
record before it, and the line ends `gap`, which belong to no record. -/
structure Stands (body : Bytes) (k : Nat) (before gap : Bytes) : Prop where
  exists_first : ∃ b rest, body = before ++ gap ++ b :: rest ∧ isLineEnd b = false
  gap_ends : ∀ b ∈ gap, isLineEnd b = true
  ends : EndsRecords before k

namespace Stands

variable {body before gap before' gap' : Bytes} {k : Nat}

theorem append (h : Stands body k before gap) (more : Bytes) :
    Stands (body ++ more) k before gap := by
  obtain ⟨b, rest, hbody, hb⟩ := h.exists_first
  exact ⟨⟨b, rest ++ more, by rw [hbody, List.append_assoc, List.cons_append], hb⟩, h.gap_ends,
    h.ends⟩

theorem before_eq_of_prefix (h : Stands body k before gap) (h' : Stands body k before' gap')
    (hshorter : before <+: before') : before = before' := by
  obtain ⟨more, rfl⟩ := hshorter
  rcases List.eq_nil_or_concat more with rfl | ⟨init, b, rfl⟩
  · rw [List.append_nil]
  · -- one more record would have ended
    have hk := h.ends.run_eq
    have hk' := h'.ends
    generalize hbytes : before ++ init.concat b = bytes at hk'
    cases hk' with
    | none => simp at hbytes
    | @last bytes b' hend =>
        rw [List.concat_eq_append, ← List.append_assoc] at hbytes
        obtain ⟨rfl, -⟩ := List.append_inj' hbytes rfl
        have hle := Progress.ended_le_run (Progress.start.run before) init
        rw [← Progress.run_append, hk] at hle
        dsimp only at hle
        omega

/-- A record has one place. -/
theorem unique (h : Stands body k before gap) (h' : Stands body k before' gap') :
    before = before' ∧ gap = gap' := by
  obtain ⟨b, rest, hbody, hb⟩ := h.exists_first
  obtain ⟨b', rest', hbody', hb'⟩ := h'.exists_first
  have hshorter : before <+: body := ⟨gap ++ b :: rest, by rw [hbody, List.append_assoc]⟩
  have hshorter' : before' <+: body := ⟨gap' ++ b' :: rest', by rw [hbody', List.append_assoc]⟩
  have hbefore : before = before' := by
    rcases List.prefix_or_prefix_of_prefix hshorter hshorter' with hle | hle
    · exact h.before_eq_of_prefix h' hle
    · exact (h'.before_eq_of_prefix h hle).symm
  subst hbefore
  rw [hbody, List.append_assoc, List.append_assoc, List.append_cancel_left_eq] at hbody'
  have htake : ∀ {gap : Bytes} {b : UInt8} {rest : Bytes}, (∀ b ∈ gap, isLineEnd b = true) →
      isLineEnd b = false → (gap ++ b :: rest).takeWhile isLineEnd = gap := by
    intro gap b rest hgap hb
    rw [List.takeWhile_append_of_pos hgap, List.takeWhile_cons_of_neg (by simp [hb]),
      List.append_nil]
  refine ⟨rfl, ?_⟩
  rw [← htake h.gap_ends hb, hbody', htake h'.gap_ends hb']

/-- The line of the place is that of the first byte exactly if no line feed is between them. -/
theorem line_eq_iff (before gap : Bytes) :
    1 + lineFeeds before = 1 + lineFeeds (before ++ gap) ↔ lineFeed ∉ gap := by
  rw [lineFeeds_append, ← List.count_eq_zero, ← lineFeeds]
  omega

end Stands

/-! ## Places that a scan tells -/

/-- What a scan tells of the bytes that it has read. -/
structure Scan.Describes (s : Scan) (read : Bytes) : Prop where
  progress : s.progress = Progress.start.run read
  reached : s.reached.1 = 1 + lineFeeds read
  length : s.records.length = s.count
  /-- The open record, or what follows the last closed one. -/
  current : ∃ before gap, s.place.1 = 1 + lineFeeds before ∧
    if s.phase = .betweenRecords then
      read = before ++ gap ∧ EndsRecords before s.count ∧ ∀ b ∈ gap, isLineEnd b = true
    else Stands read s.count before gap
  closed : ∀ k r, s.records.reverse[k]? = some r →
    ∃ before gap, Stands read k before gap ∧ r.line = 1 + lineFeeds before

namespace Scan

theorem describes_start (skipped : Nat) : (start skipped).Describes [] where
  progress := rfl
  reached := rfl
  length := rfl
  current := ⟨[], [], rfl, rfl, .none, nofun⟩
  closed := nofun

namespace Describes

variable {s : Scan} {read : Bytes}

/-- A byte that is not passed over opens a record where none is open. -/
theorem stands_step (h : s.Describes read) {b : UInt8} (hmove : s.phase.move b ≠ .skip) :
    ∃ before gap, s.place.1 = 1 + lineFeeds before ∧ Stands (read ++ [b]) s.count before gap := by
  obtain ⟨before, gap, hplace, hcurrent⟩ := h.current
  refine ⟨before, gap, hplace, ?_⟩
  by_cases hphase : s.phase = .betweenRecords
  · rw [if_pos hphase] at hcurrent
    obtain ⟨hread, hends, hgap⟩ := hcurrent
    have hb : isLineEnd b = false := by
      rw [hphase, Phase.move] at hmove
      exact eq_false_of_ne_true fun hb ↦ hmove (if_pos hb)
    exact ⟨⟨b, [], by rw [hread], hb⟩, hgap, hends⟩
  · rw [if_neg hphase] at hcurrent
    exact hcurrent.append [b]

/-- Closing the open record keeps what is told of the closed ones. -/
theorem closed_concat (h : s.Describes read) {bytes : Bytes} {r : Record}
    (hr : ∃ before gap, Stands bytes s.count before gap ∧ r.line = 1 + lineFeeds before)
    (hclosed : ∀ k r, s.records.reverse[k]? = some r →
      ∃ before gap, Stands bytes k before gap ∧ r.line = 1 + lineFeeds before)
    {k : Nat} {r' : Record} (hr' : (s.records.reverse ++ [r])[k]? = some r') :
    ∃ before gap, Stands bytes k before gap ∧ r'.line = 1 + lineFeeds before := by
  have hlength : s.records.reverse.length = s.count := by rw [List.length_reverse, h.length]
  rcases Nat.lt_or_ge k s.count with hlt | hge
  · rw [List.getElem?_append_left (hlength ▸ hlt)] at hr'
    exact hclosed k r' hr'
  · rw [List.getElem?_append_right (hlength ▸ hge), hlength] at hr'
    obtain ⟨hzero, rfl⟩ := List.getElem?_eq_some_iff.mp hr'
    rw [List.length_singleton] at hzero
    have hk : k = s.count := by omega
    subst hk
    simpa using hr

theorem closed_append (h : s.Describes read) (more : Bytes) (k : Nat) (r : Record)
    (hr : s.records.reverse[k]? = some r) :
    ∃ before gap, Stands (read ++ more) k before gap ∧ r.line = 1 + lineFeeds before := by
  obtain ⟨before, gap, hstands, hline⟩ := h.closed k r hr
  exact ⟨before, gap, hstands.append more, hline⟩

/-- The record that is open after a byte that neither is passed over nor ends one. -/
theorem current_of_open (h : s.Describes read) {b : UInt8} (hmove : s.phase.move b ≠ .skip)
    {next : Phase} (hnext : next ≠ .betweenRecords) :
    ∃ before gap, s.place.1 = 1 + lineFeeds before ∧
      if next = .betweenRecords then
        read ++ [b] = before ++ gap ∧ EndsRecords before s.count ∧ ∀ b ∈ gap, isLineEnd b = true
      else Stands (read ++ [b]) s.count before gap := by
  obtain ⟨before, gap, hplace, hstands⟩ := h.stands_step hmove
  refine ⟨before, gap, hplace, ?_⟩
  rw [if_neg hnext]
  exact hstands

/-- A byte that is passed over is one more line end behind the last closed record. -/
theorem current_of_skip (h : s.Describes read) {b : UInt8} (hmove : s.phase.move b = .skip) :
    ∃ before gap, s.place.1 = 1 + lineFeeds before ∧
      if s.phase = .betweenRecords then
        read ++ [b] = before ++ gap ∧ EndsRecords before s.count ∧ ∀ b ∈ gap, isLineEnd b = true
      else Stands (read ++ [b]) s.count before gap := by
  obtain ⟨hphase, hb⟩ := Phase.move_eq_skip hmove
  obtain ⟨before, gap, hplace, hcurrent⟩ := h.current
  rw [if_pos hphase] at hcurrent
  obtain ⟨hread, hends, hgap⟩ := hcurrent
  refine ⟨before, gap ++ [b], hplace, ?_⟩
  rw [if_pos hphase]
  refine ⟨by rw [hread, List.append_assoc], hends, ?_⟩
  intro c hc
  rcases List.mem_append.mp hc with hc | hc
  · exact hgap c hc
  · rw [List.mem_singleton.mp hc]
    exact hb

theorem endsRecords (h : s.Describes read) {b : UInt8} (hmove : s.phase.move b = .endRecord) :
    EndsRecords (read ++ [b]) (s.count + 1) := by
  have hrun : Progress.start.run read = ⟨s.phase, s.count⟩ := h.progress.symm
  have hlast := @EndsRecords.last read b (by rw [hrun]; exact hmove)
  rw [hrun] at hlast
  exact hlast

theorem step (h : s.Describes read) (b : UInt8) : (s.step b).Describes (read ++ [b]) := by
  have hreached : (s.advance b).reached.1 = 1 + lineFeeds (read ++ [b]) := by
    rw [lineFeeds_append, lineFeeds_singleton, ← Nat.add_assoc, ← h.reached]
    rfl
  have hprogress : (s.step b).progress = Progress.start.run (read ++ [b]) := by
    rw [progress_step, h.progress, Progress.run_append]
    rfl
  have hclosed := h.closed_append [b]
  rw [step_eq_perform] at hprogress ⊢
  cases hmove : s.phase.move b with
  | skip =>
      rw [hmove] at hprogress
      exact ⟨hprogress, hreached, h.length, h.current_of_skip hmove, hclosed⟩
  | push next =>
      rw [hmove] at hprogress
      exact ⟨hprogress, hreached, h.length,
        h.current_of_open (by simp [hmove]) (Phase.open_of_push hmove), hclosed⟩
  | turn next =>
      rw [hmove] at hprogress
      exact ⟨hprogress, hreached, h.length,
        h.current_of_open (by simp [hmove]) (Phase.open_of_turn hmove), hclosed⟩
  | endField =>
      rw [hmove] at hprogress
      exact ⟨hprogress, hreached, h.length,
        h.current_of_open (by simp [hmove]) (by simp : Phase.fieldStart ≠ .betweenRecords), hclosed⟩
  | endRecord =>
      rw [hmove] at hprogress
      obtain ⟨before, gap, hplace, hstands⟩ := h.stands_step (b := b) (by simp [hmove])
      refine ⟨hprogress, hreached, congrArg (· + 1) h.length,
        ⟨read ++ [b], [], hreached, (List.append_nil _).symm, h.endsRecords hmove, nofun⟩, ?_⟩
      intro k r hr
      have hrecords : ((s.advance b).perform b .endRecord).records.reverse = s.records.reverse ++
          [⟨s.cursor.record, s.count, s.place.1, s.place.2⟩] := List.reverse_cons
      rw [hrecords] at hr
      exact h.closed_concat ⟨before, gap, hstands, hplace⟩ hclosed hr

theorem run (h : s.Describes read) (bytes : Bytes) :
    (s.run bytes).Describes (read ++ bytes) := by
  induction bytes generalizing s read with
  | nil =>
      rw [List.append_nil]
      exact h
  | cons b bytes ih =>
      rw [List.append_cons]
      exact ih (h.step b)

theorem finish (h : s.Describes read) {k : Nat} {r : Record} (hr : s.finish[k]? = some r) :
    ∃ before gap, Stands read k before gap ∧ r.line = 1 + lineFeeds before := by
  by_cases hphase : s.phase = .betweenRecords
  · rw [Scan.finish, hphase] at hr
    exact h.closed k r hr
  · have hfinish : s.finish = s.records.reverse ++
        [⟨s.cursor.record, s.count, s.place.1, s.place.2⟩] := by
      rw [Scan.finish]
      split
      · rename_i hbetween
        exact absurd hbetween hphase
      · exact List.reverse_cons
    rw [hfinish] at hr
    obtain ⟨before, gap, hplace, hstands⟩ := h.current
    rw [if_neg hphase] at hstands
    exact h.closed_concat ⟨before, gap, hstands, hplace⟩ h.closed hr

end Describes
end Scan

/-- Every record of a table is told with the line where the record before it ended. -/
theorem exists_stands {table : Bytes} {k : Nat} {r : Record} (h : (records table)[k]? = some r) :
    ∃ before gap, Stands (dropMark table).1 k before gap ∧ r.line = 1 + lineFeeds before := by
  have hrun := (Scan.describes_start (dropMark table).2).run (dropMark table).1
  rw [List.nil_append] at hrun
  exact hrun.finish h

end Csv
end QueryBench
