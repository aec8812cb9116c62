import QueryBench.Text.Lines

/-!
# Breaking a text into lines

A text is taken apart into lines in one way only.
-/

namespace QueryBench
namespace Text

/-- A text is made of these lines.  A line feed ends a line, together with a carriage return right
before it, and the last line may have no end unless it is empty. -/
inductive BreaksInto : List Char → List (List Char) → Prop
  | nil : BreaksInto [] []
  | unended {line : List Char} (hne : line ≠ []) (hfeed : '\n' ∉ line) : BreaksInto line [line]
  | feed {line rest : List Char} {lines : List (List Char)} (hfeed : '\n' ∉ line)
      (hreturn : line.getLast? ≠ some '\r') (hrest : BreaksInto rest lines) :
      BreaksInto (line ++ '\n' :: rest) (line :: lines)
  | returnFeed {line rest : List Char} {lines : List (List Char)} (hfeed : '\n' ∉ line)
      (hrest : BreaksInto rest lines) :
      BreaksInto (line ++ '\r' :: '\n' :: rest) (line :: lines)

variable {line rest text : List Char}

theorem lines_unended (hfeed : '\n' ∉ line) (hne : line ≠ []) : lines line = [line] := by
  rw [lines, List.splitOn_eq_singleton hfeed]
  cases line with
  | nil => exact absurd rfl hne
  | cons c line => rfl

theorem linesOf_cons (line : List Char) {pieces : List (List Char)} (h : pieces ≠ []) :
    linesOf (line :: pieces) = dropReturn line :: linesOf pieces := by
  cases pieces with
  | nil => exact absurd rfl h
  | cons piece pieces => rfl

theorem lines_append_feed (hfeed : '\n' ∉ line) (rest : List Char) :
    lines (line ++ '\n' :: rest) = dropReturn line :: lines rest := by
  rw [lines, List.splitOn_append_cons_self, List.splitOn_eq_singleton hfeed,
    List.singleton_append, linesOf_cons _ (List.splitOn_ne_nil _ _), lines]

theorem dropReturn_concat (line : List Char) : dropReturn (line ++ ['\r']) = line := by
  simp [dropReturn]

theorem BreaksInto.lines_eq {ls : List (List Char)} (h : BreaksInto text ls) : lines text = ls := by
  induction h with
  | nil => rfl
  | unended hne hfeed => exact lines_unended hfeed hne
  | feed hfeed hreturn hrest ih => rw [lines_append_feed hfeed, ih, dropReturn, if_neg hreturn]
  | @returnFeed line rest ls hfeed hrest ih =>
      have hfeed' : '\n' ∉ line ++ ['\r'] := by simpa using hfeed
      rw [← List.singleton_append, ← List.append_assoc, lines_append_feed hfeed', ih,
        dropReturn_concat]

/-- A line and the feed after it can be put before what is broken into lines. -/
theorem BreaksInto.exists_cons (hfeed : '\n' ∉ line) {ls : List (List Char)}
    (h : BreaksInto rest ls) : ∃ ls', BreaksInto (line ++ '\n' :: rest) ls' := by
  by_cases hreturn : line.getLast? = some '\r'
  · obtain ⟨line', rfl⟩ := List.getLast?_eq_some_iff.mp hreturn
    rw [List.append_assoc]
    exact ⟨_, .returnFeed (fun hmem ↦ hfeed (List.mem_append_left _ hmem)) h⟩
  · exact ⟨_, .feed hfeed hreturn h⟩

theorem exists_breaksInto (text : List Char) : ∃ ls, BreaksInto text ls := by
  by_cases hmem : '\n' ∈ text
  · obtain ⟨line, rest, htext, hfeed⟩ := List.eq_append_cons_of_mem hmem
    obtain ⟨ls, hls⟩ := exists_breaksInto rest
    rw [htext]
    exact hls.exists_cons hfeed
  · by_cases hne : text = []
    · subst hne
      exact ⟨[], .nil⟩
    · exact ⟨[text], .unended hne hmem⟩
termination_by text.length
decreasing_by
  rw [htext, List.length_append, List.length_cons]
  omega

theorem breaksInto_lines (text : List Char) : BreaksInto text (lines text) := by
  obtain ⟨ls, hls⟩ := exists_breaksInto text
  rw [hls.lines_eq]
  exact hls

theorem BreaksInto.notMem_feed {ls : List (List Char)} (h : BreaksInto text ls) :
    ∀ line ∈ ls, '\n' ∉ line := by
  induction h with
  | nil => exact nofun
  | unended hne hfeed => exact List.forall_mem_singleton.mpr hfeed
  | feed hfeed hreturn hrest ih => exact List.forall_mem_cons.mpr ⟨hfeed, ih⟩
  | returnFeed hfeed hrest ih => exact List.forall_mem_cons.mpr ⟨hfeed, ih⟩

end Text
end QueryBench
