import QueryBench.Selection.Basic
import QueryBench.Proofs.Grouping

/-!
# The fastest trial of a group

The one pass over all trials finds for every group what a search for that group
alone finds: the first of its trials of least latency.
-/

namespace QueryBench

/-- The first of the trials of least latency. -/
def IsFirstFastest (trials : List Trial) (t : Trial) : Prop :=
  ∃ before after, trials = before ++ t :: after ∧
    (∀ u ∈ before, t.reading.latencyMs < u.reading.latencyMs) ∧
      ∀ u ∈ after, t.reading.latencyMs ≤ u.reading.latencyMs

namespace IsFirstFastest

theorem singleton (t : Trial) : IsFirstFastest [t] t := ⟨[], [], rfl, by simp, by simp⟩

theorem mem {trials : List Trial} {t : Trial} (h : IsFirstFastest trials t) : t ∈ trials := by
  obtain ⟨before, after, rfl, -, -⟩ := h
  simp

/-- There is only one first of the fastest. -/
theorem unique {trials : List Trial} {t u : Trial} (ht : IsFirstFastest trials t)
    (hu : IsFirstFastest trials u) : t = u := by
  obtain ⟨before, after, rfl, hbefore, hafter⟩ := ht
  obtain ⟨before', after', heq, hbefore', hafter'⟩ := hu
  rcases List.append_eq_append_iff.mp heq with ⟨middle, rfl, hrest⟩ | ⟨middle, rfl, hrest⟩
  · cases middle with
    | nil => exact (List.cons.inj hrest).1
    | cons v middle =>
        obtain ⟨rfl, rfl⟩ := List.cons.inj hrest
        have hlt := hbefore' t (by simp)
        have hle := hafter u (by simp)
        exact absurd hlt (UInt64.not_lt.mpr hle)
  · cases middle with
    | nil => exact (List.cons.inj hrest).1.symm
    | cons v middle =>
        obtain ⟨rfl, rfl⟩ := List.cons.inj hrest
        have hlt := hbefore u (by simp)
        have hle := hafter' t (by simp)
        exact absurd hlt (UInt64.not_lt.mpr hle)

theorem le {trials : List Trial} {t u : Trial} (h : IsFirstFastest trials t) (hu : u ∈ trials) :
    t.reading.latencyMs ≤ u.reading.latencyMs := by
  obtain ⟨before, after, rfl, hbefore, hafter⟩ := h
  rcases List.mem_append.mp hu with hu | hu
  · exact UInt64.le_of_lt (hbefore u hu)
  · rcases List.mem_cons.mp hu with rfl | hu
    · exact UInt64.le_refl _
    · exact hafter u hu

/-- More trials at the end: theirs takes over only if it is strictly faster. -/
theorem append {trials more : List Trial} {t u : Trial} (ht : IsFirstFastest trials t)
    (hu : IsFirstFastest more u) : IsFirstFastest (trials ++ more) (Selection.faster t u) := by
  unfold Selection.faster
  split
  · rename_i hfaster
    obtain ⟨before, after, rfl, hbefore, hafter⟩ := hu
    refine ⟨trials ++ before, after, by simp, ?_, hafter⟩
    intro v hv
    rcases List.mem_append.mp hv with hv | hv
    · exact UInt64.lt_of_lt_of_le hfaster (ht.le hv)
    · exact hbefore v hv
  · rename_i hslower
    obtain ⟨before, after, rfl, hbefore, hafter⟩ := ht
    refine ⟨before, after ++ more, by simp, hbefore, ?_⟩
    intro v hv
    rcases List.mem_append.mp hv with hv | hv
    · exact hafter v hv
    · exact UInt64.le_trans (UInt64.not_lt.mp hslower) (hu.le hv)

theorem foldl {trials : List Trial} {t : Trial} (h : IsFirstFastest trials t)
    (rest : List Trial) : IsFirstFastest (trials ++ rest) (rest.foldl Selection.faster t) := by
  induction rest generalizing trials t with
  | nil => simpa using h
  | cons u rest ih => simpa using ih (h.append (singleton u))

end IsFirstFastest

/-! ## Selections -/

theorem foldl_add (t : Trial) (n : Nat) (rest : List Trial) :
    rest.foldl (fun s u ↦ some (Selection.add u s)) (some ⟨t, n⟩) =
      some ⟨rest.foldl Selection.faster t, rest.length + n⟩ := by
  induction rest generalizing t n with
  | nil => simp
  | cons u rest ih =>
      rw [List.foldl_cons, Selection.add, ih, List.foldl_cons, List.length_cons]
      have hcount : rest.length + (n + 1) = rest.length + 1 + n := by omega
      rw [hcount]

/-- The pass over all trials agrees with the search for one group. -/
theorem getElem?_selectAll_eq (trials : List Trial) (g : Group) :
    (selectAll trials)[g]? = select trials g := by
  unfold selectAll select
  rw [getElem?_foldl_alter Selection.add]
  cases trials.filter fun t ↦ t.group = g with
  | nil => simp
  | cons t rest =>
      simp only [Std.ExtTreeMap.getElem?_empty, List.foldl_cons, Selection.add]
      exact foldl_add t 1 rest

theorem select_eq_none_iff (trials : List Trial) (g : Group) :
    select trials g = none ↔ trials.filter (fun t ↦ t.group = g) = [] := by
  unfold select
  split <;> simp_all

/-- What a selection tells of its group. -/
theorem select_spec {trials : List Trial} {g : Group} {s : Selection}
    (h : select trials g = some s) :
    IsFirstFastest (trials.filter fun t ↦ t.group = g) s.trial ∧
      s.trials = (trials.filter fun t ↦ t.group = g).length := by
  unfold select at h
  split at h
  · cases h
  · rename_i t rest hfilter
    cases h
    rw [hfilter]
    exact ⟨(IsFirstFastest.singleton t).foldl rest, rfl⟩

/-! ## Selections in their input -/

/-- A selection stands for a group of some trials: it shows a row of theirs, ahead of
which every row of the group is slower and behind which none is faster, and counts the
rows of the group. -/
def Selection.Represents (s : Selection) (trials : List Trial) (g : Group) : Prop :=
  (∃ before after, trials = before ++ s.trial :: after ∧ s.trial.group = g ∧
    (∀ u ∈ before, u.group = g → s.trial.reading.latencyMs < u.reading.latencyMs) ∧
      ∀ u ∈ after, u.group = g → s.trial.reading.latencyMs ≤ u.reading.latencyMs) ∧
    s.trials = trials.countP fun u ↦ u.group = g

theorem isFirstFastest_filter_iff {trials : List Trial} {g : Group} {t : Trial} :
    IsFirstFastest (trials.filter fun u ↦ u.group = g) t ↔
      ∃ before after, trials = before ++ t :: after ∧ t.group = g ∧
        (∀ u ∈ before, u.group = g → t.reading.latencyMs < u.reading.latencyMs) ∧
          ∀ u ∈ after, u.group = g → t.reading.latencyMs ≤ u.reading.latencyMs := by
  constructor
  · rintro ⟨before, after, hfilter, hbefore, hafter⟩
    obtain ⟨front, back, rfl, rfl, hback⟩ := List.filter_eq_append_iff.mp hfilter
    obtain ⟨skipped, rest, rfl, hskipped, ht, rfl⟩ := List.filter_eq_cons_iff.mp hback
    refine ⟨front ++ skipped, rest, by simp, by simpa using ht, ?_, ?_⟩
    · intro u hu hgroup
      rcases List.mem_append.mp hu with hu | hu
      · exact hbefore u (List.mem_filter.mpr ⟨hu, by simpa using hgroup⟩)
      · exact absurd (by simpa using hgroup) (hskipped u hu)
    · intro u hu hgroup
      exact hafter u (List.mem_filter.mpr ⟨hu, by simpa using hgroup⟩)
  · rintro ⟨before, after, rfl, hgroup, hbefore, hafter⟩
    refine ⟨before.filter fun u ↦ u.group = g, after.filter fun u ↦ u.group = g, ?_, ?_, ?_⟩
    · simp [hgroup]
    · intro u hu
      obtain ⟨hmem, hu⟩ := List.mem_filter.mp hu
      exact hbefore u hmem (by simpa using hu)
    · intro u hu
      obtain ⟨hmem, hu⟩ := List.mem_filter.mp hu
      exact hafter u hmem (by simpa using hu)

theorem select_eq_some_iff_isFirstFastest {trials : List Trial} {g : Group} {s : Selection} :
    select trials g = some s ↔ IsFirstFastest (trials.filter fun t ↦ t.group = g) s.trial ∧
      s.trials = (trials.filter fun t ↦ t.group = g).length := by
  constructor
  · exact select_spec
  · rintro ⟨hfastest, hcount⟩
    cases hselect : select trials g with
    | none =>
        rw [select_eq_none_iff] at hselect
        rw [hselect] at hfastest
        cases hfastest.mem
    | some s' =>
        obtain ⟨hfastest', hcount'⟩ := select_spec hselect
        obtain ⟨trial, count⟩ := s
        obtain ⟨trial', count'⟩ := s'
        obtain rfl := hfastest.unique hfastest'
        dsimp only at hcount hcount'
        rw [hcount, hcount']

theorem select_eq_some_iff {trials : List Trial} {g : Group} {s : Selection} :
    select trials g = some s ↔ s.Represents trials g := by
  rw [Selection.Represents, ← isFirstFastest_filter_iff, List.countP_eq_length_filter]
  exact select_eq_some_iff_isFirstFastest

theorem mem_selectAll_iff {trials : List Trial} {g : Group} :
    g ∈ selectAll trials ↔ ∃ t ∈ trials, t.group = g := by
  rw [Std.ExtTreeMap.mem_iff_isSome_getElem?, getElem?_selectAll_eq, Option.isSome_iff_ne_none,
    ne_eq, select_eq_none_iff, List.filter_eq_nil_iff]
  simp

/-- Both ways of selecting show the same row of a group, the first of its fastest in input
order, and the number of its rows; groups without rows have no selection. -/
theorem selections_are_first_fastest_rows (trials : List Trial) (g : Group) :
    (g ∈ selectAll trials ↔ ∃ t ∈ trials, t.group = g) ∧
      (∀ s, (selectAll trials)[g]? = some s ↔ s.Represents trials g) ∧
        select trials g = (selectAll trials)[g]? := by
  refine ⟨mem_selectAll_iff, ?_, (getElem?_selectAll_eq trials g).symm⟩
  intro s
  rw [getElem?_selectAll_eq]
  exact select_eq_some_iff

end QueryBench
