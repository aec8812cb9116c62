import QueryBench.Proofs.Results.CampaignTables
import QueryBench.Proofs.Selection.Fastest

/-!
# Selections of trials that come in two parts

What is selected from two lists of trials, one after the other, is known from the selections
of each.  Trials that are added can only make a group faster, and take over from its
selected trial only where they are strictly faster.
-/

namespace QueryBench

/-- The selection of a group from its selections in two parts: the first one's trial unless
the second one's is strictly faster. -/
def Selection.merge (a b : Selection) : Selection :=
  ⟨if a.latencyMs ≤ b.latencyMs then a.trial else b.trial, a.trials + b.trials⟩

namespace SelectionIndex

/-- Every group of the first index is in the second one, no slower, and under the same trial
unless it is strictly faster. -/
def IsImprovedBy (old new : SelectionIndex) : Prop :=
  ∀ (g : Group) (s : Selection), old[g]? = some s → ∃ s' : Selection, new[g]? = some s' ∧
    s'.latencyMs ≤ s.latencyMs ∧ (s'.trial ≠ s.trial → s'.latencyMs < s.latencyMs)

end SelectionIndex

/-! ## Merged selections -/

namespace Selection

theorem trial_merge (a b : Selection) : (a.merge b).trial = faster a.trial b.trial := by
  unfold merge faster
  split
  · rename_i hle
    exact (if_neg (UInt64.not_lt.mpr hle)).symm
  · rename_i hlt
    exact (if_pos (UInt64.not_le.mp hlt)).symm

theorem merge_cases (a b : Selection) :
    (a.merge b).trial = a.trial ∨ (a.merge b).latencyMs < a.latencyMs := by
  unfold merge
  split
  · exact .inl rfl
  · rename_i hlt
    exact .inr (UInt64.not_le.mp hlt)

end Selection

theorem select_append (trials more : List Trial) (g : Group) :
    select (trials ++ more) g = Option.merge Selection.merge (select trials g) (select more g) := by
  cases ha : select trials g with
  | none =>
      rw [select_eq_none_iff] at ha
      rw [select, List.filter_append, ha, List.nil_append, ← select]
      cases select more g <;> rfl
  | some a =>
      cases hb : select more g with
      | none =>
          rw [select_eq_none_iff] at hb
          rw [select, List.filter_append, hb, List.append_nil, ← select, ha]
          rfl
      | some b =>
          obtain ⟨hfastest, hcount⟩ := select_spec ha
          obtain ⟨hfastest', hcount'⟩ := select_spec hb
          refine select_eq_some_iff_isFirstFastest.mpr ⟨?_, ?_⟩
          · rw [List.filter_append, Selection.trial_merge]
            exact hfastest.append hfastest'
          · rw [List.filter_append, List.length_append, ← hcount, ← hcount']
            rfl

theorem getElem?_selectAll_append (trials more : List Trial) (g : Group) :
    (selectAll (trials ++ more))[g]? =
      Option.merge Selection.merge (selectAll trials)[g]? (selectAll more)[g]? := by
  rw [getElem?_selectAll_eq, getElem?_selectAll_eq, getElem?_selectAll_eq, select_append]

theorem isImprovedBy_append (trials more : List Trial) :
    (selectAll trials).IsImprovedBy (selectAll (trials ++ more)) := by
  intro g s hs
  rw [getElem?_selectAll_append, hs]
  cases (selectAll more)[g]? with
  | none => exact ⟨s, rfl, UInt64.le_refl _, fun hne ↦ absurd rfl hne⟩
  | some s' =>
      refine ⟨s.merge s', rfl, ?_⟩
      rcases s.merge_cases s' with heq | hlt
      · exact ⟨UInt64.le_of_eq (congrArg (·.reading.latencyMs) heq), fun hne ↦ absurd heq hne⟩
      · exact ⟨UInt64.le_of_lt hlt, fun _ ↦ hlt⟩

/-! ## Trials of one more campaign -/

namespace ResultLayout

theorem openedTables_addCampaign (l : ResultLayout) (c : Campaign) (fs : FileSystem)
    (engine : String) (sf : ScaleFactor) :
    ∃ more, (l.addCampaign c).openedTables fs [engine] [sf] =
      l.openedTables fs [engine] [sf] ++ more := by
  simp only [openedTables, presentCampaigns, addCampaign, timingPath, List.filter_append,
    List.map_append, List.flatMap_cons, List.flatMap_nil, List.append_nil, List.cons_append]
  exact ⟨_, rfl⟩

theorem loadTrials_addCampaign {l : ResultLayout} {c : Campaign} {fs : FileSystem} {limit : Nat}
    {engine : String} {sf : ScaleFactor} {before after : List Trial}
    (hbefore : (l.loadTrials fs limit [engine] [sf]).outcome = .ok before)
    (hafter : ((l.addCampaign c).loadTrials fs limit [engine] [sf]).outcome = .ok after) :
    ∃ added, after = before ++ added := by
  obtain ⟨more, hmore⟩ := l.openedTables_addCampaign c fs engine sf
  rw [outcome_loadTrials] at hbefore hafter
  rw [hmore] at hafter
  obtain ⟨first, added, hfirst, -, rfl⟩ := readTables_append_eq_ok hafter
  rw [hbefore] at hfirst
  rw [Except.ok.inj hfirst]
  exact ⟨added, rfl⟩

end ResultLayout

/-- Trials that come in two parts have the groups of both.  A group of one part has its
selection there; a group of both has the trial of the first part if that is no slower, and
the trial of the second one otherwise, and the trials of both are counted.  So trials that are
added, as those of one more campaign are added to the results of an engine at a scale
factor, keep every group, raise no latency, and replace a trial only by one that is strictly
faster. -/
theorem selections_of_concatenation (trials more : List Trial) :
    (∀ g : Group, (selectAll (trials ++ more))[g]? =
      Option.merge Selection.merge (selectAll trials)[g]? (selectAll more)[g]?) ∧
    (∀ g : Group, g ∈ selectAll (trials ++ more) ↔ g ∈ selectAll trials ∨ g ∈ selectAll more) ∧
    (selectAll trials).IsImprovedBy (selectAll (trials ++ more)) ∧
    ∀ (l : ResultLayout) (c : Campaign) (fs : FileSystem) (limit : Nat) (engine : String)
      (sf : ScaleFactor) (before after : List Trial),
      (l.loadTrials fs limit [engine] [sf]).outcome = .ok before →
      ((l.addCampaign c).loadTrials fs limit [engine] [sf]).outcome = .ok after →
        (selectAll before).IsImprovedBy (selectAll after) := by
  refine ⟨getElem?_selectAll_append trials more, ?_, isImprovedBy_append trials more, ?_⟩
  · intro g
    simp only [mem_selectAll_iff, List.mem_append, or_and_right, exists_or]
  · intro l c fs limit engine sf before after hbefore hafter
    obtain ⟨added, rfl⟩ := ResultLayout.loadTrials_addCampaign hbefore hafter
    exact isImprovedBy_append before added

def primaryTrials : List Trial :=
  [⟨⟨"ink", "q1", ⟨"1"⟩⟩, ⟨7, none, none⟩⟩, ⟨⟨"ink", "q3", ⟨"1"⟩⟩, ⟨9, some 2, none⟩⟩]

/-- A trial as fast as the primary one of its group, and one that is faster. -/
def addedTrials : List Trial :=
  [⟨⟨"ink", "q1", ⟨"1"⟩⟩, ⟨7, some 3, none⟩⟩, ⟨⟨"ink", "q3", ⟨"1"⟩⟩, ⟨5, none, none⟩⟩]

/-- Primary results of one engine, and those of a campaign. -/
def campaignTables : FileSystem :=
  .ofEntries []
    [(["res"], .directory),
      (["result_ink_1.csv"], .file (Bytes.ofString "ink,q1,1,7\nink,q3,1,9,2\n")),
      (["res", "result_ink_1.csv"], .file (Bytes.ofString "ink,q1,1,7,3\nink,q3,1,5\n"))]

theorem selections_of_added_campaign :
    ((ResultLayout.ofDirectory "").loadTrials campaignTables 10 ["ink"] [⟨"1"⟩]).outcome =
      .ok primaryTrials ∧
    (((ResultLayout.ofDirectory "").addCampaign ⟨"in", "res"⟩).loadTrials campaignTables 10
      ["ink"] [⟨"1"⟩]).outcome = .ok (primaryTrials ++ addedTrials) ∧
    (selectAll primaryTrials).IsImprovedBy (selectAll (primaryTrials ++ addedTrials)) ∧
    (selectAll (primaryTrials ++ addedTrials))[(⟨"ink", "q1", ⟨"1"⟩⟩ : Group)]? =
      some ⟨⟨⟨"ink", "q1", ⟨"1"⟩⟩, ⟨7, none, none⟩⟩, 2⟩ := by
  have hbefore : ((ResultLayout.ofDirectory "").loadTrials campaignTables 10 ["ink"]
      [⟨"1"⟩]).outcome = .ok primaryTrials := by rfl
  have hafter : (((ResultLayout.ofDirectory "").addCampaign ⟨"in", "res"⟩).loadTrials
      campaignTables 10 ["ink"] [⟨"1"⟩]).outcome = .ok (primaryTrials ++ addedTrials) := by rfl
  obtain ⟨hmerge, -, -, hload⟩ := selections_of_concatenation primaryTrials addedTrials
  refine ⟨hbefore, hafter, hload _ _ _ _ _ _ _ _ hbefore hafter, ?_⟩
  rw [hmerge]
  rfl

end QueryBench
