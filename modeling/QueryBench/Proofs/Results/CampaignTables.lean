import QueryBench.Results.Layout
import QueryBench.Proofs.Outcomes
import QueryBench.Proofs.Results.AppendedTables

/-!
# Trials of several campaigns

A load opens the primary table of each engine at each scale factor, and behind it the table of
every campaign that covers the engine and has such a table.  What the tables hold is joined
in the order in which they are opened, and the first table that cannot be read ends the load.
-/

namespace QueryBench

/-! ## Tables that can be read -/

namespace Timings

variable {fs : FileSystem} {limit : Nat} {path : String}

/-- The file at a path is a timing table that holds these trials, no more than the limit. -/
def Tabulates (fs : FileSystem) (limit : Nat) (path : String) (trials : List Trial) : Prop :=
  ∃ bytes, fs.read path = .ok bytes ∧
    Reads ((Csv.records bytes).map Csv.Record.fields) trials ∧ trials.length ≤ limit

theorem read_eq_ok_iff_tabulates {trials : List Trial} :
    read fs limit path = .ok trials ↔ Tabulates fs limit path trials := by
  cases hread : fs.read path with
  | error fault => simp [read, Tabulates, hread]
  | ok bytes => simp [read_eq_ok_iff hread, Tabulates, hread, parse, ofRecords_eq_ok_iff]

end Timings

open Timings (Tabulates read_eq_ok_iff_tabulates)

def Campaign.timingPath (c : Campaign) (engine : String) (sf : ScaleFactor) : String :=
  Path.join c.directory (ResultLayout.timingFileName engine sf)

/-- The campaign has results of the engines whose tags start with its prefix. -/
def Campaign.Covers (c : Campaign) (engine : String) : Prop :=
  c.enginePrefix.toList <+: engine.toList

namespace ResultLayout

instance (c : Campaign) (engine : String) : Decidable (c.Covers engine) :=
  inferInstanceAs (Decidable (c.enginePrefix.toList <+: engine.toList))

variable (l : ResultLayout) (fs : FileSystem) (limit : Nat)

/-- The campaigns that cover an engine and have a table of it, in the order in which they
were added. -/
def presentCampaigns (engine : String) (sf : ScaleFactor) : List Campaign :=
  l.campaigns.filter fun c ↦ c.Covers engine ∧ fs.isFile (c.timingPath engine sf) = true

def absentCampaigns (engine : String) (sf : ScaleFactor) : List Campaign :=
  l.campaigns.filter fun c ↦ c.Covers engine ∧ ¬ fs.isFile (c.timingPath engine sf) = true

/-- The tables that a load opens, engine by engine and scale factor by scale factor. -/
def openedTables (engines : List String) (sfs : List ScaleFactor) : List String :=
  engines.flatMap fun e ↦ sfs.flatMap fun sf ↦
    l.timingPath e sf :: (l.presentCampaigns fs e sf).map fun c ↦ c.timingPath e sf

/-- The tables that a load warns about. -/
def absentTables (engines : List String) (sfs : List ScaleFactor) : List String :=
  engines.flatMap fun e ↦ sfs.flatMap fun sf ↦
    (l.absentCampaigns fs e sf).map fun c ↦ c.timingPath e sf

/-! ## Sources that are opened -/

/-- A source that the load cannot go on without, or that is there. -/
def Source.isOpened (s : Source) : Bool := !s.optional || fs.isFile s.path

theorem Source.not_isOpened (s : Source) :
    (s.optional && !fs.isFile s.path) = !s.isOpened fs := by
  cases h : s.optional <;> simp [isOpened, h]

theorem pairSources_eq (engine : String) (sf : ScaleFactor) :
    l.pairSources engine sf = ⟨l.timingPath engine sf, false⟩ ::
      (l.campaigns.filter fun c ↦ c.Covers engine).map fun c ↦ ⟨c.timingPath engine sf, true⟩ := by
  have hcovers : l.campaignsFor engine = l.campaigns.filter fun c ↦ c.Covers engine := by
    apply List.filter_congr
    intro c _
    rw [Bool.eq_iff_iff, List.isPrefixOf_iff_prefix, decide_eq_true_iff]
    rfl
  rw [pairSources, hcovers]
  rfl

/-- The paths of some sources of one engine at one scale factor. -/
theorem map_path_pairSources (p : Source → Bool) (engine : String) (sf : ScaleFactor) :
    ((l.pairSources engine sf).filter p).map (·.path) =
      ([l.timingPath engine sf].filter fun path ↦ p ⟨path, false⟩) ++
        (l.campaigns.filter fun c ↦ c.Covers engine ∧ p ⟨c.timingPath engine sf, true⟩ = true).map
          fun c ↦ c.timingPath engine sf := by
  have hcampaigns : ((l.campaigns.filter fun c ↦ c.Covers engine).map fun c ↦
      (⟨c.timingPath engine sf, true⟩ : Source)).filter p =
        (l.campaigns.filter fun c ↦ c.Covers engine ∧ p ⟨c.timingPath engine sf, true⟩ = true).map
          fun c ↦ ⟨c.timingPath engine sf, true⟩ := by
    simp [List.filter_map, List.filter_filter, Function.comp_def, Bool.and_comm]
  rw [pairSources_eq, List.filter_cons, hcampaigns, List.filter_cons]
  cases p ⟨l.timingPath engine sf, false⟩ <;> simp

theorem opened_sources (engines : List String) (sfs : List ScaleFactor) :
    ((l.sources engines sfs).filter (·.isOpened fs)).map (·.path) =
      l.openedTables fs engines sfs := by
  simp only [sources, openedTables, List.filter_flatMap, List.map_flatMap, map_path_pairSources]
  simp [Source.isOpened, presentCampaigns]

theorem absent_sources (engines : List String) (sfs : List ScaleFactor) :
    ((l.sources engines sfs).filter (!·.isOpened fs)).map (·.path) =
      l.absentTables fs engines sfs := by
  simp only [sources, absentTables, List.filter_flatMap, List.map_flatMap, map_path_pairSources]
  simp [Source.isOpened, absentCampaigns]

/-! ## Tables in a row -/

/-- What some tables hold, joined up to the first one that cannot be read. -/
def readTables (fs : FileSystem) (limit : Nat) : List String → Except FileFault (List Trial)
  | [] => .ok []
  | path :: rest =>
      match Timings.read fs limit path with
      | .error fault => .error fault
      | .ok trials => (readTables fs limit rest).map (trials ++ ·)

variable {fs limit}

theorem readTables_takesInOrder : TakesInOrder (Timings.read fs limit) (· ++ ·) []
    (readTables fs limit) where
  nil := rfl
  cons := by
    intro path rest
    rw [readTables]
    cases Timings.read fs limit path <;> rfl

theorem foldr_append_nil (parts : List (List Trial)) :
    parts.foldr (· ++ ·) [] = parts.flatten := by
  induction parts with
  | nil => rfl
  | cons part parts ih => rw [List.foldr_cons, ih, List.flatten_cons]

theorem readTables_eq_ok_iff {paths : List String} {trials : List Trial} :
    readTables fs limit paths = .ok trials ↔
      ∃ parts, List.Forall₂ (Tabulates fs limit) paths parts ∧ trials = parts.flatten := by
  rw [readTables_takesInOrder.eq_ok_iff]
  simp only [read_eq_ok_iff_tabulates, foldr_append_nil]

/-- What the first of some tables hold comes first. -/
theorem readTables_append_eq_ok {paths more : List String} {trials : List Trial}
    (h : readTables fs limit (paths ++ more) = .ok trials) :
    ∃ first rest, readTables fs limit paths = .ok first ∧ readTables fs limit more = .ok rest ∧
      trials = first ++ rest := by
  obtain ⟨parts, hparts, rfl⟩ := readTables_eq_ok_iff.mp h
  have hfirst := List.forall₂_take paths.length hparts
  have hrest := List.forall₂_drop paths.length hparts
  rw [List.take_left] at hfirst
  rw [List.drop_left] at hrest
  refine ⟨_, _, readTables_eq_ok_iff.mpr ⟨_, hfirst, rfl⟩, readTables_eq_ok_iff.mpr ⟨_, hrest, rfl⟩,
    ?_⟩
  rw [← List.flatten_append, List.take_append_drop]

theorem exists_readTables_iff {paths : List String} :
    (∃ trials, readTables fs limit paths = .ok trials) ↔
      ∀ p ∈ paths, ∃ trials, Tabulates fs limit p trials := by
  rw [readTables_takesInOrder.exists_ok_iff]
  simp only [read_eq_ok_iff_tabulates]

theorem readTables_eq_error_iff {paths : List String} {fault : FileFault} :
    readTables fs limit paths = .error fault ↔
      ∃ before path after, paths = before ++ path :: after ∧
        (∀ p ∈ before, ∃ trials, Tabulates fs limit p trials) ∧
          Timings.read fs limit path = .error fault := by
  rw [readTables_takesInOrder.eq_error_iff]
  simp only [read_eq_ok_iff_tabulates]

/-! ## Loads -/

theorem outcome_readAll (sources : List Source) :
    (readAll fs limit sources).outcome =
      readTables fs limit ((sources.filter (·.isOpened fs)).map (·.path)) := by
  induction sources with
  | nil => rfl
  | cons s rest ih =>
      rw [readAll, Source.not_isOpened, List.filter_cons]
      cases s.isOpened fs with
      | false => exact ih
      | true =>
          simp only [Bool.not_true, Bool.false_eq_true, if_false, if_true]
          rw [List.map_cons, readTables, ← ih]
          cases Timings.read fs limit s.path <;> rfl

theorem absent_readAll {sources : List Source} {trials : List Trial}
    (h : (readAll fs limit sources).outcome = .ok trials) :
    (readAll fs limit sources).absent =
      (sources.filter (!·.isOpened fs)).map (·.path) := by
  induction sources generalizing trials with
  | nil => rfl
  | cons s rest ih =>
      rw [readAll, Source.not_isOpened] at h ⊢
      rw [List.filter_cons]
      cases hs : s.isOpened fs with
      | false =>
          rw [hs] at h
          exact congrArg (s.path :: ·) (ih h)
      | true =>
          simp only [hs, Bool.not_true, Bool.false_eq_true, if_false] at h ⊢
          cases hread : Timings.read fs limit s.path with
          | error fault =>
              rw [hread] at h
              cases h
          | ok part =>
              rw [hread] at h
              obtain ⟨others, hothers, -⟩ := map_eq_ok_iff.mp h
              exact ih hothers

variable (l : ResultLayout) (engines : List String) (sfs : List ScaleFactor)

theorem forall_openedTables {P : String → Prop} :
    (∀ p ∈ l.openedTables fs engines sfs, P p) ↔
      ∀ e ∈ engines, ∀ sf ∈ sfs, P (l.timingPath e sf) ∧
        ∀ c ∈ l.campaigns, c.Covers e → fs.isFile (c.timingPath e sf) = true →
          P (c.timingPath e sf) := by
  simp only [openedTables, presentCampaigns, List.mem_flatMap, List.mem_cons, List.mem_map,
    List.mem_filter, decide_eq_true_eq]
  constructor
  · intro h e he sf hsf
    refine ⟨h _ ⟨e, he, sf, hsf, .inl rfl⟩, ?_⟩
    intro c hc hcovers hfile
    exact h _ ⟨e, he, sf, hsf, .inr ⟨c, ⟨hc, hcovers, hfile⟩, rfl⟩⟩
  · rintro h p ⟨e, he, sf, hsf, rfl | ⟨c, ⟨hc, hcovers, hfile⟩, rfl⟩⟩
    · exact (h e he sf hsf).1
    · exact (h e he sf hsf).2 c hc hcovers hfile

theorem outcome_loadTrials : (l.loadTrials fs limit engines sfs).outcome =
    readTables fs limit (l.openedTables fs engines sfs) := by
  rw [loadTrials, outcome_readAll, opened_sources]

/-- A load joins the tables of all campaigns.  It succeeds exactly if every primary table can
be read, and every table that a campaign has of an engine it covers; it then gives the rows
of these tables in the order of engines, scale factors and campaigns, each table once, and
warns of each table that a campaign lacks.  Otherwise it gives the fault of the first table
in that order that cannot be read. -/
theorem load_joins_campaign_tables (fs : FileSystem) (limit : Nat) :
    ((∃ trials, (l.loadTrials fs limit engines sfs).outcome = .ok trials) ↔
      ∀ e ∈ engines, ∀ sf ∈ sfs, (∃ trials, Tabulates fs limit (l.timingPath e sf) trials) ∧
        ∀ c ∈ l.campaigns, c.Covers e → fs.isFile (c.timingPath e sf) = true →
          ∃ trials, Tabulates fs limit (c.timingPath e sf) trials) ∧
    (∀ absent trials, l.loadTrials fs limit engines sfs = ⟨absent, .ok trials⟩ ↔
      (∃ parts, List.Forall₂ (Tabulates fs limit) (l.openedTables fs engines sfs) parts ∧
        trials = parts.flatten) ∧ absent = l.absentTables fs engines sfs) ∧
    ∀ fault, (l.loadTrials fs limit engines sfs).outcome = .error fault ↔
      ∃ before path after, l.openedTables fs engines sfs = before ++ path :: after ∧
        (∀ p ∈ before, ∃ trials, Tabulates fs limit p trials) ∧
          Timings.read fs limit path = .error fault := by
  have houtcome : (l.loadTrials fs limit engines sfs).outcome =
      readTables fs limit (l.openedTables fs engines sfs) := l.outcome_loadTrials engines sfs
  refine ⟨?_, ?_, ?_⟩
  · rw [houtcome, exists_readTables_iff, forall_openedTables]
  · intro absent trials
    rw [← readTables_eq_ok_iff, ← houtcome]
    constructor
    · intro h
      have hok : (l.loadTrials fs limit engines sfs).outcome = .ok trials := by rw [h]
      have habsent := absent_readAll hok
      rw [absent_sources, ← loadTrials, h] at habsent
      exact ⟨hok, habsent⟩
    · rintro ⟨hok, rfl⟩
      have habsent := absent_readAll hok
      rw [absent_sources, ← loadTrials] at habsent
      cases hloaded : l.loadTrials fs limit engines sfs with
      | mk absent outcome =>
          rw [hloaded] at hok habsent
          rw [← habsent, ← hok]
  · intro fault
    rw [houtcome, readTables_eq_error_iff]

end ResultLayout
end QueryBench
