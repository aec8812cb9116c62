import QueryBench.Results.CounterTable

/-!
# Where results are kept

A benchmark campaign writes one timing table for each engine and scale factor into
a directory.  Later campaigns for engines whose tags share an initial part can
have directories of their own; what they measured is added after the primary
rows.  Counter tables, one for each scale factor, stand in the primary directory.
-/

namespace QueryBench

/-- A later campaign for the engines whose tags start with `enginePrefix`. -/
structure Campaign where
  enginePrefix : String
  directory : String
deriving DecidableEq, Repr

structure ResultLayout where
  primary : String
  campaigns : List Campaign
  /-- How the names of counter tables start. -/
  counterStem : String
deriving DecidableEq, Repr

namespace ResultLayout

/-- Results in one directory. -/
def ofDirectory (primary : String) : ResultLayout :=
  ⟨primary, [], "inkfuse_bench_perf_result"⟩

def addCampaign (l : ResultLayout) (c : Campaign) : ResultLayout :=
  { l with campaigns := l.campaigns ++ [c] }

/-- Results with a further directory for the engines of one system. -/
def withInkfuseCampaign (primary : String) : ResultLayout :=
  (ofDirectory primary).addCampaign ⟨"inkfuse", Path.join primary "res_inkfuse"⟩

/-- The campaigns that have results of an engine. -/
def campaignsFor (l : ResultLayout) (engine : String) : List Campaign :=
  l.campaigns.filter fun c ↦ c.enginePrefix.toList.isPrefixOf engine.toList

def timingFileName (engine : String) (sf : ScaleFactor) : String :=
  s!"result_{engine}_{sf.label}.csv"

/-- The primary timing table of an engine at a scale factor. -/
def timingPath (l : ResultLayout) (engine : String) (sf : ScaleFactor) : String :=
  Path.join l.primary (timingFileName engine sf)

def counterPath (l : ResultLayout) (sf : ScaleFactor) : String :=
  Path.join l.primary s!"{l.counterStem}_{sf.label}.csv"

/-- A timing table, and whether the load goes on without it. -/
structure Source where
  path : String
  optional : Bool
deriving DecidableEq, Repr

/-- The timing tables of one engine at one scale factor, in the order they are
read. -/
def pairSources (l : ResultLayout) (engine : String) (sf : ScaleFactor) : List Source :=
  ⟨l.timingPath engine sf, false⟩ ::
    (l.campaignsFor engine).map fun c ↦
      ⟨Path.join c.directory (timingFileName engine sf), true⟩

/-- The timing tables of all engines at all scale factors. -/
def sources (l : ResultLayout) (engines : List String) (sfs : List ScaleFactor) :
    List Source :=
  engines.flatMap fun e ↦ sfs.flatMap fun sf ↦ l.pairSources e sf

/-- What a load reports and what it finds. -/
structure Loaded (α : Type) where
  /-- Optional tables that are not there. -/
  absent : List String
  outcome : Except FileFault (List α)

/-- Reads the tables one after the other, up to the first that fails. -/
def readAll (fs : FileSystem) (limit : Nat) : List Source → Loaded Trial
  | [] => ⟨[], .ok []⟩
  | s :: rest =>
      if s.optional && !fs.isFile s.path then
        let others := readAll fs limit rest
        { others with absent := s.path :: others.absent }
      else
        match Timings.read fs limit s.path with
        | .error fault => ⟨[], .error fault⟩
        | .ok trials =>
            let others := readAll fs limit rest
            { others with outcome := others.outcome.map (trials ++ ·) }

/-- All trials of some engines at some scale factors. -/
def loadTrials (l : ResultLayout) (fs : FileSystem) (limit : Nat) (engines : List String)
    (sfs : List ScaleFactor) : Loaded Trial :=
  readAll fs limit (l.sources engines sfs)

/-- All samples at some scale factors. -/
def loadSamples (l : ResultLayout) (fs : FileSystem) (limit : Nat) :
    List ScaleFactor → Except FileFault (List Sample)
  | [] => .ok []
  | sf :: rest =>
      let path := l.counterPath sf
      if fs.isFile path then
        match CounterTable.read fs limit path with
        | .error fault => .error fault
        | .ok samples => (l.loadSamples fs limit rest).map (samples ++ ·)
      else .error ⟨path, .noCounterTable⟩

end ResultLayout
end QueryBench
