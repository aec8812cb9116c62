import QueryBench.Command.Basic
import QueryBench.Command.Outcome
import QueryBench.Drawing.Latency
import QueryBench.Drawing.Throughput
import QueryBench.LatencyFigure.Document
import QueryBench.QueryRules.Relabel
import QueryBench.Results.Layout
import QueryBench.ThroughputFigure.Document

/-!
# Figure commands

Both kinds of figures are made in one way: the figure is resolved, its data are
loaded and relabelled, the fastest trial of each group is selected, and the layout
is drawn into a file.  Data issues are warnings, and with the strict option a
failure once the figure has been written.
-/

namespace QueryBench

/-- The figures known by name. -/
def LatencyFigure.presets : List (String × LatencyFigure Float) :=
  [("main", .mainFigure), ("split", .splitFigure)]

def ThroughputFigure.presets : List (String × ThroughputFigure Float) :=
  [("engines", .engineFigure)]

def presetNamed {α : Type} (presets : List (String × α)) (name : String) :
    Except CommandFault α :=
  match presets.find? fun p ↦ p.1 == name with
  | some p => .ok p.2
  | none => .error (.unknownPreset name (presets.map Prod.fst))

namespace DataOptions

/-- A campaign from its argument. -/
def campaign (argument : String) : Except CommandFault Campaign :=
  let cs := argument.toList
  match cs.dropWhile (· ≠ '=') with
  | [] => .error (.campaignForm argument)
  | _ :: directory =>
      let start := cs.takeWhile (· ≠ '=')
      if start.isEmpty || directory.isEmpty then .error (.campaignPart argument)
      else .ok ⟨String.ofList start, String.ofList directory⟩

def addCampaigns (l : ResultLayout) : List String → Except CommandFault ResultLayout
  | [] => .ok l
  | argument :: rest =>
      match campaign argument with
      | .error fault => .error fault
      | .ok c => addCampaigns (l.addCampaign c) rest

def layout (o : DataOptions) : Except CommandFault ResultLayout :=
  addCampaigns (.withInkfuseCampaign o.directory) o.campaigns

end DataOptions

/-- A layout that is ready to be drawn. -/
structure LaidFigure where
  name : String
  issues : List Issue
  drawing : Except DrawingFault (List Element)

/-- What making a figure needs to know of it. -/
structure FigureJob where
  fault? : Option (FigureFault Float)
  engines : List String
  scaleFactors : List ScaleFactor
  rules : QueryRules
  lay : SelectionIndex → Except (FigureFault Float) LaidFigure

def LatencyFigure.job (f : LatencyFigure Float) : FigureJob where
  fault? := f.fault?
  engines := f.engineTags
  scaleFactors := f.scaleFactors
  rules := f.rules
  lay index := (f.layout index).map fun l ↦ ⟨l.name, l.issues, l.drawing⟩

def ThroughputFigure.job (f : ThroughputFigure Float) : FigureJob where
  fault? := f.fault?
  engines := f.neededEngines
  scaleFactors := [f.scaleFactor]
  rules := f.rules
  lay index := (f.layout index).map fun l ↦ ⟨l.name, l.issues, l.drawing⟩

namespace FigureOptions

/-- The figure that is asked for, with the rules of a rules file. -/
def resolve {α : Type} (format : Configuration.Format) (fs : FileSystem)
    (read : Configuration.Reader α) (presets : List (String × α)) (defaultPreset : String)
    (setRules : α → QueryRules → α) (o : FigureOptions) : Except CommandFault α :=
  match Configuration.loadOr format fs read (presetNamed presets (o.preset.getD defaultPreset))
      o.config with
  | .error fault => .error fault
  | .ok figure =>
      match o.rules with
      | none => .ok figure
      | some path =>
          (Configuration.load format fs (Configuration.rules .file) path).map (setRules figure)

def latency (format : Configuration.Format) (fs : FileSystem) (o : FigureOptions) :
    Except CommandFault FigureJob :=
  (o.resolve format fs (LatencyFigure.read .file) LatencyFigure.presets "main"
    fun f r ↦ { f with rules := r }).map LatencyFigure.job

def throughput (format : Configuration.Format) (fs : FileSystem) (o : FigureOptions) :
    Except CommandFault FigureJob :=
  (o.resolve format fs (ThroughputFigure.read .file) ThroughputFigure.presets "engines"
    fun f r ↦ { f with rules := r }).map ThroughputFigure.job

def strictFault? (o : FigureOptions) (count : Nat) : Option CommandFault :=
  if o.strict && decide (0 < count) then some (.dataIssues count) else none

/-- Draws a figure whose data have a number of issues. -/
def draw (fs : FileSystem) (o : FigureOptions) (warnings : List Warning) (count : Nat)
    (laid : LaidFigure) : Outcome :=
  match drawInto fs o.out laid.name laid.drawing with
  | (fs', .error fault) => .failed fs' warnings (.render fault)
  | (fs', .ok saved) =>
      { files := fs'
        output := saved.path ++ "\n"
        warnings := warnings
        drawing := some saved
        fault := o.strictFault? count }

/-- Lays a figure out with its trials, and draws it. -/
def lay (fs : FileSystem) (o : FigureOptions) (job : FigureJob) (warnings : List Warning)
    (trials : List Trial) : Outcome :=
  let relabelled := job.rules.relabel trials
  let warnings := warnings ++ relabelled.issues.map Warning.data
  match job.lay (selectAll relabelled.rows) with
  | .error fault => .failed fs warnings (.figure fault)
  | .ok laid =>
      o.draw fs (warnings ++ laid.issues.map (Warning.figure laid.name))
        (relabelled.issues.length + laid.issues.length) laid

def make (fs : FileSystem) (o : FigureOptions) (job : FigureJob) : Outcome :=
  match o.data.layout with
  | .error fault => .failed fs [] fault
  | .ok results =>
      match job.fault? with
      | some fault => .failed fs [] (.figure fault)
      | none =>
          let loaded := results.loadTrials fs o.data.maxRows job.engines job.scaleFactors
          let warnings := loaded.absent.map Warning.absentCampaign
          match loaded.outcome with
          | .error fault => .failed fs warnings (.file fault)
          | .ok trials => o.lay fs job warnings trials

end FigureOptions
end QueryBench
