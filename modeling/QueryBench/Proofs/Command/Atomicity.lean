import QueryBench.Command.Run
import QueryBench.Proofs.Drawing.ValidFigures
import QueryBench.Proofs.Outcomes

/-!
# Failures of commands

A command that writes one file does so last.  Where its settings, its data or its figure are at
fault, nothing has been written yet, and a valid figure is always drawn.  The strict option is
looked at once the figure has been written.
-/

namespace QueryBench

/-! ## Jobs -/

/-- Every layout of the figure is drawn. -/
def FigureJob.AlwaysDrawn (job : FigureJob) : Prop :=
  ∀ index laid, job.lay index = .ok laid → ∃ elements, laid.drawing = .ok elements

/-- The report that a command computes from its files, before it writes anything. -/
inductive CostOptions.Reports (o : CostOptions) (format : Configuration.Format)
    (fs : FileSystem) : CostReport → Prop
  | intro {reference rules samples r}
      (hreference :
        Configuration.loadOr format fs Configuration.reference (.ok .tpch) o.reference =
          .ok reference)
      (hrules :
        Configuration.loadOr format fs (Configuration.rules .file) (.ok .mainFigure) o.rules =
          .ok rules)
      (hsamples : o.layout.loadSamples fs o.maxRows (o.scaleFactors.map .ofText) = .ok samples)
      (hreport : o.report reference rules (rules.relabel samples).rows = .ok r) :
      Reports o format fs r

namespace CostOptions

variable {o : CostOptions} {format : Configuration.Format} {fs : FileSystem}

end CostOptions

/-! ## Figures -/

/-- The figure that a command lays out from its files, and the collisions in its data, before it
writes anything. -/
inductive FigureOptions.Lays (o : FigureOptions) (fs : FileSystem) :
    Except CommandFault FigureJob → List Issue → LaidFigure → Prop
  | intro {job results trials laid} (hresults : o.data.layout = .ok results)
      (hvalid : job.fault? = none)
      (htrials : (results.loadTrials fs o.data.maxRows job.engines job.scaleFactors).outcome =
        .ok trials)
      (hlaid : job.lay (selectAll (job.rules.relabel trials).rows) = .ok laid) :
      Lays o fs (.ok job) (job.rules.relabel trials).issues laid

/-- The directory or the file of a figure cannot be written. -/
def CommandFault.isOfOutput : CommandFault → Bool
  | .render (.directory _ _) => true
  | .render (.unwritable _) => true
  | _ => false

namespace FigureOptions

variable {o : FigureOptions} {fs : FileSystem} {job : Except CommandFault FigureJob}

def setStrict (o : FigureOptions) (strict : Bool) : FigureOptions := { o with strict := strict }

theorem Lays.unique {collisions collisions' : List Issue} {laid laid' : LaidFigure}
    (h : o.Lays fs job collisions laid) (h' : o.Lays fs job collisions' laid') :
    collisions = collisions' ∧ laid = laid' := by
  obtain ⟨hresults, -, htrials, hlaid⟩ := h
  obtain ⟨hresults', -, htrials', hlaid'⟩ := h'
  obtain rfl := Except.ok.inj (hresults.symm.trans hresults')
  obtain rfl := Except.ok.inj (htrials.symm.trans htrials')
  exact ⟨rfl, Except.ok.inj (hlaid.symm.trans hlaid')⟩

/-- How a command ends, as it is strict or not. -/
inductive Ends (o : FigureOptions) (fs : FileSystem) (job : Except CommandFault FigureJob)
    (run : Bool → Outcome) : Prop
  | refused {warnings : List Warning} {fault : CommandFault}
      (hrun : ∀ strict, run strict = .failed fs warnings fault)
  | unwritten {fs' : FileSystem} {warnings : List Warning} {fault : CommandFault}
      (houtput : fault.isOfOutput = true)
      (hrun : ∀ strict, run strict = .failed fs' warnings fault)
  | drawn (outcome : Outcome) {collisions : List Issue} {laid : LaidFigure}
      (hlays : o.Lays fs job collisions laid)
      (hrun : ∀ strict, run strict = { outcome with
        fault := (o.setStrict strict).strictFault? (collisions.length + laid.issues.length) })

theorem Lays.exists_drawing {collisions : List Issue} {laid : LaidFigure}
    (h : o.Lays fs job collisions laid) (hjob : ∀ j, job = .ok j → j.AlwaysDrawn) :
    ∃ elements, laid.drawing = .ok elements := by
  obtain ⟨-, -, -, hlaid⟩ := h
  exact hjob _ rfl _ _ hlaid

end FigureOptions

/-- Timing tables without rows. -/
def emptyTables : FileSystem :=
  .ofEntries ["work"] [(["work", "result_inkfuse_fused_100.csv"], .file []),
    (["work", "result_inkfuse_rof_100.csv"], .file []),
    (["work", "result_inkfuse_interpreted_100.csv"], .file []),
    (["work", "result_inkfuse_hybrid_100.csv"], .file [])]

example :
    let o : FigureOptions := ⟨none, none, none, ⟨".", [], 10⟩, "plots", false⟩
    (Command.run emptyTables (.throughput o)).fault = none ∧
      (Command.run emptyTables (.throughput { o with strict := true })).fault ≠ none := by
  decide +kernel

end QueryBench
