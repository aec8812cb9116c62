import QueryBench.Command.Figure
import QueryBench.Configuration.File
import QueryBench.Cost.File
import QueryBench.Results.Import

/-!
# Running commands

Every command is a function from the files that are there to its outcome.  It takes the
format of its configuration files as it comes; the program reads them in flow style.
-/

namespace QueryBench

namespace CostOptions

def report (o : CostOptions) (reference : ReferenceTable) (rules : QueryRules)
    (samples : List Sample) : Except CostFault CostReport :=
  (CostReport.ofAggregates reference rules (aggregateMean samples)).map
    (·.withoutBackends o.hidden)

def layout (o : CostOptions) : ResultLayout :=
  let l := ResultLayout.ofDirectory o.directory
  match o.counterStem with
  | none => l
  | some stem => { l with counterStem := stem }

/-- The report as it is printed, which ends in a line feed. -/
def printed (r : CostReport) : CostReport.Format → String
  | .table => (r.table.toString?).getD ""
  | .document => r.document.pretty ++ "\n"

/-- Prints a report, or writes it to a file. -/
def deliver (o : CostOptions) (fs : FileSystem) (warnings : List Warning) (r : CostReport) :
    Outcome :=
  match o.output with
  | none => ⟨fs, printed r o.format, warnings, none, none⟩
  | some path =>
      match r.store fs path o.format with
      | (fs', some fault) => .failed fs' warnings (.file fault)
      | (fs', none) => ⟨fs', "", warnings, none, none⟩

def make (o : CostOptions) (fs : FileSystem) (reference : ReferenceTable)
    (rules : QueryRules) : Outcome :=
  match o.layout.loadSamples fs o.maxRows (o.scaleFactors.map .ofText) with
  | .error fault => .failed fs [] (.file fault)
  | .ok samples =>
      let relabelled := rules.relabel samples
      let warnings := relabelled.issues.map Warning.data
      match o.report reference rules relabelled.rows with
      | .error fault => .failed fs warnings (.cost fault)
      | .ok r => o.deliver fs warnings r

def run (o : CostOptions) (format : Configuration.Format) (fs : FileSystem) : Outcome :=
  match Configuration.loadOr format fs Configuration.reference (.ok .tpch) o.reference with
  | .error fault => .failed fs [] fault
  | .ok reference =>
      match Configuration.loadOr format fs (Configuration.rules .file) (.ok .mainFigure)
          o.rules with
      | .error fault => .failed fs [] fault
      | .ok rules => o.make fs reference rules

end CostOptions

namespace ImportSummary

/-- One line for each table, and one for the whole import. -/
def report (s : ImportSummary) : String :=
  String.join (s.written.toList.map fun w ↦ s!"{w.1}: {w.2} row(s)\n") ++
    s!"Imported {s.logs} log(s), skipped {s.skipped} file(s)\n"

end ImportSummary

namespace Command

/-- Imports logs; what was written before a failure stays. -/
def runImport (fs : FileSystem) (source dest : String) : Outcome :=
  match UmbraLog.importDirectory fs source dest with
  | (fs', .error fault) => ⟨fs', "", [], none, some (.file fault)⟩
  | (fs', .ok summary) => ⟨fs', summary.report, [], none, none⟩

def runFigure (fs : FileSystem) (o : FigureOptions) (job : Except CommandFault FigureJob) :
    Outcome :=
  match job with
  | .error fault => .failed fs [] fault
  | .ok job => o.make fs job

/-- Runs a command whose configuration files are of some format. -/
def runIn (format : Configuration.Format) (fs : FileSystem) : Command → Outcome
  | plot o => runFigure fs o (o.latency format fs)
  | throughput o => runFigure fs o (o.throughput format fs)
  | costReport o => o.run format fs
  | importUmbra source dest => runImport fs source dest

def run (fs : FileSystem) (c : Command) : Outcome := c.runIn Configuration.flowStyle fs

end Command
end QueryBench
