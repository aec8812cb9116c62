import QueryBench.Configuration.Reader
import QueryBench.Cost.Report
import QueryBench.Drawing.File
import QueryBench.Issue
import QueryBench.LatencyFigure.Validity
import QueryBench.Results.Fault

/-!
# Outcomes of commands

A command leaves a file system, prints text, warns of what it noticed, and may
fail.
-/

namespace QueryBench

inductive CommandFault where
  | file (fault : FileFault)
  | figure (fault : FigureFault Float)
  | render (fault : RenderFault)
  | cost (fault : CostFault)
  /-- A configuration file does not hold what is asked for. -/
  | config (path : String)
  | configAccess (path : String) (fault : FileSystem.Fault)
  | configText (path : String)
  | unknownPreset (name : String) (available : List String)
  | campaignForm (campaign : String)
  | campaignPart (campaign : String)
  | dataIssues (count : Nat)
deriving DecidableEq, Repr

namespace CommandFault

def message : CommandFault → String
  | file fault => fault.message
  | figure fault => fault.message
  | render fault => fault.message
  | cost fault => fault.message
  | config path => s!"Invalid configuration '{path}'"
  | configAccess path fault => s!"I/O error for '{path}': {fault.message}"
  | configText path => s!"I/O error for '{path}': stream did not contain valid UTF-8"
  | unknownPreset name available =>
      s!"Unknown preset '{name}' (available: " ++ ", ".intercalate available ++ ")"
  | campaignForm campaign =>
      s!"Invalid input: campaign '{campaign}' is not of the form PREFIX=DIR"
  | campaignPart campaign =>
      s!"Invalid input: campaign '{campaign}' has an empty prefix or directory"
  | dataIssues count => s!"{count} data issue(s) found"

end CommandFault

/-- What a command notices without failing. -/
inductive Warning where
  | absentCampaign (path : String)
  | data (issue : Issue)
  | figure (name : String) (issue : Issue)
deriving DecidableEq, Repr

def Warning.message : Warning → String
  | absentCampaign _ => "campaign file not found, skipping"
  | data issue => issue.message
  | figure _ issue => issue.message

structure Outcome where
  files : FileSystem
  output : String
  warnings : List Warning
  /-- The figure that was drawn. -/
  drawing : Option SavedDrawing
  fault : Option CommandFault

namespace Outcome

/-- A failure, and the files that it leaves. -/
def failed (fs : FileSystem) (warnings : List Warning) (fault : CommandFault) : Outcome :=
  ⟨fs, "", warnings, none, some fault⟩

end Outcome

namespace Configuration

/-- The value in a configuration file of some format. -/
def load {α : Type} (format : Format) (fs : FileSystem) (read : Reader α) (path : String) :
    Except CommandFault α :=
  match fs.read path with
  | .error fault => .error (.configAccess path fault)
  | .ok bytes =>
      match bytes.toString? with
      | none => .error (.configText path)
      | some content =>
          match format content with
          | none => .error (.config path)
          | some d => (read d).mapError fun _ ↦ .config path

def loadOr {α : Type} (format : Format) (fs : FileSystem) (read : Reader α)
    (default : Except CommandFault α) : Option String → Except CommandFault α
  | none => default
  | some path => load format fs read path

end Configuration
end QueryBench
