import QueryBench.Command.Run

/-!
# What commands read

Which files a command reads follows from what it is and from the files that
configure it, so that they can be gathered before it runs.
-/

namespace QueryBench

/-- The tables that a figure is made from. -/
def FigureOptions.tables (o : FigureOptions) (job : Except CommandFault FigureJob) :
    List String :=
  match o.data.layout, job with
  | .ok l, .ok job => (l.sources job.engines job.scaleFactors).map (·.path)
  | _, _ => []

/-- The logs among some names, each with the table that it belongs to. -/
def UmbraLog.filesOf (source dest : String) (names : List String) : List String :=
  names.flatMap fun name ↦
    match ofName? name with
    | none => []
    | some log => [Path.join source name, log.tablePath dest]

namespace Command

/-- The files that configure a command. -/
def settings : Command → List String
  | plot o => o.config.toList ++ o.rules.toList
  | throughput o => o.config.toList ++ o.rules.toList
  | costReport o => o.reference.toList ++ o.rules.toList
  | importUmbra _ _ => []

/-- The places whose presence matters to a command. -/
def places : Command → List String
  | plot o => [o.out]
  | throughput o => [o.out]
  | costReport o => o.output.toList
  | importUmbra source dest => [source, dest]

/-- The tables and logs that a command reads, where its settings and places are
known. -/
def inputs (format : Configuration.Format) (fs : FileSystem) : Command → List String
  | plot o => o.tables (o.latency format fs)
  | throughput o => o.tables (o.throughput format fs)
  | costReport o => (o.scaleFactors.map .ofText).map o.layout.counterPath
  | importUmbra source dest =>
      match fs.list source with
      | .error _ => []
      | .ok names => UmbraLog.filesOf source dest names

end Command
end QueryBench
