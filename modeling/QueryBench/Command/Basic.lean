import QueryBench.Command.Options
import QueryBench.Cost.Text
import QueryBench.Decimal.Numeral

/-!
# Commands

What the program can be asked to do, and how a command line asks for it.  A command
line that no command admits is refused as a whole.
-/

namespace QueryBench

structure DataOptions where
  directory : String
  /-- Further campaigns, each a tag prefix and a directory around an equals sign. -/
  campaigns : List String
  maxRows : Nat
deriving DecidableEq, Repr

structure FigureOptions where
  preset : Option String
  config : Option String
  rules : Option String
  data : DataOptions
  out : String
  strict : Bool
deriving DecidableEq, Repr

structure CostOptions where
  directory : String
  scaleFactors : List String
  reference : Option String
  rules : Option String
  hidden : List String
  counterStem : Option String
  format : CostReport.Format
  /-- The file that the report is written to. -/
  output : Option String
  maxRows : Nat
deriving DecidableEq, Repr

inductive Command where
  | plot (options : FigureOptions)
  | throughput (options : FigureOptions)
  | costReport (options : CostOptions)
  | importUmbra (source dest : String)
deriving DecidableEq, Repr

namespace Command

def verbose : OptionSpec := .flag "verbose" (some 'v')

def figureSpecs : List OptionSpec :=
  [verbose, .single "preset" (some 'p'), .single "config" (some 'c'), .single "rules" none,
    .single "data" (some 'd'), .many "campaign" none, .single "max-rows" none,
    .single "out" (some 'o'), .flag "strict" none]

def costSpecs : List OptionSpec :=
  [verbose, .single "data" (some 'd'), .many "scale-factors" (some 's'),
    .single "reference" none, .single "rules" none, .many "exclude-backend" none,
    .flag "all-backends" none, .single "counter-prefix" none, .single "format" (some 'f'),
    .single "output" (some 'o'), .single "max-rows" none]

/-- The most rows read from one file where nothing is said. -/
def defaultMaxRows : Nat := 1000000

/-- The value of a path option, which cannot be empty. -/
def path? (w : Words) (name : String) : Option (Option String) :=
  match w.value? name with
  | none => some none
  | some s => if s.isEmpty then none else some (some s)

/-- A row limit. -/
def maxRows? (w : Words) : Option Nat :=
  match w.value? "max-rows" with
  | none => some defaultMaxRows
  | some s => (Numeral.count? s.toList).map UInt64.toNat

def figure? (args : List String) : Option FigureOptions := do
  let w ← words? figureSpecs args
  if !w.operands.isEmpty || (w.given "preset" && w.given "config") then failure
  let config ← path? w "config"
  let rules ← path? w "rules"
  let directory ← path? w "data"
  let maxRows ← maxRows? w
  let out ← path? w "out"
  return { preset := w.value? "preset"
           config := config
           rules := rules
           data := ⟨directory.getD ".", w.values "campaign", maxRows⟩
           out := out.getD "plots"
           strict := w.given "strict" }

def format? (w : Words) : Option CostReport.Format :=
  match w.value? "format" with
  | none => some .table
  | some "csv" => some .table
  | some "json" => some .document
  | some _ => none

def splitCommas (s : String) : List String := (s.toList.splitOn ',').map String.ofList

def scaleFactors (w : Words) : List String :=
  if w.given "scale-factors" then (w.values "scale-factors").flatMap splitCommas else ["1"]

/-- The backends that a report leaves out. -/
def hidden (w : Words) : List String :=
  if w.given "all-backends" then []
  else if w.given "exclude-backend" then w.values "exclude-backend"
  else ["hybrid"]

def cost? (args : List String) : Option CostOptions := do
  let w ← words? costSpecs args
  if !w.operands.isEmpty || (w.given "exclude-backend" && w.given "all-backends") then failure
  let directory ← path? w "data"
  let reference ← path? w "reference"
  let rules ← path? w "rules"
  let format ← format? w
  let output ← path? w "output"
  let maxRows ← maxRows? w
  return { directory := directory.getD "."
           scaleFactors := scaleFactors w
           reference := reference
           rules := rules
           hidden := hidden w
           counterStem := w.value? "counter-prefix"
           format := format
           output := output
           maxRows := maxRows }

def import? (args : List String) : Option Command := do
  let w ← words? [verbose] args
  match w.operands with
  | [source] => if source.isEmpty then failure else return importUmbra source "."
  | [source, dest] =>
      if source.isEmpty || dest.isEmpty then failure else return importUmbra source dest
  | _ => failure

/-- The command of a name and its arguments. -/
def named? (name : String) (args : List String) : Option Command :=
  match name with
  | "plot" => (figure? args).map plot
  | "throughput" => (figure? args).map throughput
  | "cost-report" => (cost? args).map costReport
  | "import-umbra" => import? args
  | _ => none

/-- The command of a command line, whose name may follow general options. -/
def ofArguments? (args : List String) : Option Command :=
  let general := args.takeWhile isOptionWord
  if general.contains "--" then none
  else
    match words? [verbose] general, args.dropWhile isOptionWord with
    | some _, name :: rest => named? name rest
    | _, _ => none

end Command
end QueryBench
