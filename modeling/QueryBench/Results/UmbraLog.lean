import QueryBench.Results.Timings
import QueryBench.Text.Lines

/-!
# Umbra logs

Umbra writes one log for each query, execution mode and scale factor.  The name
of a log tells the three, and each of its lines the seconds spent on execution
and on compilation.
-/

namespace QueryBench

/-- How Umbra runs queries. -/
inductive UmbraMode where
  | adaptive
  | optimized
deriving DecidableEq, Repr

namespace UmbraMode

def ofCode? : Char → Option UmbraMode
  | 'a' => some adaptive
  | 'o' => some optimized
  | _ => none

/-- The engine tag of the mode. -/
def engine : UmbraMode → String
  | adaptive => "umbra_adaptive"
  | optimized => "umbra_optimized"

end UmbraMode

/-- What the name of a log tells. -/
structure UmbraLog where
  query : String
  mode : UmbraMode
  scaleFactor : ScaleFactor
deriving DecidableEq, Repr

namespace UmbraLog

def isQueryChar (c : Char) : Bool :=
  c == '_' || (decide ('a' ≤ c) && decide (c ≤ 'z')) || c.isDigit

def isScaleChar (c : Char) : Bool := c.isDigit || c == '.' || c == '_'

/-- Reads a name without its ending, backwards.  The scale factor is what follows
the first character of the longest end over digits, dots and underscores. -/
def ofReversed? (body : List Char) : Option UmbraLog :=
  match (body.takeWhile isScaleChar).reverse, body.dropWhile isScaleChar with
  | '_' :: sf, 's' :: 'e' :: 'r' :: '_' :: code :: '_' :: query =>
      match UmbraMode.ofCode? code, query.reverse with
      | some mode, 'q' :: rest =>
          if rest.all isQueryChar then
            let label := sf.map fun c ↦ if c = '_' then '.' else c
            some ⟨String.ofList ('q' :: rest), mode, .ofText (String.ofList label)⟩
          else none
      | _, _ => none
  | _, _ => none

/-- What a file name tells; none for a file that is no log. -/
def ofName? (name : String) : Option UmbraLog :=
  match name.toList.reverse with
  | 'v' :: 's' :: 'c' :: '.' :: body => ofReversed? body
  | _ => none

def executionMark : List Char := "execution: (".toList

def compilationMark : List Char := "compilation: (".toList

def isTimeChar (c : Char) : Bool := c.isDigit || c == '.'

/-- The two times in a line without line feeds, as they are written: after the
first execution mark, and after the last compilation mark that follows. -/
def times? (line : List Char) : Option (List Char × List Char) :=
  match Text.after? executionMark line with
  | none => none
  | some rest =>
      match Text.afterLast? compilationMark (rest.dropWhile isTimeChar) with
      | none => none
      | some rest' => some (rest.takeWhile isTimeChar, rest'.takeWhile isTimeChar)

def seconds? (text : List Char) : Option (Float × Float) :=
  match (text.splitOn '\n').findSome? times? with
  | none => none
  | some (execution, compilation) =>
      match Numeral.parse? execution, Numeral.parse? compilation with
      | some x, some y => some (x.toFloat, y.toFloat)
      | _, _ => none

/-- The integer that `pick` chooses, as a count. -/
def toCount (pick : Binary → Int) (x : Float) : UInt64 :=
  UInt64.ofNat ((FloatClass.ofFloat x).clampedInt pick 0 Timings.maxCount).toNat

/-- The whole milliseconds of execution and compilation together. -/
def latencyMs (execution compilation : Float) : UInt64 :=
  toCount Binary.integerPart (1000.0 * (execution + compilation))

/-- The nearest microseconds of compilation. -/
def stallUs (compilation : Float) : UInt64 :=
  toCount Binary.nearest (1000000.0 * compilation)

def trial (log : UmbraLog) (execution compilation : Float) : Trial :=
  ⟨⟨log.mode.engine, log.query, log.scaleFactor⟩,
    ⟨latencyMs execution compilation, some (stallUs compilation), none⟩⟩

/-- The trials of the lines from the `n`-th on.  Blank lines have none. -/
def trialsFrom (log : UmbraLog) (n : Nat) : List (List Char) → Except Defect (List Trial)
  | [] => .ok []
  | line :: rest =>
      if line.all Text.isBlank then log.trialsFrom (n + 1) rest
      else
        match seconds? line with
        | none => .error (.logLine n)
        | some (x, y) => (log.trialsFrom (n + 1) rest).map (log.trial x y :: ·)

def trials (log : UmbraLog) (text : String) : Except Defect (List Trial) :=
  log.trialsFrom 1 (Text.lines text.toList)

/-- Reads a log that errors call `source`. -/
def trialsOf (log : UmbraLog) (source text : String) : Except FileFault (List Trial) :=
  (log.trials text).mapError (⟨source, ·⟩)

def read (log : UmbraLog) (fs : FileSystem) (path : String) :
    Except FileFault (List Trial) :=
  match fs.read path with
  | .error fault => .error ⟨path, .access fault⟩
  | .ok bytes =>
      match bytes.toString? with
      | none => .error ⟨path, .notText⟩
      | some text => log.trialsOf path text

end UmbraLog
end QueryBench
