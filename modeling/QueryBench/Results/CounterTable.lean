import QueryBench.Results.Timings

/-!
# Counter tables

A counter table has a header, and its columns are found by name: `backend`,
`query`, `sf` and one for each counter, in any order and among others.
-/

namespace QueryBench
namespace CounterTable

/-- Where the columns of a table stand. -/
structure Columns where
  backend : Nat
  query : Nat
  scaleFactor : Nat
  counters : List (Counter × Nat)
deriving DecidableEq, Repr

/-- The first column of a name. -/
def column (header : List String) (name : String) : Except Defect Nat :=
  match header.idxOf? name with
  | none => .error (.missingColumn name)
  | some k => .ok k

def counterColumns (header : List String) : List Counter → Except Defect (List (Counter × Nat))
  | [] => .ok []
  | c :: rest => do
      let k ← column header c.inputName
      let others ← counterColumns header rest
      return (c, k) :: others

def columns (header : List String) : Except Defect Columns := do
  let backend ← column header "backend"
  let query ← column header "query"
  let sf ← column header "sf"
  let counters ← counterColumns header Counter.all
  return ⟨backend, query, sf, counters⟩

def cell (fields : List String) (k : Nat) : String := fields.getD k ""

/-- The readings of a row, in the order of the counters. -/
def readings (line : Nat) (fields : List String) :
    List (Counter × Nat) → Except Defect (List (Counter × Float))
  | [] => .ok []
  | (c, k) :: rest =>
      match Numeral.float? (cell fields k) with
      | none => .error (.number line c.inputName (cell fields k))
      | some x => (readings line fields rest).map ((c, x) :: ·)

/-- The reading of a counter among some readings. -/
def readingOf (xs : List (Counter × Float)) (c : Counter) : Float :=
  ((xs.find? fun p ↦ p.1 = c).map Prod.snd).getD 0.0

/-- The sample of one row. -/
def sample (columns : Columns) (line : Nat) (fields : List String) : Except Defect Sample :=
  (readings line fields columns.counters).map fun xs ↦
    ⟨⟨cell fields columns.backend, cell fields columns.query,
      .ofText (cell fields columns.scaleFactor)⟩, .ofFn (readingOf xs)⟩

/-- The texts of a row, which has to be as wide as the header. -/
def rowTexts (width : Nat) (r : Csv.Record) : Except Csv.Fault (List String) :=
  if r.fields.length = width then r.texts else .error (.width r width)

/-- The samples of some rows, at most `room` of them. -/
def ofRecords (columns : Columns) (width limit : Nat) :
    Nat → List Csv.Record → Except Defect (List Sample)
  | _, [] => .ok []
  | 0, _ :: _ => .error (.rowLimit limit)
  | room + 1, r :: rest =>
      match rowTexts width r with
      | .error fault => .error (.table fault)
      | .ok fields =>
          match sample columns r.line fields with
          | .error defect => .error defect
          | .ok s => (ofRecords columns width limit room rest).map (s :: ·)

def parse (limit : Nat) (bytes : Bytes) : Except Defect (List Sample) :=
  match Csv.records bytes with
  | [] => (columns []).map fun _ ↦ []
  | header :: rows =>
      match header.headerTexts with
      | .error fault => .error (.table fault)
      | .ok names =>
          match columns names with
          | .error defect => .error defect
          | .ok columns => ofRecords columns header.fields.length limit limit rows

/-- Reads a table that errors call `source`. -/
def parseFrom (source : String) (limit : Nat) (bytes : Bytes) :
    Except FileFault (List Sample) :=
  (parse limit bytes).mapError (⟨source, ·⟩)

def read (fs : FileSystem) (limit : Nat) (path : String) : Except FileFault (List Sample) :=
  match fs.read path with
  | .error fault => .error ⟨path, Timings.accessDefect fault⟩
  | .ok bytes => parseFrom path limit bytes

end CounterTable
end QueryBench
