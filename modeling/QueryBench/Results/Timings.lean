import QueryBench.Decimal.Numeral
import QueryBench.Results.Fault
import QueryBench.Row

/-!
# Timing tables

A timing table has no header.  Its rows hold engine, query, scale factor and
latency in milliseconds, and may hold the stall in microseconds.  Programs append
to such a table, so it holds many trials of a group.
-/

namespace QueryBench
namespace Timings

def maxCount : Int := UInt64.size - 1

/-- A stall: a count, or a number that is finite and not negative, rounded to the
nearest count. -/
def stall? (field : String) : Option UInt64 :=
  match Numeral.count? field.toList with
  | some n => some n
  | none =>
      match Numeral.float? field with
      | none => none
      | some x =>
          if !x.isFinite || x < 0.0 then none
          else
            let n := (FloatClass.ofFloat x).clampedInt Binary.nearest 0 maxCount
            some (UInt64.ofNat n.toNat)

/-- The stall field of a row, which may be missing or empty. -/
def stallField (line : Nat) : List String → Except Defect (Option UInt64)
  | [] => .ok none
  | field :: _ =>
      if field.isEmpty then .ok none
      else
        match stall? field with
        | none => .error (.number line "stall" field)
        | some n => .ok (some n)

def trial (line : Nat) : List String → Except Defect Trial
  | engine :: query :: sf :: latency :: rest =>
      if 1 < rest.length then .error (.width line (4 + rest.length))
      else
        match Numeral.count? latency.toList with
        | none => .error (.number line "latency" latency)
        | some ms =>
            (stallField line rest).map fun stall ↦
              ⟨⟨engine, query, .ofText sf⟩, ⟨ms, stall, none⟩⟩
  | fields => .error (.width line fields.length)

/-- The trials of some records, of which at most `room` may hold anything. -/
def ofRecords (limit : Nat) : Nat → List Csv.Record → Except Defect (List Trial)
  | _, [] => .ok []
  | room, r :: rest =>
      match r.texts with
      | .error fault => .error (.table fault)
      | .ok fields =>
          if fields.all (·.isEmpty) then ofRecords limit room rest
          else
            match room with
            | 0 => .error (.rowLimit limit)
            | room + 1 =>
                match trial r.line fields with
                | .error defect => .error defect
                | .ok t => (ofRecords limit room rest).map (t :: ·)

def parse (limit : Nat) (bytes : Bytes) : Except Defect (List Trial) :=
  ofRecords limit limit (Csv.records bytes)

def fields (t : Trial) : List String :=
  [t.group.engine, t.group.query, t.group.scaleFactor.label, toString t.reading.latencyMs] ++
    (t.reading.stallUs.map toString).toList

def write (trials : List Trial) : Bytes := Csv.write (trials.map fields)

/-- Reads a table that errors call `source`. -/
def parseFrom (source : String) (limit : Nat) (bytes : Bytes) :
    Except FileFault (List Trial) :=
  (parse limit bytes).mapError (⟨source, ·⟩)

/-- A defect of opening a table: that it is a directory shows on reading only. -/
def accessDefect : FileSystem.Fault → Defect
  | .isDirectory => .directoryTable
  | fault => .access fault

def read (fs : FileSystem) (limit : Nat) (path : String) : Except FileFault (List Trial) :=
  match fs.read path with
  | .error fault => .error ⟨path, accessDefect fault⟩
  | .ok bytes => parseFrom path limit bytes

/-- Adds trials to the end of a file. -/
def append (fs : FileSystem) (path : String) (trials : List Trial) :
    Except FileFault FileSystem :=
  (fs.append path (write trials)).mapError fun fault ↦ ⟨path, .access fault⟩

@[simp] theorem write_append (a b : List Trial) : write (a ++ b) = write a ++ write b := by
  simp [write]

end Timings
end QueryBench
