import QueryBench.Proofs.Csv.RoundTrip
import QueryBench.Proofs.FileSystem.Append
import QueryBench.Proofs.Results.TimingRows

/-!
# Tables built by appends

A timing table that was made by appends alone holds what was appended, in the order of
the appends.  Every append ends with a line end outside quotes, so the next one starts a
record of its own.
-/

namespace QueryBench
namespace Timings

open Csv (dropMark)
open Csv.Cursor (start)

/-! ## Tables as bytes -/

theorem parse_eq_ok_iff {limit : Nat} {bytes : Bytes} {trials : List Trial} :
    parse limit bytes = .ok trials ↔
      Reads (start.records (dropMark bytes).1) trials ∧ trials.length ≤ limit := by
  rw [parse, ofRecords_eq_ok_iff, Csv.map_fields_records]

theorem read_eq_ok_iff {fs : FileSystem} {path : String} {bytes : Bytes}
    (h : fs.read path = .ok bytes) {limit : Nat} {trials : List Trial} :
    read fs limit path = .ok trials ↔ parse limit bytes = .ok trials := by
  rw [read, h]
  exact mapError_eq_ok_iff

theorem two_le_length_fields {trials : List Trial} : ∀ r ∈ trials.map fields, 2 ≤ r.length := by
  intro r hr
  obtain ⟨t, -, rfl⟩ := List.mem_map.mp hr
  simp [fields]

theorem records_write (trials : List Trial) :
    start.records (write trials) = (trials.map fields).map (List.map Bytes.ofString) :=
  Csv.records_write two_le_length_fields

theorem dropMark_write {trials : List Trial}
    (h : ∀ t ∈ trials.head?, t.group.engine.toList.head? ≠ some '\uFEFF') :
    dropMark (write trials) = (write trials, 0) := by
  apply Csv.dropMark_write two_le_length_fields
  intro r hr s hs
  cases trials with
  | nil => cases hr
  | cons t trials =>
      cases hr
      cases hs
      exact h t rfl

theorem parse_write {trials : List Trial} (hwritable : ∀ t ∈ trials, Writable t)
    (hmark : ∀ t ∈ trials.head?, t.group.engine.toList.head? ≠ some '\uFEFF')
    {limit : Nat} (hlimit : trials.length ≤ limit) :
    parse limit (write trials) = .ok trials := by
  rw [parse_eq_ok_iff, dropMark_write hmark, records_write]
  exact ⟨reads_written hwritable, hlimit⟩

/-! ## Appends -/

/-- The file system after some appends to one file. -/
def appendAll (fs : FileSystem) (path : String) :
    List (List Trial) → Except FileFault FileSystem
  | [] => .ok fs
  | batch :: rest =>
      match append fs path batch with
      | .error fault => .error fault
      | .ok fs' => appendAll fs' path rest

theorem append_eq_ok_iff {fs fs' : FileSystem} {path : String} {trials : List Trial} :
    append fs path trials = .ok fs' ↔
      ∃ loc, fs.target path = .ok loc ∧
        fs' = fs.put loc (.file (fs.contentAt loc ++ write trials)) := by
  rw [← FileSystem.append_eq_ok_iff]
  exact mapError_eq_ok_iff

theorem exists_append {fs : FileSystem} {path : String} {content : Bytes}
    (h : fs.Holds path content) (trials : List Trial) :
    ∃ fs', append fs path trials = .ok fs' ∧
      fs'.read path = .ok (content ++ write trials) := by
  obtain ⟨fs', happend, hread⟩ := FileSystem.exists_append h (write trials)
  refine ⟨fs', ?_, hread⟩
  rw [append, happend]
  rfl

theorem exists_appendAll {fs : FileSystem} {path : String} {content : Bytes}
    (h : fs.Holds path content) {batches : List (List Trial)} (hbatches : batches ≠ []) :
    ∃ fs', appendAll fs path batches = .ok fs' ∧
      fs'.read path = .ok (content ++ write batches.flatten) := by
  induction batches generalizing fs content with
  | nil => exact absurd rfl hbatches
  | cons batch rest ih =>
      obtain ⟨fs₁, happend, hread⟩ := exists_append h batch
      cases rest with
      | nil =>
          refine ⟨fs₁, ?_, ?_⟩
          · rw [appendAll, happend]
            rfl
          · simpa using hread
      | cons batch' rest =>
          obtain ⟨fs₂, hrest, hread₂⟩ :=
            ih (FileSystem.holds_of_read hread) (List.cons_ne_nil batch' rest)
          refine ⟨fs₂, ?_, ?_⟩
          · rw [appendAll, happend]
            exact hrest
          · rw [hread₂, List.append_assoc, ← write_append]
            rfl

/-- A new file that is written by any number of appends, each of any number of trials,
is read back as all these trials in order. -/
theorem read_appended_batches {fs : FileSystem} {path : String} {loc : Location}
    (htarget : fs.target path = .ok loc) (habsent : fs.node? loc = none)
    {batches : List (List Trial)} (hbatches : batches ≠ [])
    (hwritable : ∀ t ∈ batches.flatten, Writable t)
    (hmark : ∀ t ∈ batches.flatten.head?, t.group.engine.toList.head? ≠ some '\uFEFF')
    {limit : Nat} (hlimit : batches.flatten.length ≤ limit) :
    ∃ fs', appendAll fs path batches = .ok fs' ∧
      read fs' limit path = .ok batches.flatten := by
  obtain ⟨fs', happend, hread⟩ :=
    exists_appendAll (FileSystem.holds_of_absent htarget habsent) hbatches
  refine ⟨fs', happend, ?_⟩
  rw [read_eq_ok_iff hread, List.nil_append]
  exact parse_write hwritable hmark hlimit

/-- Labels that hold separators, quotes, line ends, a mark or nothing. -/
def awkwardBatches : List (List Trial) :=
  [[⟨⟨"a,\"b\"", "line\r\nend", ⟨""⟩⟩, ⟨0, some 7, none⟩⟩], [],
    [⟨⟨"\uFEFF", "", ⟨"\""⟩⟩, ⟨18446744073709551615, none, none⟩⟩,
      ⟨⟨"", "", ⟨""⟩⟩, ⟨1, some 0, none⟩⟩]]

theorem read_awkward_batches :
    ∃ fs', appendAll (.empty ["work"]) "rows.csv" awkwardBatches = .ok fs' ∧
      read fs' 3 "rows.csv" = .ok awkwardBatches.flatten := by
  have htarget : (FileSystem.empty ["work"]).target "rows.csv" = .ok ["work", "rows.csv"] := by
    decide +kernel
  have habsent : (FileSystem.empty ["work"]).node? ["work", "rows.csv"] = none := by
    decide +kernel
  refine read_appended_batches htarget habsent (by simp [awkwardBatches]) ?_ ?_ ?_
  · intro t ht
    simp only [awkwardBatches, List.flatten_cons, List.flatten_nil, List.cons_append,
      List.nil_append, List.mem_cons, List.not_mem_nil, or_false] at ht
    rcases ht with rfl | rfl | rfl <;> exact ⟨by decide, by decide, by decide, rfl⟩
  · intro t ht
    cases ht
    decide
  · decide

end Timings
end QueryBench
