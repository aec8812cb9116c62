import QueryBench.Proofs.Results.AppendedTables
import QueryBench.Proofs.Results.LogLines
import QueryBench.Proofs.Results.LogNames
import QueryBench.Results.Import

/-!
# Imported logs

An import takes the files of a directory in the order of their names and stops at the
first log that it cannot use.  Up to there the rows of every log are added to the table
of its mode and scale factor and nowhere else; of the log that stops it, and of those
behind, no row is written.
-/

namespace QueryBench
namespace UmbraLog

/-- A log that was converted to trials. -/
structure Conversion where
  name : String
  log : UmbraLog
  trials : List Trial
  named : ofName? name = some log

namespace Conversion

theorem spells (c : Conversion) : Spells c.name c.log := spells_of_ofName? c.named

/-- The trials of the conversions for one mode and scale factor. -/
def rowsFor (mode : UmbraMode) (sf : ScaleFactor) (cs : List Conversion) : List Trial :=
  (cs.filter fun c ↦ decide (c.log.mode = mode ∧ c.log.scaleFactor = sf)).flatMap (·.trials)

variable {mode : UmbraMode} {sf : ScaleFactor} {c : Conversion} {cs : List Conversion}

theorem rowsFor_append_of_eq (h : c.log.mode = mode ∧ c.log.scaleFactor = sf) :
    rowsFor mode sf (cs ++ [c]) = rowsFor mode sf cs ++ c.trials := by
  simp [rowsFor, h]

theorem rowsFor_append_of_ne (h : ¬ (c.log.mode = mode ∧ c.log.scaleFactor = sf)) :
    rowsFor mode sf (cs ++ [c]) = rowsFor mode sf cs := by
  simp [rowsFor, h]

theorem rowsFor_eq_nil (h : ∀ c ∈ cs, ¬ (c.log.mode = mode ∧ c.log.scaleFactor = sf)) :
    rowsFor mode sf cs = [] := by
  rw [rowsFor, List.filter_eq_nil_iff.mpr]
  · rfl
  · intro c hc
    simpa using h c hc

theorem exists_of_mem_rowsFor {t : Trial} (h : t ∈ rowsFor mode sf cs) :
    ∃ c ∈ cs, t ∈ c.trials := by
  obtain ⟨c, hc, ht⟩ := List.mem_flatMap.mp h
  exact ⟨c, List.mem_of_mem_filter hc, ht⟩

end Conversion

theorem tablePath_eq_iff {a b : UmbraLog} {dest : String} :
    a.tablePath dest = b.tablePath dest ↔ a.mode = b.mode ∧ a.scaleFactor = b.scaleFactor := by
  constructor
  · intro h
    apply ResultLayout.timingFileName_injective
    exact Path.join_injective (ResultLayout.isAbsolute_timingFileName _ _)
      (ResultLayout.isAbsolute_timingFileName _ _) h
  · rintro ⟨hmode, hscale⟩
    rw [tablePath, tablePath, hmode, hscale]

/-! ## Converted files -/

/-- The logs among some files, converted in the order of the files. -/
inductive Converted (fs : FileSystem) (source : String) : List String → List Conversion → Prop
  | nil : Converted fs source [] []
  | skip {name : String} {rest : List String} {cs : List Conversion}
      (hname : ofName? name = none) (hrest : Converted fs source rest cs) :
      Converted fs source (name :: rest) cs
  | log {c : Conversion} {bytes : Bytes} {rest : List String} {cs : List Conversion}
      (hread : fs.read (Path.join source c.name) = .ok bytes)
      (htrials : c.log.Converts bytes c.trials) (hrest : Converted fs source rest cs) :
      Converted fs source (c.name :: rest) (c :: cs)

/-- A log that ends an import: it cannot be read, it is rejected, or there is no place for its
table. -/
inductive Stops (fs : FileSystem) (source dest name : String) : FileFault → Prop
  | unreadable {log : UmbraLog} {fault : FileSystem.Fault} (hname : ofName? name = some log)
      (hread : fs.read (Path.join source name) = .error fault) :
      Stops fs source dest name ⟨Path.join source name, .access fault⟩
  | log {log : UmbraLog} {bytes : Bytes} {defect : Defect} (hname : ofName? name = some log)
      (hread : fs.read (Path.join source name) = .ok bytes) (hrejects : Rejects bytes defect) :
      Stops fs source dest name ⟨Path.join source name, defect⟩
  | table {log : UmbraLog} {bytes : Bytes} {trials : List Trial} {fault : FileSystem.Fault}
      (hname : ofName? name = some log)
      (hread : fs.read (Path.join source name) = .ok bytes) (htrials : log.Converts bytes trials)
      (htarget : ∀ loc, fs.target (log.tablePath dest) ≠ .ok loc) :
      Stops fs source dest name ⟨log.tablePath dest, .access fault⟩

theorem Tells.reports_of_mem {log : UmbraLog} {lines : List (List Char)} {trials : List Trial}
    (h : log.Tells lines trials) {t : Trial} (ht : t ∈ trials) : ∃ line, log.Reports line t := by
  unfold Tells at h
  generalize lines.filter (fun l ↦ !l.all Text.isBlank) = told at h
  induction h with
  | nil => cases ht
  | cons hline _ ih =>
      rcases List.mem_cons.mp ht with rfl | ht
      · exact ⟨_, hline⟩
      · exact ih ht

theorem Converted.reports {fs : FileSystem} {source : String} {files : List String}
    {cs : List Conversion} (h : Converted fs source files cs) {c : Conversion} (hc : c ∈ cs)
    {t : Trial} (ht : t ∈ c.trials) : ∃ line, c.log.Reports line t := by
  induction h with
  | nil => cases hc
  | skip _ _ ih => exact ih hc
  | log _ htrials _ ih =>
      rcases List.mem_cons.mp hc with rfl | hc
      · obtain ⟨_, -, htells⟩ := htrials
        exact htells.reports_of_mem ht
      · exact ih hc

/-- What a log tells can be written to a table and read back. -/
theorem writable_of_reports {c : Conversion} {line : List Char} {t : Trial}
    (h : c.log.Reports line t) :
    Timings.Writable t ∧ t.group.engine.toList.head? ≠ some '\uFEFF' := by
  obtain ⟨execution, compilation, -, rfl⟩ := h
  refine ⟨⟨?_, c.spells.trim_query, c.spells.trim_label, rfl⟩, ?_⟩
  · cases hmode : c.log.mode <;> simp only [trial, hmode] <;> decide
  · cases hmode : c.log.mode <;> simp only [trial, hmode] <;> decide

/-! ## Tables -/

/-- What an import adds to the tables in a directory, and that it changes nothing else. -/
structure Imported (before : FileSystem) (dest : String) (cs : List Conversion)
    (after : FileSystem) : Prop where
  directories : FileSystem.SameDirectories before after
  tables : ∀ mode sf loc, '/' ∉ sf.label.toList →
    before.target (Path.join dest (ResultLayout.timingFileName mode.engine sf)) = .ok loc →
      after.contentAt loc =
        before.contentAt loc ++ Timings.write (Conversion.rowsFor mode sf cs)
  present : ∀ c ∈ cs, ∃ loc content, before.target (c.log.tablePath dest) = .ok loc ∧
    after.node? loc = some (.file content)
  others : ∀ loc, (∀ c ∈ cs, before.target (c.log.tablePath dest) ≠ .ok loc) →
    after.node? loc = before.node? loc
  readable : ∀ loc, after.isReadable loc = before.isReadable loc

namespace Imported

variable {before fs : FileSystem} {source dest : String} {cs : List Conversion} {c : Conversion}

theorem refl (before : FileSystem) (dest : String) : Imported before dest [] before := by
  refine ⟨.refl before, ?_, ?_, fun _ _ ↦ rfl, fun _ ↦ rfl⟩
  · intro mode sf loc _ _
    simp [Conversion.rowsFor, Timings.write, Csv.write]
  · intro c hc
    cases hc

/-- The rows of one more log are added to its table. -/
theorem append (h : Imported before dest cs fs) {fs' : FileSystem}
    (happend : Timings.append fs (c.log.tablePath dest) c.trials = .ok fs') :
    Imported before dest (cs ++ [c]) fs' := by
  obtain ⟨loc, htarget, rfl⟩ := Timings.append_eq_ok_iff.mp happend
  have hnode := FileSystem.node?_of_target htarget
  rw [h.directories.target_eq_ok_iff] at htarget
  refine ⟨h.directories.trans (.put hnode _), ?_, ?_, ?_, ?_⟩
  · intro mode sf loc' hslash htarget'
    -- The one table with the log's mode and scale factor grows; every other stands elsewhere.
    by_cases hsame : c.log.mode = mode ∧ c.log.scaleFactor = sf
    · have hloc : loc' = loc := by
        obtain ⟨rfl, rfl⟩ := hsame
        rw [tablePath, htarget'] at htarget
        exact Except.ok.inj htarget
      rw [hloc] at htarget' ⊢
      rw [FileSystem.contentAt_put_self hnode, h.tables mode sf loc hslash htarget',
        Conversion.rowsFor_append_of_eq hsame, Timings.write_append, List.append_assoc]
    · have hloc : loc ≠ loc' := by
        rintro rfl
        apply hsame
        apply ResultLayout.timingFileName_injective
        exact FileSystem.name_eq_of_target_join
          (ResultLayout.isName_timingFileName _ c.spells.slash_notMem_label)
          (ResultLayout.isName_timingFileName _ hslash) htarget htarget'
      rw [FileSystem.contentAt_put_of_ne hloc, h.tables mode sf loc' hslash htarget',
        Conversion.rowsFor_append_of_ne hsame]
  · intro d hd
    rcases List.mem_append.mp hd with hd | hd
    · obtain ⟨loc', content, htarget', hfile⟩ := h.present d hd
      by_cases hloc : loc = loc'
      · rw [← hloc] at htarget'
        exact ⟨loc, _, htarget', FileSystem.node?_put_file hnode _⟩
      · exact ⟨loc', content, htarget', by rwa [FileSystem.node?_put_of_ne _ _ hloc]⟩
    · rw [List.mem_singleton.mp hd]
      exact ⟨loc, _, htarget, FileSystem.node?_put_file hnode _⟩
  · intro loc' hothers
    have hloc : loc ≠ loc' := by
      rintro rfl
      exact hothers c (List.mem_append_right cs List.mem_cons_self) htarget
    rw [FileSystem.node?_put_of_ne _ _ hloc]
    exact h.others loc' fun d hd ↦ hothers d (List.mem_append_left [c] hd)
  · intro loc'
    rw [FileSystem.isReadable_put]
    exact h.readable loc'

/-- No table takes the place of a log, so what is read of the log stays the same. -/
theorem read_log (h : Imported before dest cs fs) {name : String} {log : UmbraLog}
    (hspells : Spells name log) (hfile : before.isFile (Path.join source name) = true) :
    fs.read (Path.join source name) = before.read (Path.join source name) := by
  obtain ⟨loc, content, htarget, hnode⟩ := FileSystem.isFile_iff.mp hfile
  have hkept : fs.node? loc = some (.file content) := by
    rw [h.others loc, hnode]
    intro c _ htable
    apply hspells.ne_timingFileName c.log.mode.engine c.log.scaleFactor
    exact FileSystem.name_eq_of_target_join hspells.isName
      (ResultLayout.isName_timingFileName _ c.spells.slash_notMem_label) htarget htable
  rw [FileSystem.read_of_target htarget hnode,
    FileSystem.read_of_target (h.directories.target htarget) hkept, h.readable]

/-- A table that was empty is read back as the trials of its logs. -/
theorem read_table (h : Imported before dest cs fs) {files : List String}
    (hconverted : Converted before source files cs) (hc : c ∈ cs)
    (hempty : before.Holds (c.log.tablePath dest) []) {limit : Nat}
    (hlimit : (Conversion.rowsFor c.log.mode c.log.scaleFactor cs).length ≤ limit) :
    Timings.read fs limit (c.log.tablePath dest) =
      .ok (Conversion.rowsFor c.log.mode c.log.scaleFactor cs) := by
  obtain ⟨loc, htarget, hnothing, hreadable⟩ := hempty
  obtain ⟨loc', content, htarget', hnode⟩ := h.present c hc
  rw [htarget] at htarget'
  cases htarget'
  have hcontent := h.tables c.log.mode c.log.scaleFactor loc c.spells.slash_notMem_label htarget
  rw [hnothing, List.nil_append, FileSystem.contentAt, hnode] at hcontent
  dsimp only at hcontent
  have hread := FileSystem.read_of_target (h.directories.target htarget) hnode
  rw [hcontent, h.readable, if_pos hreadable] at hread
  have hrows : ∀ t ∈ Conversion.rowsFor c.log.mode c.log.scaleFactor cs,
      Timings.Writable t ∧ t.group.engine.toList.head? ≠ some '\uFEFF' := by
    intro t ht
    obtain ⟨d, hd, ht⟩ := Conversion.exists_of_mem_rowsFor ht
    obtain ⟨line, hline⟩ := hconverted.reports hd ht
    exact writable_of_reports hline
  rw [Timings.read_eq_ok_iff hread]
  apply Timings.parse_write (fun t ht ↦ (hrows t ht).1) ?_ hlimit
  intro t ht
  exact (hrows t (List.mem_of_mem_head? ht)).2

end Imported

end UmbraLog

/-! ## Summaries -/

open UmbraLog (Conversion tablePath_eq_iff)

/-- A summary counts the files and logs, and the rows added to each table. -/
structure ImportSummary.Accounts (s : ImportSummary) (dest : String) (files : Nat)
    (cs : List Conversion) : Prop where
  logs : s.logs = cs.length
  files : s.logs + s.skipped = files
  written : ∀ path rows, s.written[path]? = some rows ↔
    ∃ c ∈ cs, path = c.log.tablePath dest ∧
      rows = (Conversion.rowsFor c.log.mode c.log.scaleFactor cs).length

namespace ImportSummary.Accounts

variable {s : ImportSummary} {dest : String} {files : Nat} {cs : List Conversion} {c : Conversion}

theorem empty (dest : String) : Accounts .empty dest 0 [] := by
  refine ⟨rfl, rfl, ?_⟩
  simp [ImportSummary.empty]

theorem skip (h : s.Accounts dest files cs) : s.skip.Accounts dest (files + 1) cs :=
  ⟨h.logs, congrArg (· + 1) h.files, h.written⟩

theorem getD_written (h : s.Accounts dest files cs) (c : Conversion) :
    s.written[c.log.tablePath dest]?.getD 0 =
      (Conversion.rowsFor c.log.mode c.log.scaleFactor cs).length := by
  cases hrows : s.written[c.log.tablePath dest]? with
  | some rows =>
      obtain ⟨d, -, hpath, rfl⟩ := (h.written _ _).mp hrows
      obtain ⟨hmode, hscale⟩ := tablePath_eq_iff.mp hpath
      rw [hmode, hscale, Option.getD_some]
  | none =>
      rw [Conversion.rowsFor_eq_nil]
      · rfl
      · rintro d hd ⟨hmode, hscale⟩
        have hsome := (h.written (c.log.tablePath dest) _).mpr
          ⟨d, hd, tablePath_eq_iff.mpr ⟨hmode.symm, hscale.symm⟩, rfl⟩
        rw [hrows] at hsome
        cases hsome

theorem add (h : s.Accounts dest files cs) (c : Conversion) :
    (s.add (c.log.tablePath dest) c.trials.length).Accounts dest (files + 1) (cs ++ [c]) := by
  refine ⟨?_, ?_, ?_⟩
  · rw [List.length_append, ← h.logs]
    rfl
  · have hfiles := h.files
    dsimp only [ImportSummary.add]
    omega
  · intro path rows
    rw [ImportSummary.add, Std.ExtTreeMap.getElem?_alter]
    by_cases hpath : c.log.tablePath dest = path
    · have hrows : Conversion.rowsFor c.log.mode c.log.scaleFactor (cs ++ [c]) =
          Conversion.rowsFor c.log.mode c.log.scaleFactor cs ++ c.trials :=
        Conversion.rowsFor_append_of_eq ⟨rfl, rfl⟩
      subst hpath
      rw [if_pos Std.ReflCmp.compare_self, h.getD_written, ← List.length_append, ← hrows]
      constructor
      · intro hsome
        exact ⟨c, List.mem_append_right cs List.mem_cons_self, rfl, (Option.some.inj hsome).symm⟩
      · rintro ⟨d, -, hd, rfl⟩
        obtain ⟨hmode, hscale⟩ := tablePath_eq_iff.mp hd
        rw [hmode, hscale]
    · rw [if_neg (by simpa using hpath), h.written]
      have hrows : ∀ d : Conversion, path = d.log.tablePath dest →
          Conversion.rowsFor d.log.mode d.log.scaleFactor (cs ++ [c]) =
            Conversion.rowsFor d.log.mode d.log.scaleFactor cs := by
        rintro d rfl
        apply Conversion.rowsFor_append_of_ne
        rwa [← tablePath_eq_iff]
      constructor
      · rintro ⟨d, hd, hdpath, rfl⟩
        exact ⟨d, List.mem_append_left [c] hd, hdpath, by rw [hrows d hdpath]⟩
      · rintro ⟨d, hd, hdpath, rfl⟩
        rcases List.mem_append.mp hd with hd | hd
        · exact ⟨d, hd, hdpath, by rw [hrows d hdpath]⟩
        · rw [List.mem_singleton.mp hd] at hdpath
          exact absurd hdpath.symm hpath

end ImportSummary.Accounts

end QueryBench
