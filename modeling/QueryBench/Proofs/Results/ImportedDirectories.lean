import QueryBench.Proofs.Results.ImportedLogs

/-!
# Imports of whole directories

Every file that an import reaches is passed over, adds the rows of its log, or ends the
import.  The files are taken in the order of the bytes of their names.
-/

namespace QueryBench
namespace UmbraLog

/-- How an import ends when these files are left: with a summary if there are none. -/
inductive Ends (fs : FileSystem) (source dest : String) (files : Nat) (cs : List Conversion) :
    List String → Except FileFault ImportSummary → Prop
  | finished {summary : ImportSummary} (haccounts : summary.Accounts dest files cs) :
      Ends fs source dest files cs [] (.ok summary)
  | stopped {name : String} {rest : List String} {fault : FileFault}
      (hstops : Stops fs source dest name fault) :
      Ends fs source dest files cs (name :: rest) (.error fault)

variable {before fs : FileSystem} {source dest : String} {cs : List Conversion} {log : UmbraLog}

theorem importTo_of_read_eq_error {path : String} {fault : FileSystem.Fault}
    (h : fs.read path = .error fault) (dest : String) :
    log.importTo fs dest path = .error ⟨path, .access fault⟩ := by
  rw [importTo, read, h]

/-- A log that can be read is converted and its rows added, or it is rejected, or its table has
no place. -/
theorem importTo_cases {path : String} {bytes : Bytes} (h : fs.read path = .ok bytes)
    (dest : String) :
    (∃ trials fs', log.Converts bytes trials ∧
      Timings.append fs (log.tablePath dest) trials = .ok fs' ∧
        log.importTo fs dest path = .ok (fs', trials.length)) ∨
    (∃ defect, Rejects bytes defect ∧ log.importTo fs dest path = .error ⟨path, defect⟩) ∨
    ∃ trials fault, log.Converts bytes trials ∧ fs.target (log.tablePath dest) = .error fault ∧
      log.importTo fs dest path = .error ⟨log.tablePath dest, .access fault⟩ := by
  cases hread : log.read fs path with
  | error fault =>
      obtain ⟨path', defect⟩ := fault
      obtain ⟨rfl, hrejects⟩ := read_eq_error h hread
      refine .inr (.inl ⟨defect, hrejects, ?_⟩)
      unfold importTo
      rw [hread]
  | ok trials =>
      have hconverts := (read_eq_ok_iff h).mp hread
      cases htarget : fs.target (log.tablePath dest) with
      | error fault =>
          refine .inr (.inr ⟨trials, fault, hconverts, rfl, ?_⟩)
          unfold importTo
          rw [hread]
          dsimp only
          rw [Timings.append, FileSystem.append, htarget]
          rfl
      | ok loc =>
          let fs' := fs.put loc (.file (fs.contentAt loc ++ Timings.write trials))
          have happend : Timings.append fs (log.tablePath dest) trials = .ok fs' :=
            Timings.append_eq_ok_iff.mpr ⟨loc, htarget, rfl⟩
          refine .inl ⟨trials, fs', hconverts, happend, ?_⟩
          unfold importTo
          rw [hread]
          dsimp only
          rw [happend]
          rfl

theorem exists_stopped {name : String} {names : List String} {files : Nat} {fault : FileFault}
    (himported : Imported before dest cs fs) (hstops : Stops before source dest name fault) :
    ∃ done rest more, name :: names = done ++ rest ∧ Converted before source done more ∧
      Imported before dest (cs ++ more) fs ∧
        Ends before source dest files (cs ++ more) rest (.error fault) := by
  refine ⟨[], name :: names, [], rfl, .nil, ?_, .stopped hstops⟩
  rwa [List.append_nil]

/-- An import that has come to some place goes on through the files that are left, up to
the first log that stops it. -/
theorem ends_importNames {names : List String} {files : Nat} {summary : ImportSummary}
    (hfiles : ∀ n ∈ names, before.isFile (Path.join source n) = true)
    (himported : Imported before dest cs fs) (haccounts : summary.Accounts dest files cs) :
    ∃ done rest more, names = done ++ rest ∧ Converted before source done more ∧
      Imported before dest (cs ++ more) (importNames source dest names fs summary).1 ∧
        Ends before source dest (files + names.length) (cs ++ more) rest
          (importNames source dest names fs summary).2 := by
  -- Over the files that are left; what was converted, written and counted so far varies.
  induction names generalizing cs fs summary files with
  | nil =>
      rw [importNames_nil]
      refine ⟨[], [], [], rfl, .nil, ?_, ?_⟩
      · rwa [List.append_nil]
      · rw [List.append_nil]
        exact .finished haccounts
  | cons name names ih =>
      have hrest : ∀ n ∈ names, before.isFile (Path.join source n) = true :=
        fun n hn ↦ hfiles n (List.mem_cons_of_mem name hn)
      have hcount : files + (name :: names).length = files + 1 + names.length := by
        rw [List.length_cons]
        omega
      rw [importNames_cons, hcount]
      cases hname : ofName? name with
      | none =>
          obtain ⟨done, rest, more, rfl, hconverted, hafter, hends⟩ :=
            ih hrest himported haccounts.skip
          exact ⟨name :: done, rest, more, rfl, .skip hname hconverted, hafter, hends⟩
      | some log =>
          -- Only tables were written so far, so the log is still as it was.
          have hlog := himported.read_log (spells_of_ofName? hname)
            (hfiles name List.mem_cons_self)
          dsimp only
          cases hread : before.read (Path.join source name) with
          | error fault =>
              rw [importTo_of_read_eq_error (hlog.trans hread)]
              exact exists_stopped himported (.unreadable hname hread)
          | ok bytes =>
              rcases importTo_cases (hlog.trans hread) dest with
                ⟨trials, fs', hconverts, happend, himport⟩ | ⟨defect, hrejects, himport⟩ |
                  ⟨trials, fault, hconverts, htarget, himport⟩
              · let c : Conversion := ⟨name, log, trials, hname⟩
                have himported' : Imported before dest (cs ++ [c]) fs' :=
                  himported.append happend
                obtain ⟨done, rest, more, rfl, hconverted, hafter, hends⟩ :=
                  ih hrest himported' (haccounts.add c)
                rw [List.append_assoc] at hafter hends
                have hnext : Converted before source (name :: done) (c :: more) :=
                  .log (c := c) hread hconverts hconverted
                rw [himport]
                exact ⟨name :: done, rest, c :: more, rfl, hnext, hafter, hends⟩
              · rw [himport]
                exact exists_stopped himported (.log hname hread hrejects)
              · have hplace : ∀ loc, before.target (log.tablePath dest) ≠ .ok loc := by
                  intro loc hloc
                  rw [himported.directories.target hloc] at htarget
                  cases htarget
                rw [himport]
                exact exists_stopped himported (.table hname hread hconverts hplace)

/-- The logs of a directory are imported in the order of the bytes of their names.  Their
rows are added to the table of their mode and scale factor, up to the first log that stops
the import; a table that was empty is read back as these rows. -/
theorem import_adds_logs_in_name_order {fs : FileSystem} {source dest : String}
    {names : List String} (hlist : fs.list source = .ok names) :
    ∃ done rest cs, names.filter (fun n ↦ fs.isFile (Path.join source n)) = done ++ rest ∧
      (done ++ rest).Pairwise (fun a b ↦ Bytes.ofString a < Bytes.ofString b) ∧
      Converted fs source done cs ∧
      Imported fs dest cs (importDirectory fs source dest).1 ∧
      Ends fs source dest (done ++ rest).length cs rest (importDirectory fs source dest).2 ∧
      ∀ c ∈ cs, fs.Holds (c.log.tablePath dest) [] →
        ∀ limit, (Conversion.rowsFor c.log.mode c.log.scaleFactor cs).length ≤ limit →
          Timings.read (importDirectory fs source dest).1 limit (c.log.tablePath dest) =
            .ok (Conversion.rowsFor c.log.mode c.log.scaleFactor cs) := by
  have hfiles : ∀ n ∈ names.filter (fun n ↦ fs.isFile (Path.join source n)),
      fs.isFile (Path.join source n) = true := fun n hn ↦ (List.mem_filter.mp hn).2
  obtain ⟨done, rest, cs, hsplit, hconverted, himported, hends⟩ :=
    ends_importNames hfiles (.refl fs dest) (.empty dest)
  rw [List.nil_append] at himported hends
  rw [Nat.zero_add, hsplit] at hends
  have hresult : importDirectory fs source dest =
      importNames source dest (names.filter fun n ↦ fs.isFile (Path.join source n)) fs .empty := by
    rw [importDirectory, hlist]
  have hordered : (done ++ rest).Pairwise fun a b ↦ Bytes.ofString a < Bytes.ofString b := by
    rw [← hsplit]
    apply List.Pairwise.filter
    exact (FileSystem.pairwise_list hlist).imp Bytes.ofString_lt
  rw [hresult]
  refine ⟨done, rest, cs, hsplit, hordered, hconverted, himported, ?_, ?_⟩
  · rwa [hsplit]
  · intro c hc hempty limit hlimit
    exact himported.read_table hconverted hc hempty hlimit

/-- Two logs of one table, a file that is no log, and a last log without times. -/
def brokenLogs : FileSystem :=
  .ofEntries ["work"]
    [(["work", "out"], .directory), (["work", "logs", "notes.txt"], .file []),
      (["work", "logs", "q1_a_res_0_1.csv"],
        .file (Bytes.ofString "\nexecution: (0.5), compilation: (0.25)\n")),
      (["work", "logs", "q1_a_res_0.1.csv"],
        .file (Bytes.ofString "execution: (0.5), compilation: (0.5)\n")),
      (["work", "logs", "q2_a_res_0.1.csv"], .file (Bytes.ofString "no times\n"))]

/-- The names in the directory of `brokenLogs`. -/
def brokenNames : List String :=
  ["notes.txt", "q1_a_res_0.1.csv", "q1_a_res_0_1.csv", "q2_a_res_0.1.csv"]

theorem import_stops_at_broken_log :
    brokenLogs.list "logs" = .ok brokenNames ∧
      (∃ done rest cs,
        brokenNames.filter (fun n ↦ brokenLogs.isFile (Path.join "logs" n)) = done ++ rest ∧
        (done ++ rest).Pairwise (fun a b ↦ Bytes.ofString a < Bytes.ofString b) ∧
        Converted brokenLogs "logs" done cs ∧
        Imported brokenLogs "out" cs (importDirectory brokenLogs "logs" "out").1 ∧
        Ends brokenLogs "logs" "out" (done ++ rest).length cs rest
          (importDirectory brokenLogs "logs" "out").2 ∧
        ∀ c ∈ cs, brokenLogs.Holds (c.log.tablePath "out") [] →
          ∀ limit, (Conversion.rowsFor c.log.mode c.log.scaleFactor cs).length ≤ limit →
            Timings.read (importDirectory brokenLogs "logs" "out").1 limit
                (c.log.tablePath "out") =
              .ok (Conversion.rowsFor c.log.mode c.log.scaleFactor cs)) ∧
      (importDirectory brokenLogs "logs" "out").1.contentAt
          ["work", "out", "result_umbra_adaptive_0.1.csv"] =
        Bytes.ofString
          "umbra_adaptive,q1,0.1,1000,500000\numbra_adaptive,q1,0.1,750,250000\n" := by
  have hlist : brokenLogs.list "logs" = .ok brokenNames := by decide +kernel
  refine ⟨hlist, import_adds_logs_in_name_order hlist, ?_⟩
  decide +kernel

-- A log that may not be read ends an import as well.
example :
    let log : Location := ["work", "q1_a_res_1.csv"]
    let fs := FileSystem.ofEntries ["work"] [(log, .file [])]
    (importDirectory fs "." ".").2.map (·.logs) = .ok 1 ∧
      (importDirectory (fs.withhold log) "." ".").2.map (·.logs) =
        .error ⟨"./q1_a_res_1.csv", .access .denied⟩ := by decide +kernel

end UmbraLog
end QueryBench
