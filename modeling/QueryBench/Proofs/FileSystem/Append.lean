import QueryBench.FileSystem.Basic
import QueryBench.Proofs.Outcomes

/-!
# Appending to files

File systems with the same directories agree on where paths lead.  A file takes the
place of no directory, so a path that leads to a file, or to a place where one can be
created, leads there still after an append.  Where that place may be read, what is read
there is the old content and then the new one.
-/

namespace QueryBench
namespace FileSystem

variable {fs : FileSystem} {path : String} {loc : Location}

theorem not_isPrefixOf_working (h : fs.node? loc ≠ some .directory) :
    loc.isPrefixOf fs.working = false := by
  rw [← Bool.not_eq_true]
  intro habove
  apply h
  rw [node?, if_pos habove]

theorem node?_put_file (h : fs.node? loc ≠ some .directory) (content : Bytes) :
    (fs.put loc (.file content)).node? loc = some (.file content) :=
  node?_put_self fs _ (not_isPrefixOf_working h)

/-! ## Directories on the way -/

/-- Two file systems start relative paths at one place and have the same directories. -/
structure SameDirectories (fs fs' : FileSystem) : Prop where
  working : fs'.working = fs.working
  directory : ∀ loc, fs.node? loc = some .directory ↔ fs'.node? loc = some .directory

namespace SameDirectories

variable {fs fs' : FileSystem}

theorem refl (fs : FileSystem) : SameDirectories fs fs := ⟨rfl, fun _ ↦ Iff.rfl⟩

theorem symm (h : SameDirectories fs fs') : SameDirectories fs' fs :=
  ⟨h.working.symm, fun loc ↦ (h.directory loc).symm⟩

theorem trans {fs'' : FileSystem} (h : SameDirectories fs fs') (h' : SameDirectories fs' fs'') :
    SameDirectories fs fs'' :=
  ⟨h'.working.trans h.working, fun loc ↦ (h.directory loc).trans (h'.directory loc)⟩

theorem put (hloc : fs.node? loc ≠ some .directory) (content : Bytes) :
    SameDirectories fs (fs.put loc (.file content)) := by
  refine ⟨rfl, ?_⟩
  intro other
  by_cases heq : loc = other
  · subst heq
    rw [node?_put_file hloc]
    simp [hloc]
  · rw [node?_put_of_ne fs _ heq]

theorem enter (h : SameDirectories fs fs') {dir next : Location} {step : String}
    (henter : fs.enter dir step = .ok next) : fs'.enter dir step = .ok next := by
  unfold FileSystem.enter at henter ⊢
  split
  · rename_i hdot
    rwa [if_pos hdot] at henter
  · rename_i hdot
    rw [if_neg hdot] at henter
    split
    · rename_i hdots
      rwa [if_pos hdots] at henter
    · rename_i hdots
      rw [if_neg hdots] at henter
      cases hnode : fs.node? (dir ++ [step]) with
      | none => simp [hnode] at henter
      | some node =>
          cases node with
          | file content => simp [hnode] at henter
          | directory =>
              rw [hnode] at henter
              rw [(h.directory _).mp hnode]
              exact henter

theorem enterAll (h : SameDirectories fs fs') {dir last : Location} {steps : List String}
    (henter : fs.enterAll dir steps = .ok last) : fs'.enterAll dir steps = .ok last := by
  induction steps generalizing dir with
  | nil => exact henter
  | cons step steps ih =>
      unfold FileSystem.enterAll at henter ⊢
      cases hstep : fs.enter dir step with
      | error fault =>
          rw [hstep] at henter
          cases henter
      | ok next =>
          rw [hstep] at henter
          rw [h.enter hstep]
          exact ih henter

theorem approach (h : SameDirectories fs fs') {place : Location × String}
    (happroach : fs.approach path = .ok place) : fs'.approach path = .ok place := by
  unfold FileSystem.approach at happroach ⊢
  cases hlast : lastStep? path with
  | none =>
      rw [hlast] at happroach
      cases happroach
  | some steps =>
      obtain ⟨last, before⟩ := steps
      rw [hlast] at happroach
      dsimp only at happroach ⊢
      have horigin : fs'.origin path = fs.origin path := by
        rw [origin, origin, h.working]
      rw [horigin]
      cases henter : fs.enterAll (fs.origin path) before with
      | error fault =>
          rw [henter] at happroach
          cases happroach
      | ok directory =>
          rw [henter] at happroach
          rw [h.enterAll henter]
          exact happroach

end SameDirectories

/-! ## Targets -/

theorem target_eq_ok_iff :
    fs.target path = .ok loc ↔
      ∃ directory last, fs.approach path = .ok (directory, last) ∧ isDots last = false ∧
        Path.asksForDirectory path = false ∧ loc = directory ++ [last] ∧
          fs.node? loc ≠ some .directory := by
  unfold target
  cases happroach : fs.approach path with
  | error fault => simp
  | ok place =>
      obtain ⟨directory, last⟩ := place
      dsimp only
      by_cases hname : (isDots last || Path.asksForDirectory path) = true
      · rw [if_pos hname]
        constructor
        · intro h
          cases h
        · rintro ⟨_, _, hplace, hdots, hasks, -⟩
          cases hplace
          simp [hdots, hasks] at hname
      · rw [if_neg hname]
        rw [Bool.not_eq_true, Bool.or_eq_false_iff] at hname
        constructor
        · intro h
          split at h
          · cases h
          · rename_i hnode
            cases h
            exact ⟨directory, last, rfl, hname.1, hname.2, rfl, hnode⟩
        · rintro ⟨_, _, hplace, -, -, rfl, hnode⟩
          cases hplace
          split
          · rename_i hdirectory
            exact absurd hdirectory hnode
          · rfl

theorem node?_of_target (h : fs.target path = .ok loc) : fs.node? loc ≠ some .directory := by
  obtain ⟨_, _, _, _, _, _, hnode⟩ := target_eq_ok_iff.mp h
  exact hnode

theorem SameDirectories.target {fs fs' : FileSystem} (h : SameDirectories fs fs')
    (htarget : fs.target path = .ok loc) : fs'.target path = .ok loc := by
  obtain ⟨directory, last, happroach, hdots, hasks, hloc, hnode⟩ := target_eq_ok_iff.mp htarget
  refine target_eq_ok_iff.mpr
    ⟨directory, last, h.approach happroach, hdots, hasks, hloc, ?_⟩
  rwa [ne_eq, ← h.directory]

theorem SameDirectories.target_eq_ok_iff {fs fs' : FileSystem} (h : SameDirectories fs fs') :
    fs'.target path = .ok loc ↔ fs.target path = .ok loc :=
  ⟨h.symm.target, h.target⟩

/-! ## Files -/

/-- A path that leads to a file can be written. -/
theorem resolve_eq_file_iff {content : Bytes} :
    fs.resolve path = .ok (loc, .file content) ↔
      fs.target path = .ok loc ∧ fs.node? loc = some (.file content) := by
  constructor
  · intro h
    cases happroach : fs.approach path with
    | error fault => simp [resolve, happroach] at h
    | ok place =>
        obtain ⟨directory, last⟩ := place
        cases hdots : isDots last with
        | true => cases henter : fs.enter directory last <;>
            simp [resolve, happroach, hdots, henter, Except.map] at h
        | false =>
            cases hnode : fs.node? (directory ++ [last]) with
            | none => simp [resolve, happroach, hdots, hnode] at h
            | some node =>
                cases node with
                | directory => simp [resolve, happroach, hdots, hnode] at h
                | file content' =>
                    cases hasks : Path.asksForDirectory path with
                    | true => simp [resolve, happroach, hdots, hnode, hasks] at h
                    | false =>
                        obtain ⟨rfl, rfl⟩ : directory ++ [last] = loc ∧ content' = content := by
                          simpa [resolve, happroach, hdots, hnode, hasks] using h
                        refine ⟨target_eq_ok_iff.mpr ?_, hnode⟩
                        refine ⟨directory, last, happroach, hdots, hasks, rfl, ?_⟩
                        simp [hnode]
  · rintro ⟨htarget, hnode⟩
    obtain ⟨directory, last, happroach, hdots, hasks, rfl, -⟩ := target_eq_ok_iff.mp htarget
    simp [resolve, happroach, hdots, hnode, hasks]

theorem isFile_iff :
    fs.isFile path = true ↔
      ∃ loc content, fs.target path = .ok loc ∧ fs.node? loc = some (.file content) := by
  simp only [← resolve_eq_file_iff]
  unfold isFile
  cases fs.resolve path with
  | error fault => simp
  | ok found =>
      obtain ⟨_, node⟩ := found
      cases node <;> simp

/-- A file gives its content, unless it may not be read. -/
theorem read_of_target (h : fs.target path = .ok loc) {content : Bytes}
    (hnode : fs.node? loc = some (.file content)) :
    fs.read path = if fs.isReadable loc then .ok content else .error .denied := by
  rw [read, resolve_eq_file_iff.mpr ⟨h, hnode⟩]

/-- A file that can be read can be written. -/
theorem target_of_read {content : Bytes} (h : fs.read path = .ok content) :
    ∃ loc, fs.target path = .ok loc ∧ fs.node? loc = some (.file content) ∧
      fs.isReadable loc = true := by
  unfold read at h
  split at h
  · cases h
  · cases h
  · rename_i loc content' hresolve
    split at h
    · rename_i hreadable
      cases h
      obtain ⟨htarget, hnode⟩ := resolve_eq_file_iff.mp hresolve
      exact ⟨loc, htarget, hnode, hreadable⟩
    · cases h

/-! ## Contents -/

theorem contentAt_put_self (h : fs.node? loc ≠ some .directory) (content : Bytes) :
    (fs.put loc (.file content)).contentAt loc = content := by
  rw [contentAt, node?_put_file h]

theorem contentAt_put_of_ne {other : Location} (h : loc ≠ other) (content : Bytes) :
    (fs.put loc (.file content)).contentAt other = fs.contentAt other := by
  rw [contentAt, node?_put_of_ne fs _ h, contentAt]

/-! ## Appends -/

theorem append_eq_ok_iff {fs' : FileSystem} {added : Bytes} :
    fs.append path added = .ok fs' ↔
      ∃ loc, fs.target path = .ok loc ∧ fs' = fs.put loc (.file (fs.contentAt loc ++ added)) := by
  rw [append, map_eq_ok_iff]
  simp only [eq_comm (b := fs')]

/-- A path leads to a place that may be read and has some content, or has no file and then
none. -/
def Holds (fs : FileSystem) (path : String) (content : Bytes) : Prop :=
  ∃ loc, fs.target path = .ok loc ∧ fs.contentAt loc = content ∧ fs.isReadable loc = true

theorem holds_of_read {content : Bytes} (h : fs.read path = .ok content) :
    fs.Holds path content := by
  obtain ⟨loc, htarget, hnode, hreadable⟩ := target_of_read h
  refine ⟨loc, htarget, ?_, hreadable⟩
  rw [contentAt, hnode]

theorem holds_of_absent (htarget : fs.target path = .ok loc) (h : fs.node? loc = none) :
    fs.Holds path [] := by
  refine ⟨loc, htarget, ?_, isReadable_of_node?_eq_none h⟩
  rw [contentAt, h]

theorem exists_append {content : Bytes} (h : fs.Holds path content) (added : Bytes) :
    ∃ fs', fs.append path added = .ok fs' ∧ fs'.read path = .ok (content ++ added) := by
  obtain ⟨loc, htarget, rfl, hreadable⟩ := h
  have hnode := node?_of_target htarget
  refine ⟨fs.put loc (.file (fs.contentAt loc ++ added)), ?_, ?_⟩
  · exact append_eq_ok_iff.mpr ⟨loc, htarget, rfl⟩
  · rw [read_of_target ((SameDirectories.put hnode _).target htarget) (node?_put_file hnode _),
      isReadable_put, if_pos hreadable]

end FileSystem
end QueryBench
