import QueryBench.Proofs.FileSystem.Append

/-!
# Names in directories

A name is one step.  Joined to the path of a directory it leads to the place of that
name there, so different names lead to different places, and the names that a directory
lists are ascending.
-/

namespace QueryBench

/-! ## Paths that end in a name -/

/-- A text that names one entry of the directory it is looked up in. -/
structure Path.IsName (name : String) : Prop where
  nonempty : name.toList ≠ []
  slashless : '/' ∉ name.toList
  notDots : FileSystem.isDots name = false

namespace Path

variable {name : String}

theorem IsName.of_head? {first : Char} (hhead : name.toList.head? = some first)
    (hfirst : first ≠ '.') (hslash : '/' ∉ name.toList) : IsName name := by
  refine ⟨?_, hslash, ?_⟩
  · intro hnil
    rw [hnil] at hhead
    cases hhead
  · rw [FileSystem.isDots, Bool.or_eq_false_iff, beq_eq_false_iff_ne, beq_eq_false_iff_ne]
    constructor
    · rintro rfl
      exact hfirst (Option.some.inj hhead).symm
    · rintro rfl
      exact hfirst (Option.some.inj hhead).symm

theorem IsName.isAbsolute_eq_false (h : IsName name) : isAbsolute name = false := by
  rw [isAbsolute, decide_eq_false_iff_not]
  intro hhead
  exact h.slashless (List.mem_of_mem_head? hhead)

theorem IsName.asksForDirectory_eq_false (h : IsName name) (front : String) :
    asksForDirectory (front ++ name) = false := by
  rw [asksForDirectory, decide_eq_false_iff_not, String.toList_append]
  intro hlast
  apply h.slashless
  rw [List.getLast?_append, List.getLast?_eq_some_getLast h.nonempty, Option.some_or] at hlast
  rw [← Option.some.inj hlast]
  exact List.getLast_mem h.nonempty

/-- Joining a name appends it, behind a slash where one is needed. -/
theorem IsName.exists_join (h : IsName name) (base : String) :
    (base.toList = [] ∧ join base name = base ++ name) ∨
      (∃ front, base.toList = front ++ ['/'] ∧ join base name = base ++ name) ∨
        (base.toList ≠ [] ∧ join base name = base ++ "/" ++ name) := by
  have hrelative : isAbsolute name ≠ true := by simp [h.isAbsolute_eq_false]
  rw [join, if_neg hrelative]
  by_cases hempty : base.toList = []
  · left
    simp [String.toList_eq_nil_iff.mp hempty]
  · right
    have hnonempty : base.isEmpty = false := by
      rw [← Bool.not_eq_true, String.isEmpty_iff]
      simpa using hempty
    rw [hnonempty, Bool.false_or]
    by_cases hlast : base.toList.getLast? = some '/'
    · left
      obtain ⟨front, hfront⟩ := List.getLast?_eq_some_iff.mp hlast
      exact ⟨front, hfront, if_pos (decide_eq_true hlast)⟩
    · right
      exact ⟨hempty, if_neg (by simpa using hlast)⟩

theorem IsName.splitOn_append (h : IsName name) (front : List Char) :
    (front ++ '/' :: name.toList).splitOn '/' = front.splitOn '/' ++ [name.toList] := by
  rw [List.splitOn_append_cons_self, List.splitOn_eq_singleton h.slashless]

theorem steps_join (h : IsName name) (base : String) :
    steps (join base name) = steps base ++ [name] := by
  have hname : (([name.toList].filter (· ≠ [])).map String.ofList) = [name] := by
    simp [h.nonempty]
  rcases h.exists_join base with ⟨hempty, hjoin⟩ | ⟨front, hfront, hjoin⟩ | ⟨-, hjoin⟩
  · have hsplit : pieces (base ++ name) = [name.toList] := by
      rw [pieces, String.toList_append, hempty, List.nil_append,
        List.splitOn_eq_singleton h.slashless]
    have hbase : steps base = [] := by
      rw [steps, pieces, hempty, List.splitOn_nil]
      rfl
    rw [hjoin, steps, hsplit, hname, hbase, List.nil_append]
  · have hsplit : pieces (base ++ name) = front.splitOn '/' ++ [name.toList] := by
      rw [pieces, String.toList_append, hfront, List.append_assoc, List.singleton_append,
        h.splitOn_append]
    have hbase : pieces base = front.splitOn '/' ++ [[]] := by
      rw [pieces, hfront, List.splitOn_append_cons_self, List.splitOn_nil]
    rw [hjoin, steps, hsplit, steps, hbase, List.filter_append, List.map_append, hname,
      List.filter_append, List.map_append]
    simp
  · have hsplit : pieces (base ++ "/" ++ name) = pieces base ++ [name.toList] := by
      have hslash : "/".toList = ['/'] := rfl
      rw [pieces, String.toList_append, String.toList_append, hslash, List.append_assoc,
        List.singleton_append, h.splitOn_append, pieces]
    rw [hjoin, steps, hsplit, List.filter_append, List.map_append, hname, steps]

theorem isAbsolute_join (h : IsName name) (base : String) :
    isAbsolute (join base name) = isAbsolute base := by
  rcases h.exists_join base with ⟨hempty, hjoin⟩ | ⟨front, hfront, hjoin⟩ | ⟨hne, hjoin⟩
  · have hbase : isAbsolute base = false := by simp [isAbsolute, hempty]
    have hname := h.isAbsolute_eq_false
    rw [isAbsolute] at hname
    rw [hjoin, hbase, isAbsolute, String.toList_append, hempty, List.nil_append, hname]
  · rw [hjoin, isAbsolute, isAbsolute, String.toList_append, hfront]
    cases front <;> rfl
  · rw [hjoin, isAbsolute, isAbsolute, String.toList_append, String.toList_append]
    cases hchars : base.toList with
    | nil => exact absurd hchars hne
    | cons c cs => rfl

theorem asksForDirectory_join (h : IsName name) (base : String) :
    asksForDirectory (join base name) = false := by
  rcases h.exists_join base with ⟨-, hjoin⟩ | ⟨-, -, hjoin⟩ | ⟨-, hjoin⟩
  · rw [hjoin, h.asksForDirectory_eq_false]
  · rw [hjoin, h.asksForDirectory_eq_false]
  · rw [hjoin, h.asksForDirectory_eq_false]

theorem join_injective {name' base : String} (h : isAbsolute name = false)
    (h' : isAbsolute name' = false) (heq : join base name = join base name') : name = name' := by
  have hrelative : isAbsolute name ≠ true := by simp [h]
  have hrelative' : isAbsolute name' ≠ true := by simp [h']
  rw [join, join, if_neg hrelative, if_neg hrelative'] at heq
  split at heq
  · exact (String.append_right_inj base).mp heq
  · exact (String.append_right_inj (base ++ "/")).mp heq

end Path

namespace FileSystem

variable {fs : FileSystem} {base path name : String} {loc : Location}

/-! ## Places of names -/

theorem approach_join (h : Path.IsName name) :
    fs.approach (Path.join base name) =
      (fs.enterAll (fs.origin base) (Path.steps base)).map fun dir ↦ (dir, name) := by
  have hlast : lastStep? (Path.join base name) = some (name, Path.steps base) := by
    simp [lastStep?, Path.steps_join h]
  have horigin : fs.origin (Path.join base name) = fs.origin base := by
    rw [origin, Path.isAbsolute_join h, origin]
  rw [approach, hlast]
  dsimp only
  rw [horigin]

theorem target_join_eq_ok_iff (h : Path.IsName name) :
    fs.target (Path.join base name) = .ok loc ↔
      ∃ dir, fs.enterAll (fs.origin base) (Path.steps base) = .ok dir ∧ loc = dir ++ [name] ∧
        fs.node? loc ≠ some .directory := by
  rw [target_eq_ok_iff, approach_join h]
  cases henter : fs.enterAll (fs.origin base) (Path.steps base) with
  | error fault => simp [Except.map]
  | ok dir =>
      constructor
      · rintro ⟨_, _, happroach, -, -, hloc, hnode⟩
        cases happroach
        exact ⟨dir, rfl, hloc, hnode⟩
      · rintro ⟨_, hdir, hloc, hnode⟩
        cases hdir
        exact ⟨dir, name, rfl, h.notDots, Path.asksForDirectory_join h base, hloc, hnode⟩

/-- Two names of a directory lead to one place only if they are the same. -/
theorem name_eq_of_target_join {base' name' : String} (h : Path.IsName name)
    (h' : Path.IsName name')
    (htarget : fs.target (Path.join base name) = .ok loc)
    (htarget' : fs.target (Path.join base' name') = .ok loc) : name = name' := by
  obtain ⟨dir, -, hloc, -⟩ := (target_join_eq_ok_iff h).mp htarget
  obtain ⟨dir', -, hloc', -⟩ := (target_join_eq_ok_iff h').mp htarget'
  rw [hloc'] at hloc
  have hlast : [name'] = [name] := (List.append_inj' hloc rfl).2
  exact (List.singleton_inj.mp hlast).symm

/-! ## Listings -/

theorem nameIn?_eq_some_iff {directory : Location} :
    nameIn? directory loc = some name ↔ loc = directory ++ [name] := by
  unfold nameIn?
  cases hreverse : loc.reverse with
  | nil =>
      rw [List.reverse_eq_nil_iff.mp hreverse]
      simp
  | cons last before =>
      have hloc : loc = before.reverse ++ [last] := by
        rw [← List.reverse_reverse loc, hreverse, List.reverse_cons]
      rw [hloc]
      dsimp only
      split
      · rename_i hdirectory
        rw [hdirectory]
        simp
      · rename_i hdirectory
        simp [hdirectory]

theorem compare_append_left (dir : Location) (a b : String) :
    compare (dir ++ [a]) (dir ++ [b]) = compare a b := by
  induction dir with
  | nil => simp
  | cons step dir ih => simpa using ih

/-- A directory lists each of its names once, in order. -/
theorem pairwise_list {names : List String} (h : fs.list path = .ok names) :
    names.Pairwise (· < ·) := by
  unfold list at h
  split at h
  · cases h
  · cases h
  · rename_i directory hresolve
    split at h
    case isFalse => cases h
    injection h with h
    subst h
    have hkeys : fs.entries.toList.Pairwise fun p q ↦ compare p.1 q.1 = .lt :=
      Std.ExtTreeMap.ordered_keys_toList
    rw [List.pairwise_filterMap]
    refine hkeys.imp ?_
    intro p q hlt a ha b hb
    rw [nameIn?_eq_some_iff] at ha hb
    rw [ha, hb, compare_append_left] at hlt
    exact compareOfLessAndEq_eq_lt.mp hlt

end FileSystem
end QueryBench
