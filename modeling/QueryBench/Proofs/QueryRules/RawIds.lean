import QueryBench.Proofs.QueryRules.ListedRules

/-!
# Raw ids and display ids

Rules that were accepted rename injectively, touch no excluded id, and never rename
a display id again.  On the ids whose rows are kept, the display id therefore
determines the raw id, and `rawId` finds it.
-/

namespace QueryBench
namespace QueryRules

variable {r : QueryRules}

/-- The display id of a raw id that is not excluded. -/
def display (r : QueryRules) (id : String) : String := r.remap.getD id id

/-- Rows with this raw id are kept: it is neither excluded nor the display id of
another query. -/
def survives (r : QueryRules) (id : String) : Bool :=
  !r.collides id && !r.excluded.contains id

/-- What accepted rules guarantee. -/
structure Sound (r : QueryRules) : Prop where
  injective : ∀ {s s' t : String}, r.remap[s]? = some t → r.remap[s']? = some t → s = s'
  source_kept : ∀ {s t : String}, r.remap[s]? = some t → s ∉ r.excluded
  target_kept : ∀ {s t : String}, r.remap[s]? = some t → t ∉ r.excluded
  target_fixed : ∀ {s t : String}, r.remap[s]? = some t → s ≠ t → t ∉ r.remap

/-! ## Acceptance -/

theorem fault?_eq_none_iff :
    r.fault? = Option.none ↔
      ∀ s t : String, r.remap[s]? = some t → r.renamingFault? s t = Option.none := by
  simp only [fault?, List.findSome?_eq_none_iff, Prod.forall]
  constructor
  · intro h s t hst
    exact h s t (Std.ExtTreeMap.mem_toList_iff_getElem?_eq_some.mpr hst)
  · intro h s t hst
    exact h s t (Std.ExtTreeMap.mem_toList_iff_getElem?_eq_some.mp hst)

theorem renamingFault?_eq_none_iff (s t : String) :
    r.renamingFault? s t = Option.none ↔
      s ∉ r.excluded ∧ t ∉ r.excluded ∧ (s ≠ t → t ∉ r.remap) := by
  unfold renamingFault?
  split
  · simp_all
  · split
    · simp_all
    · split
      · simp_all
      · simp_all

theorem sound_of_fault? (hfault : r.fault? = Option.none)
    (hinjective : ∀ {s s' t : String}, r.remap[s]? = some t → r.remap[s']? = some t → s = s') :
    r.Sound := by
  have hrenaming {s t : String} (hs : r.remap[s]? = some t) :=
    (renamingFault?_eq_none_iff s t).mp (fault?_eq_none_iff.mp hfault s t hs)
  exact ⟨hinjective, fun hs ↦ (hrenaming hs).1, fun hs ↦ (hrenaming hs).2.1,
    fun hs ↦ (hrenaming hs).2.2⟩

theorem sound_of_ofLists {excluded : List String} {renamings : List (String × String)}
    (h : ofLists excluded renamings = .ok r) : r.Sound := by
  obtain ⟨hsources, htargets, hfault, rfl⟩ := ofLists_eq_ok_iff.mp h
  exact sound_of_fault? hfault (injective_preset hsources htargets)

/-! ## Display ids -/

theorem display_of_getElem? {s t : String} (h : r.remap[s]? = some t) : r.display s = t := by
  simp [display, Std.ExtTreeMap.getD_eq_getD_getElem?, h]

theorem display_of_notMem {s : String} (h : s ∉ r.remap) : r.display s = s := by
  simp [display, Std.ExtTreeMap.getD_eq_fallback h]

theorem displayId?_eq_some_iff {id d : String} :
    r.displayId? id = some d ↔ id ∉ r.excluded ∧ r.display id = d := by
  unfold displayId? display
  split <;> simp_all

theorem collides_eq_false_iff {id : String} :
    r.collides id = false ↔ id ∈ r.remap ∨ ∀ s : String, r.remap[s]? ≠ some id := by
  simp only [collides, Bool.and_eq_false_iff, Bool.not_eq_eq_eq_not, Bool.not_false,
    List.any_eq_false, Prod.forall, beq_iff_eq]
  constructor
  · rintro (h | h)
    · exact Or.inl h
    · refine Or.inr fun s hs ↦ ?_
      exact h s id (Std.ExtTreeMap.mem_toList_iff_getElem?_eq_some.mpr hs) rfl
  · rintro (h | h)
    · exact Or.inl h
    · refine Or.inr fun s t hs ht ↦ ?_
      exact h s (ht ▸ Std.ExtTreeMap.mem_toList_iff_getElem?_eq_some.mp hs)

theorem survives_iff {id : String} :
    r.survives id = true ↔ r.collides id = false ∧ id ∉ r.excluded := by
  simp [survives, ← Std.ExtTreeSet.contains_iff_mem]

/-! ## Raw ids -/

theorem rawId_of_getElem? (hr : r.Sound) {s t : String} (h : r.remap[s]? = some t) :
    r.rawId t = s := by
  unfold rawId
  cases hfind : r.remap.toList.find? fun p ↦ p.2 == t with
  | none =>
      have hmem := Std.ExtTreeMap.mem_toList_iff_getElem?_eq_some.mpr h
      have := List.find?_eq_none.mp hfind (s, t) hmem
      simp at this
  | some p =>
      obtain ⟨s', t'⟩ := p
      have ht : t' = t := by simpa using List.find?_some hfind
      have hmem := Std.ExtTreeMap.mem_toList_iff_getElem?_eq_some.mp
        (List.mem_of_find?_eq_some hfind)
      exact hr.injective (ht ▸ hmem) h

theorem rawId_of_no_source {d : String} (h : ∀ s : String, r.remap[s]? ≠ some d) :
    r.rawId d = d := by
  unfold rawId
  have hfind : (r.remap.toList.find? fun p ↦ p.2 == d) = Option.none := by
    rw [List.find?_eq_none]
    rintro ⟨s, t⟩ hmem
    have hst := Std.ExtTreeMap.mem_toList_iff_getElem?_eq_some.mp hmem
    intro ht
    have ht' : t = d := by simpa using ht
    exact h s (ht' ▸ hst)
  simp [hfind]

@[simp] theorem rawId_none (id : String) : QueryRules.none.rawId id = id :=
  rawId_of_no_source (by simp [QueryRules.none])

/-- The raw id of a kept row is recovered from its display id. -/
theorem rawId_display (hr : r.Sound) {id : String} (h : r.survives id = true) :
    r.rawId (r.display id) = id := by
  by_cases hmem : id ∈ r.remap
  · have hget : r.remap[id]? = some r.remap[id] := Std.ExtTreeMap.getElem?_eq_some_getElem hmem
    rw [display_of_getElem? hget]
    exact rawId_of_getElem? hr hget
  · rw [display_of_notMem hmem]
    rcases collides_eq_false_iff.mp (survives_iff.mp h).1 with hin | hno
    · exact absurd hin hmem
    · exact rawId_of_no_source hno

theorem display_injective (hr : r.Sound) {id id' : String} (h : r.survives id = true)
    (h' : r.survives id' = true) (heq : r.display id = r.display id') : id = id' := by
  rw [← rawId_display hr h, ← rawId_display hr h', heq]

/-- The raw id behind a display id is kept, and is shown under that display id.  The
id that the display id was computed from may itself collide: it is then another
query's display id, and the raw id is that query's. -/
theorem survives_rawId (hr : r.Sound) {id d : String} (h : r.displayId? id = some d) :
    r.survives (r.rawId d) = true ∧ r.display (r.rawId d) = d := by
  obtain ⟨hkept, hd⟩ := displayId?_eq_some_iff.mp h
  by_cases hsource : ∃ s : String, r.remap[s]? = some d
  · obtain ⟨s, hs⟩ := hsource
    rw [rawId_of_getElem? hr hs]
    refine ⟨survives_iff.mpr ⟨collides_eq_false_iff.mpr (Or.inl ?_), hr.source_kept hs⟩,
      display_of_getElem? hs⟩
    exact Std.ExtTreeMap.mem_iff_isSome_getElem?.mpr (by simp [hs])
  · have hno : ∀ s : String, r.remap[s]? ≠ some d := fun s hs ↦ hsource ⟨s, hs⟩
    have hid : id ∉ r.remap := by
      intro hmem
      have hget : r.remap[id]? = some r.remap[id] :=
        Std.ExtTreeMap.getElem?_eq_some_getElem hmem
      exact hno id (by rw [hget, ← hd, display_of_getElem? hget])
    have hdid : d = id := by rw [← hd, display_of_notMem hid]
    rw [rawId_of_no_source hno, hdid]
    exact ⟨survives_iff.mpr ⟨collides_eq_false_iff.mpr (Or.inr (hdid ▸ hno)), hkept⟩,
      display_of_notMem hid⟩

/-- Of all kept raw ids, exactly one is shown under a display id. -/
theorem survives_and_display_iff (hr : r.Sound) {id d : String}
    (h : r.displayId? id = some d) (raw : String) :
    (r.survives raw = true ∧ r.display raw = d) ↔ raw = r.rawId d := by
  constructor
  · rintro ⟨hraw, rfl⟩
    exact (rawId_display hr hraw).symm
  · rintro rfl
    exact survives_rawId hr h

end QueryRules
end QueryBench
