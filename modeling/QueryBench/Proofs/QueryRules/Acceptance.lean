import QueryBench.Configuration.Reader
import QueryBench.Proofs.QueryRules.RawIds

/-!
# Which rules are accepted

Rules are accepted exactly if no raw id is renamed twice or excluded as well, no two raw ids
share a display id, and every display id is its own display id.  Accepted rules do not depend
on the order in which they were listed, and can be written down and read again.
-/

namespace QueryBench

/-! ## Rules as documents -/

theorem Configuration.each_text (dialect : Dialect) (ids : List String) :
    each (text dialect) (ids.map .text) = .ok ids := by
  induction ids with
  | nil => rfl
  | cons id ids ih =>
      rw [List.map_cons, each, ih]
      rfl

namespace QueryRules

theorem preset_definition (r : QueryRules) : preset r.definition.1 r.definition.2 = r := by
  have hset : Std.ExtTreeSet.ofList r.excluded.toList = r.excluded := by
    apply Std.ExtTreeSet.ext_mem
    intro id
    rw [Std.ExtTreeSet.mem_ofList, List.contains_iff_mem, Std.ExtTreeSet.mem_toList]
  have hmap : Std.ExtTreeMap.ofList r.remap.toList = r.remap := by
    apply Std.ExtTreeMap.ext_getElem?
    intro s
    apply Option.ext
    intro t
    rw [getElem?_ofList_eq_some_iff (nodup_fst_toList r.remap),
      Std.ExtTreeMap.mem_toList_iff_getElem?_eq_some]
  rw [definition, preset, hset, hmap]

theorem entries_renamings (dialect : Dialect) (r : QueryRules) :
    Configuration.entries (Configuration.text dialect)
        (.object (r.definition.2.map fun p ↦ (p.1, .text p.2))) = .ok r.definition.2 := by
  have hkeys : (r.definition.2.map fun p ↦ (p.1, Document.text p.2)).map Prod.fst =
      r.definition.2.map Prod.fst := by
    rw [List.map_map]
    rfl
  have hvalues : (r.definition.2.map fun p ↦ (p.1, Document.text p.2)).map Prod.snd =
      (r.definition.2.map Prod.snd).map .text := by
    rw [List.map_map, List.map_map]
    rfl
  have hread := Configuration.each_text dialect (r.definition.2.map Prod.snd)
  have hzip : (r.definition.2.map Prod.fst).zip (r.definition.2.map Prod.snd) = r.definition.2 :=
    (List.zip_of_prod rfl rfl).symm
  -- the renamings of a definition are listed as a table lists them
  have hlisted : (Std.ExtTreeMap.ofList r.definition.2).toList = r.definition.2 :=
    congrArg (fun r ↦ r.remap.toList) r.preset_definition
  rw [Configuration.entries, hkeys, hvalues, hread, Except.map, hzip, hlisted]

/-- Reading what was written examines the rules once more. -/
theorem rules_document (dialect : Dialect) (r : QueryRules) :
    Configuration.rules dialect r.document =
      (ofLists r.definition.1 r.definition.2).mapError .rules := by
  have hfields : Configuration.recordFields dialect ["exclude", "remap"] r.document =
      .ok [("exclude", .list (r.definition.1.map .text)),
        ("remap", .object (r.definition.2.map fun p ↦ (p.1, .text p.2)))] := by
    simp [document, Configuration.recordFields, List.eraseDups, List.eraseDupsBy,
      List.eraseDupsBy.loop, List.mergeSort, List.MergeSort.Internal.splitInTwo]
  have hset : Configuration.setAll (Configuration.setRules dialect) ([], [])
      [("exclude", .list (r.definition.1.map .text)),
        ("remap", .object (r.definition.2.map fun p ↦ (p.1, .text p.2)))] = .ok r.definition := by
    simp [Configuration.setAll, Configuration.setRules, Configuration.list,
      Configuration.each_text, entries_renamings, Except.map]
  have hmore : Configuration.listsMore ["exclude", "remap"] r.document = false := rfl
  rw [Configuration.rules, Configuration.record, hfields]
  dsimp only
  rw [hset]
  dsimp only
  rw [hmore]
  rfl

/-! ## Idempotence -/

/-- Every display id is its own display id. -/
def IsIdempotent (r : QueryRules) : Prop :=
  ∀ id d : String, r.displayId? id = some d → r.displayId? d = some d

variable {r : QueryRules}

theorem exists_target {id : String} (h : id ∈ r.remap) :
    ∃ d, r.remap[id]? = some d ∧ r.display id = d := by
  obtain ⟨d, hget⟩ := Option.isSome_iff_exists.mp
    (Std.ExtTreeMap.mem_iff_isSome_getElem?.mp h)
  exact ⟨d, hget, display_of_getElem? hget⟩

theorem Sound.isIdempotent (hr : r.Sound) : r.IsIdempotent := by
  intro id d hid
  obtain ⟨hkept, hd⟩ := displayId?_eq_some_iff.mp hid
  by_cases hsource : id ∈ r.remap
  · obtain ⟨d, hget, rfl⟩ := exists_target hsource
    rw [hd] at hget
    refine displayId?_eq_some_iff.mpr ⟨hr.target_kept hget, ?_⟩
    by_cases heq : id = d
    · rw [← heq, hd, heq]
    · exact display_of_notMem (hr.target_fixed hget heq)
  · rw [display_of_notMem hsource] at hd
    rw [← hd] at hid ⊢
    exact hid

theorem fault?_eq_none_iff_isIdempotent
    (hinjective : ∀ {s s' t : String}, r.remap[s]? = some t → r.remap[s']? = some t → s = s') :
    r.fault? = Option.none ↔ (∀ s ∈ r.remap, s ∉ r.excluded) ∧ r.IsIdempotent := by
  constructor
  · intro hfault
    have hr := sound_of_fault? hfault hinjective
    refine ⟨?_, hr.isIdempotent⟩
    intro s hs
    obtain ⟨t, hget, -⟩ := exists_target hs
    exact hr.source_kept hget
  · rintro ⟨hkept, hidempotent⟩
    rw [fault?_eq_none_iff]
    intro s t hget
    have hmem : s ∈ r.remap := Std.ExtTreeMap.mem_iff_isSome_getElem?.mpr (by simp [hget])
    have hs := hkept s hmem
    have ht := hidempotent s t (displayId?_eq_some_iff.mpr ⟨hs, display_of_getElem? hget⟩)
    obtain ⟨htarget, hfixed⟩ := displayId?_eq_some_iff.mp ht
    refine (renamingFault?_eq_none_iff s t).mpr ⟨hs, htarget, ?_⟩
    -- a target that is renamed as well would share its display id with its source
    intro hne hrenamed
    obtain ⟨u, hget', hu⟩ := exists_target hrenamed
    rw [← hu, hfixed] at hget'
    exact hne (hinjective hget hget')

/-! ## Acceptance -/

theorem ofLists_eq_ok_iff_isIdempotent {excluded : List String}
    {renamings : List (String × String)} :
    ofLists excluded renamings = .ok r ↔
      (renamings.map Prod.fst).Nodup ∧ (renamings.map Prod.snd).Nodup ∧
        (∀ p ∈ renamings, p.1 ∉ excluded) ∧ (preset excluded renamings).IsIdempotent ∧
          r = preset excluded renamings := by
  rw [ofLists_eq_ok_iff]
  refine and_congr_right fun hsources ↦ and_congr_right fun htargets ↦ ?_
  have hkept : (∀ s ∈ (preset excluded renamings).remap, s ∉ (preset excluded renamings).excluded) ↔
      ∀ p ∈ renamings, p.1 ∉ excluded := by
    simp only [preset, Std.ExtTreeMap.mem_ofList, Std.ExtTreeSet.mem_ofList, List.contains_iff_mem]
    rw [List.forall_mem_map]
  rw [fault?_eq_none_iff_isIdempotent (injective_preset hsources htargets), hkept, and_assoc]

/-- Neither the order of the lists nor repetitions of excluded ids have an influence. -/
theorem ofLists_of_perm {excluded excluded' : List String}
    {renamings renamings' : List (String × String)}
    (hexcluded : ∀ id, id ∈ excluded' ↔ id ∈ excluded) (hperm : renamings'.Perm renamings)
    (h : ofLists excluded renamings = .ok r) :
    ofLists excluded' renamings' = .ok r := by
  obtain ⟨hsources, htargets, hfault, rfl⟩ := ofLists_eq_ok_iff.mp h
  have hsources' := (hperm.map Prod.fst).nodup_iff.mpr hsources
  have hpreset : preset excluded' renamings' = preset excluded renamings :=
    preset_eq_preset hsources hsources' hexcluded fun _ ↦ hperm.mem_iff
  rw [ofLists_eq_ok_iff, hpreset]
  exact ⟨hsources', (hperm.map Prod.snd).nodup_iff.mpr htargets, hfault, rfl⟩

theorem ofLists_definition {excluded : List String} {renamings : List (String × String)}
    (h : ofLists excluded renamings = .ok r) : ofLists r.definition.1 r.definition.2 = .ok r := by
  have hr := sound_of_ofLists h
  obtain ⟨-, -, hfault, hpreset⟩ := ofLists_eq_ok_iff.mp h
  rw [← hpreset] at hfault
  have hsources : (r.definition.2.map Prod.fst).Nodup := nodup_fst_toList r.remap
  rw [ofLists_eq_ok_iff, preset_definition]
  refine ⟨hsources, ?_, hfault, rfl⟩
  apply (List.Nodup.of_map _ hsources).map_on
  rintro ⟨s, t⟩ hs ⟨s', t'⟩ hs' rfl
  rw [definition, Std.ExtTreeMap.mem_toList_iff_getElem?_eq_some] at hs hs'
  rw [hr.injective hs hs']

/-- Rules are accepted exactly if all sources are different, all targets are different, no
source is excluded and every display id is its own display id.  Which rules they are is a
matter of what is listed and not of its order, and accepted rules that are written as a
configuration are accepted again as the same rules. -/
theorem accepted_iff_idempotent (excluded : List String) (renamings : List (String × String)) :
    ((∃ r, ofLists excluded renamings = .ok r) ↔
      (renamings.map Prod.fst).Nodup ∧ (renamings.map Prod.snd).Nodup ∧
        (∀ p ∈ renamings, p.1 ∉ excluded) ∧ (preset excluded renamings).IsIdempotent) ∧
    (∀ r, ofLists excluded renamings = .ok r → r = preset excluded renamings) ∧
    (∀ excluded' renamings', (∀ id, id ∈ excluded' ↔ id ∈ excluded) →
      renamings'.Perm renamings →
        ∀ r, ofLists excluded' renamings' = .ok r ↔ ofLists excluded renamings = .ok r) ∧
    ∀ r, ofLists excluded renamings = .ok r →
      ofLists r.definition.1 r.definition.2 = .ok r ∧
        ∀ dialect, Configuration.rules dialect r.document = .ok r := by
  refine ⟨?_, ?_, ?_, ?_⟩
  · simp only [ofLists_eq_ok_iff_isIdempotent, exists_and_left, exists_eq, and_true]
  · intro r h
    exact (ofLists_eq_ok_iff.mp h).2.2.2
  · intro excluded' renamings' hexcluded hperm r
    exact ⟨ofLists_of_perm (fun id ↦ (hexcluded id).symm) hperm.symm,
      ofLists_of_perm hexcluded hperm⟩
  · intro r h
    have hagain := ofLists_definition h
    refine ⟨hagain, fun dialect ↦ ?_⟩
    rw [rules_document, hagain]
    rfl

/-- An excluded id that is listed twice, a renaming of an id to itself, and the same lists in
another order. -/
theorem accepted_in_another_order :
    (∀ id, id ∈ ["l_count", "q18"] ↔ id ∈ ["q18", "l_count", "q18"]) ∧
    [("q1", "q1"), ("q13", "q87")].Perm [("q13", "q87"), ("q1", "q1")] ∧
    ∃ r, ofLists ["q18", "l_count", "q18"] [("q13", "q87"), ("q1", "q1")] = .ok r ∧
      ofLists ["l_count", "q18"] [("q1", "q1"), ("q13", "q87")] = .ok r ∧
      (preset ["q18", "l_count", "q18"] [("q13", "q87"), ("q1", "q1")]).IsIdempotent ∧
      ∀ dialect, Configuration.rules dialect r.document = .ok r := by
  have hexcluded : ∀ id, id ∈ ["l_count", "q18"] ↔ id ∈ ["q18", "l_count", "q18"] := by
    intro id
    simp only [List.mem_cons, List.not_mem_nil, or_false]
    tauto
  have hperm : [("q1", "q1"), ("q13", "q87")].Perm [("q13", "q87"), ("q1", "q1")] :=
    .swap _ _ _
  have hok : ofLists ["q18", "l_count", "q18"] [("q13", "q87"), ("q1", "q1")] =
      .ok (preset ["q18", "l_count", "q18"] [("q13", "q87"), ("q1", "q1")]) := by rfl
  obtain ⟨hiff, -, horder, hread⟩ :=
    accepted_iff_idempotent ["q18", "l_count", "q18"] [("q13", "q87"), ("q1", "q1")]
  exact ⟨hexcluded, hperm, _, hok, (horder _ _ hexcluded hperm _).mpr hok,
    (hiff.mp ⟨_, hok⟩).2.2.2, (hread _ hok).2⟩

end QueryRules
end QueryBench
