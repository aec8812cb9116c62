import Mathlib.Data.List.Nodup
import QueryBench.QueryRules.Basic
import QueryBench.Proofs.Grouping

/-!
# Rules from lists

Rules are collected from lists of excluded ids and of renamings, in which no raw id and no
display id may be renamed or shared twice.  The rules that come of them depend on what is
listed and not on its order.
-/

namespace QueryBench
namespace QueryRules

variable {r : QueryRules} {excluded excluded' : List String}
  {renamings renamings' : List (String × String)}

/-! ## Renamings without repetitions -/

theorem getElem?_ofList_eq_some_iff (h : (renamings.map Prod.fst).Nodup) {s t : String} :
    (Std.ExtTreeMap.ofList renamings)[s]? = some t ↔ (s, t) ∈ renamings := by
  have hdistinct : renamings.Pairwise fun p q ↦ ¬ compare p.1 q.1 = .eq := by
    apply (List.pairwise_map.mp h).imp
    intro p q hne heq
    exact hne (Std.LawfulEqOrd.eq_of_compare heq)
  have hget {u : String} (hmem : (s, u) ∈ renamings) :
      (Std.ExtTreeMap.ofList renamings)[s]? = some u :=
    Std.ExtTreeMap.getElem?_ofList_of_mem Std.ReflOrd.compare_self hdistinct hmem
  refine ⟨fun hs ↦ ?_, hget⟩
  by_cases hsource : s ∈ renamings.map Prod.fst
  · obtain ⟨⟨s, u⟩, hmem, rfl⟩ := List.mem_map.mp hsource
    rw [hget hmem] at hs
    rw [← Option.some.inj hs]
    exact hmem
  · rw [Std.ExtTreeMap.getElem?_ofList_of_contains_eq_false (by simpa using hsource)] at hs
    cases hs

/-- Rules are made of the ids that are listed as excluded and of the renamings that are listed,
in whatever order and however often. -/
theorem preset_eq_preset (hsources : (renamings.map Prod.fst).Nodup)
    (hsources' : (renamings'.map Prod.fst).Nodup)
    (hexcluded : ∀ id, id ∈ excluded' ↔ id ∈ excluded)
    (hrenamings : ∀ p, p ∈ renamings' ↔ p ∈ renamings) :
    preset excluded' renamings' = preset excluded renamings := by
  have hset : Std.ExtTreeSet.ofList excluded' = Std.ExtTreeSet.ofList excluded := by
    apply Std.ExtTreeSet.ext_mem
    intro id
    rw [Std.ExtTreeSet.mem_ofList, Std.ExtTreeSet.mem_ofList, List.contains_iff_mem,
      List.contains_iff_mem, hexcluded]
  have hmap : Std.ExtTreeMap.ofList renamings' = Std.ExtTreeMap.ofList renamings := by
    apply Std.ExtTreeMap.ext_getElem?
    intro s
    apply Option.ext
    intro t
    rw [getElem?_ofList_eq_some_iff hsources, getElem?_ofList_eq_some_iff hsources', hrenamings]
  rw [preset, preset, hset, hmap]

/-- Renamings are collected as long as their sources and targets are new. -/
theorem collect_eq_ok_iff {table result : Std.ExtTreeMap String String} {targets : List String} :
    collect table targets renamings = .ok result ↔
      (renamings.map Prod.fst).Nodup ∧ (renamings.map Prod.snd).Nodup ∧
        (∀ p ∈ renamings, p.1 ∉ table ∧ p.2 ∉ targets) ∧ result = table.insertMany renamings := by
  induction renamings generalizing table targets with
  | nil => simp [collect, eq_comm]
  | cons p rest ih =>
      obtain ⟨source, target⟩ := p
      -- what is new to the table with this renaming is new to the table and differs from it
      have hnew : (∀ p ∈ rest, p.1 ∉ table.insert source target ∧ p.2 ∉ target :: targets) ↔
          source ∉ rest.map Prod.fst ∧ target ∉ rest.map Prod.snd ∧
            ∀ p ∈ rest, p.1 ∉ table ∧ p.2 ∉ targets := by
        simp only [Std.ExtTreeMap.mem_insert, List.mem_cons, List.mem_map]
        grind
      rw [collect, List.map_cons, List.map_cons, List.nodup_cons, List.nodup_cons,
        List.forall_mem_cons, Std.ExtTreeMap.insertMany_cons]
      split
      · rename_i hold
        simp [hold]
      · rename_i htarget
        split
        · rename_i hold
          simp [hold]
        · rename_i hsource
          rw [ih, hnew]
          tauto

theorem ofLists_eq_ok_iff :
    ofLists excluded renamings = .ok r ↔
      (renamings.map Prod.fst).Nodup ∧ (renamings.map Prod.snd).Nodup ∧
        (preset excluded renamings).fault? = Option.none ∧ r = preset excluded renamings := by
  have hcollect (table : Std.ExtTreeMap String String) :
      collect ∅ [] renamings = .ok table ↔ (renamings.map Prod.fst).Nodup ∧
        (renamings.map Prod.snd).Nodup ∧ table = .ofList renamings := by
    rw [collect_eq_ok_iff, Std.ExtTreeMap.ofList_eq_insertMany_empty]
    simp
  unfold ofLists
  cases htable : collect ∅ [] renamings with
  | error fault =>
      refine iff_of_false nofun ?_
      rintro ⟨hsources, htargets, -⟩
      rw [(hcollect _).mpr ⟨hsources, htargets, rfl⟩] at htable
      cases htable
  | ok table =>
      obtain ⟨hsources, htargets, rfl⟩ := (hcollect table).mp htable
      dsimp only
      rw [← preset]
      cases (preset excluded renamings).fault? <;> simp [hsources, htargets, eq_comm]

theorem injective_preset (hsources : (renamings.map Prod.fst).Nodup)
    (htargets : (renamings.map Prod.snd).Nodup) {s s' t : String}
    (h : (preset excluded renamings).remap[s]? = some t)
    (h' : (preset excluded renamings).remap[s']? = some t) : s = s' := by
  have hmem := (getElem?_ofList_eq_some_iff hsources).mp h
  have hmem' := (getElem?_ofList_eq_some_iff hsources).mp h'
  exact congrArg Prod.fst (List.inj_on_of_nodup_map htargets hmem hmem' rfl)

theorem ofLists_splitFigure :
    ofLists ["l_count", "l_point"]
      [("q13", "q87"), ("q14", "q88"), ("q18", "q98"), ("q19", "q99")] = .ok splitFigure := by
  rfl

end QueryRules
end QueryBench
