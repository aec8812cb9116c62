import Std.Data.ExtTreeMap
import QueryBench.Row

/-!
# Values kept for each group

Selections and tallies are both built in one pass that keeps a value for each group.
The value of a group depends on the rows of that group alone, in their order.
-/

namespace QueryBench

/-- One pass that keeps a value for each group leaves, for a group, what its own
rows make of it. -/
theorem getElem?_foldl_alter {α β : Type} (add : Row α → Option β → β) (rows : List (Row α))
    (table : Std.ExtTreeMap Group β) (g : Group) :
    (rows.foldl (fun table t ↦ table.alter t.group fun b ↦ some (add t b)) table)[g]? =
      (rows.filter fun t ↦ t.group = g).foldl (fun b t ↦ some (add t b)) table[g]? := by
  induction rows generalizing table with
  | nil => rfl
  | cons t rest ih =>
      rw [List.foldl_cons, ih, Std.ExtTreeMap.getElem?_alter]
      by_cases hgroup : t.group = g
      · subst hgroup
        simp
      · simp [hgroup]

/-- A list that ascends by a key is known by its members. -/
theorem eq_of_perm_of_ascending {α κ : Type} [Ord κ] [Std.OrientedOrd κ] {key : α → κ}
    {l l' : List α} (hperm : l.Perm l')
    (h : l.Pairwise fun a b ↦ compare (key a) (key b) = .lt)
    (h' : l'.Pairwise fun a b ↦ compare (key a) (key b) = .lt) : l = l' := by
  apply List.Perm.eq_of_pairwise _ h h' hperm
  intro a b _ _ hlt hgt
  rw [← Std.OrientedCmp.gt_iff_lt, hlt] at hgt
  cases hgt

theorem nodup_fst_toList {κ β : Type} [Ord κ] [Std.TransOrd κ] (table : Std.ExtTreeMap κ β) :
    (table.toList.map Prod.fst).Nodup := by
  rw [List.Nodup, List.pairwise_map]
  apply table.distinct_keys_toList.imp
  intro p q hne heq
  exact hne (by rw [heq]; exact Std.ReflOrd.compare_self)

end QueryBench
