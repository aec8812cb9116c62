import Mathlib.Data.List.TakeWhile
import QueryBench.Text.Blank

/-!
# Trimming

Trimming takes accepted elements off both ends of a list, and elements of that kind
put around a list do not change what trimming leaves of it.
-/

namespace QueryBench

section TrimBy

variable {α : Type} {p : α → Bool}

/-- The list without the accepted elements at its ends. -/
def trimBy (p : α → Bool) (xs : List α) : List α :=
  ((xs.dropWhile p).reverse.dropWhile p).reverse

theorem exists_eq_dropWhile (p : α → Bool) (xs : List α) :
    ∃ front, (∀ x ∈ front, p x = true) ∧ xs = front ++ xs.dropWhile p := by
  refine ⟨xs.takeWhile p, ?_, List.takeWhile_append_dropWhile.symm⟩
  intro x hx
  exact List.all_eq_true.mp List.all_takeWhile x hx

theorem exists_eq_trimBy (p : α → Bool) (xs : List α) :
    ∃ front back, (∀ x ∈ front, p x = true) ∧ (∀ x ∈ back, p x = true) ∧
      xs = front ++ trimBy p xs ++ back := by
  obtain ⟨front, hfront, hxs⟩ := exists_eq_dropWhile p xs
  obtain ⟨back, hback, hrest⟩ := exists_eq_dropWhile p (xs.dropWhile p).reverse
  refine ⟨front, back.reverse, hfront, fun x hx ↦ hback x (List.mem_reverse.mp hx), ?_⟩
  have hreverse := congrArg List.reverse hrest
  rw [List.reverse_reverse, List.reverse_append] at hreverse
  rw [List.append_assoc, trimBy, ← hreverse]
  exact hxs

theorem trimBy_append_left {front : List α} (h : ∀ x ∈ front, p x = true) (xs : List α) :
    trimBy p (front ++ xs) = trimBy p xs := by
  rw [trimBy, List.dropWhile_append_of_pos h, trimBy]

theorem trimBy_append_right {back : List α} (h : ∀ x ∈ back, p x = true) (xs : List α) :
    trimBy p (xs ++ back) = trimBy p xs := by
  have hback : ∀ x ∈ back.reverse, p x = true := fun x hx ↦ h x (List.mem_reverse.mp hx)
  unfold trimBy
  rw [List.dropWhile_append]
  split
  · rename_i hall
    have hnil : xs.dropWhile p = [] := List.isEmpty_iff.mp hall
    have hnone : back.dropWhile p = [] := List.dropWhile_eq_nil_iff.mpr h
    rw [hnil, hnone]
  · rw [List.reverse_append, List.dropWhile_append_of_pos hback]

theorem trimBy_padded {front back : List α} (hfront : ∀ x ∈ front, p x = true)
    (hback : ∀ x ∈ back, p x = true) (xs : List α) :
    trimBy p (front ++ xs ++ back) = trimBy p xs := by
  rw [trimBy_append_right hback, trimBy_append_left hfront]

theorem trimBy_trimBy (p : α → Bool) (xs : List α) : trimBy p (trimBy p xs) = trimBy p xs := by
  obtain ⟨front, back, hfront, hback, hxs⟩ := exists_eq_trimBy p xs
  have hpadded := trimBy_padded hfront hback (trimBy p xs)
  rw [← hxs] at hpadded
  exact hpadded.symm

theorem trimBy_eq_nil_iff {xs : List α} : trimBy p xs = [] ↔ ∀ x ∈ xs, p x = true := by
  constructor
  · intro h
    obtain ⟨front, back, hfront, hback, hxs⟩ := exists_eq_trimBy p xs
    rw [h, List.append_nil] at hxs
    intro x hx
    rw [hxs] at hx
    rcases List.mem_append.mp hx with hx | hx
    · exact hfront x hx
    · exact hback x hx
  · intro h
    rw [trimBy, List.dropWhile_eq_nil_iff.mpr h]
    rfl

theorem trimBy_cons_of_neg {x : α} (h : p x = false) (xs : List α) :
    ∃ ys, trimBy p (x :: xs) = x :: ys := by
  have hfront : (x :: xs).dropWhile p = x :: xs := by simp [h]
  have hlast : [x].dropWhile p = [x] := by simp [h]
  rw [trimBy, hfront, List.reverse_cons, List.dropWhile_append, hlast]
  split
  · exact ⟨[], rfl⟩
  · exact ⟨_, by rw [List.reverse_append]; rfl⟩

/-- What trimming by a stricter test leaves keeps what trimming leaves. -/
theorem trimBy_trimBy_of_imp {q : α → Bool} (h : ∀ x, q x = true → p x = true) (xs : List α) :
    trimBy p (trimBy q xs) = trimBy p xs := by
  obtain ⟨front, back, hfront, hback, hxs⟩ := exists_eq_trimBy q xs
  have hpadded := trimBy_padded (fun x hx ↦ h x (hfront x hx)) (fun x hx ↦ h x (hback x hx))
    (trimBy q xs)
  rw [← hxs] at hpadded
  exact hpadded.symm

end TrimBy

namespace Text

theorem trimChars_eq_trimBy (cs : List Char) : trimChars cs = trimBy isBlank cs := rfl

theorem toList_trim (s : String) : (trim s).toList = trimBy isBlank s.toList := by
  rw [trim, String.toList_ofList]
  rfl

theorem trim_trim (s : String) : trim (trim s) = trim s := by
  apply String.toList_injective
  rw [toList_trim, toList_trim, trimBy_trimBy]

theorem toList_of_trim {s : String} (h : trim s = s) : trimBy isBlank s.toList = s.toList := by
  rw [← toList_trim, h]

end Text
end QueryBench
