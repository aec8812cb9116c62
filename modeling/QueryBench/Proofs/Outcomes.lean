import Mathlib.Data.List.Forall2

/-!
# Outcomes

A computation that may fail gives a value or a fault.  What a chain of computations gives
is read off its steps, and renaming the values or the faults keeps which of the two it is.
A computation over a list gives a value exactly if it does for each element, and else
the fault of the first element without one.
-/

namespace QueryBench

section Steps

variable {ε ε' α β : Type} {x : Except ε α}

theorem bind_eq_ok_iff {f : α → Except ε β} {b : β} :
    x >>= f = .ok b ↔ ∃ a, x = .ok a ∧ f a = .ok b := by
  cases x <;> simp [bind, Except.bind]

theorem map_eq_ok_iff {f : α → β} {b : β} :
    x.map f = .ok b ↔ ∃ a, x = .ok a ∧ f a = b := by
  cases x <;> simp [Except.map]

theorem map_eq_error_iff {f : α → β} {fault : ε} :
    x.map f = .error fault ↔ x = .error fault := by
  cases x <;> simp [Except.map]

theorem mapError_eq_ok_iff {g : ε → ε'} {a : α} : x.mapError g = .ok a ↔ x = .ok a := by
  cases x <;> simp [Except.mapError]

theorem mapError_eq_error_iff {g : ε → ε'} {fault : ε'} :
    x.mapError g = .error fault ↔ ∃ cause, x = .error cause ∧ g cause = fault := by
  cases x <;> simp [Except.mapError]

end Steps

/-! ## Lists -/

/-- The first element that is not passed is the head, or the head is passed and it is in the
tail, one place further than there. -/
theorem exists_first_cons_iff {α : Type} {P : α → Prop} {Q : Nat → α → Prop} {a : α}
    {as : List α} :
    (∃ front b back, a :: as = front ++ b :: back ∧ (∀ c ∈ front, P c) ∧ Q front.length b) ↔
      Q 0 a ∨ P a ∧ ∃ front b back, as = front ++ b :: back ∧ (∀ c ∈ front, P c) ∧
        Q (front.length + 1) b := by
  constructor
  · rintro ⟨front, b, back, heq, hfront, hb⟩
    cases front with
    | nil =>
        obtain ⟨rfl, -⟩ := List.cons.inj heq
        exact .inl hb
    | cons c front =>
        obtain ⟨rfl, rfl⟩ := List.cons.inj heq
        obtain ⟨ha, hfront⟩ := List.forall_mem_cons.mp hfront
        exact .inr ⟨ha, front, b, back, rfl, hfront, hb⟩
  · rintro (ha | ⟨ha, front, b, back, rfl, hfront, hb⟩)
    · exact ⟨[], a, as, rfl, nofun, ha⟩
    · exact ⟨a :: front, b, back, rfl, List.forall_mem_cons.mpr ⟨ha, hfront⟩, hb⟩

/-- A computation takes the elements of a list one after the other.  It joins what they give,
and stops at the first that fails. -/
structure TakesInOrder {ε α β γ : Type} (step : α → Except ε β) (join : β → γ → γ) (start : γ)
    (run : List α → Except ε γ) : Prop where
  nil : run [] = .ok start
  cons : ∀ a as, run (a :: as) = step a >>= fun b ↦ (run as).map (join b)

namespace TakesInOrder

variable {ε α β γ : Type} {step : α → Except ε β} {join : β → γ → γ} {start : γ}
  {run : List α → Except ε γ} {as : List α}

theorem eq_ok_iff (h : TakesInOrder step join start run) {c : γ} :
    run as = .ok c ↔
      ∃ bs, List.Forall₂ (fun a b ↦ step a = .ok b) as bs ∧ c = bs.foldr join start := by
  induction as generalizing c with
  | nil => simp [h.nil, eq_comm]
  | cons a as ih =>
      rw [h.cons, bind_eq_ok_iff]
      simp only [map_eq_ok_iff, ih, List.forall₂_cons_left_iff]
      constructor
      · rintro ⟨b, hb, _, ⟨bs, hbs, rfl⟩, rfl⟩
        exact ⟨b :: bs, ⟨b, bs, hb, hbs, rfl⟩, rfl⟩
      · rintro ⟨_, ⟨b, bs, hb, hbs, rfl⟩, rfl⟩
        exact ⟨b, hb, _, ⟨bs, hbs, rfl⟩, rfl⟩

theorem exists_ok_iff (h : TakesInOrder step join start run) :
    (∃ c, run as = .ok c) ↔ ∀ a ∈ as, ∃ b, step a = .ok b := by
  induction as with
  | nil => simp [h.nil]
  | cons a as ih =>
      rw [List.forall_mem_cons, ← ih]
      simp only [h.cons, bind_eq_ok_iff, map_eq_ok_iff]
      constructor
      · rintro ⟨_, b, hb, c, hc, -⟩
        exact ⟨⟨b, hb⟩, c, hc⟩
      · rintro ⟨⟨b, hb⟩, c, hc⟩
        exact ⟨_, b, hb, c, hc, rfl⟩

theorem eq_error_iff (h : TakesInOrder step join start run) {fault : ε} :
    run as = .error fault ↔
      ∃ front a back, as = front ++ a :: back ∧ (∀ c ∈ front, ∃ b, step c = .ok b) ∧
        step a = .error fault := by
  induction as with
  | nil => simp [h.nil]
  | cons a as ih =>
      rw [exists_first_cons_iff (Q := fun _ a ↦ step a = .error fault), ← ih, h.cons]
      cases step a with
      | error cause => simp [bind, Except.bind]
      | ok b =>
          have hrest : (Except.ok b >>= fun b ↦ (run as).map (join b)) = .error fault ↔
              run as = .error fault := map_eq_error_iff
          simp [hrest]

end TakesInOrder
end QueryBench
