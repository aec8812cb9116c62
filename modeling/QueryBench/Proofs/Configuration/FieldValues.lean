import Mathlib.Data.List.Nodup
import QueryBench.Proofs.Selection.Coverage
import QueryBench.ThroughputFigure.Document

/-!
# Values of fields

Where a document is read as a record, so is the document with another value of a field.  The
record then has what is read from that value, and is the same otherwise.
-/

namespace QueryBench
namespace Configuration

variable {α β : Type}

/-- The fields with another value of one of them. -/
def withValue (name : String) (v : Document) (fields : List (String × Document)) :
    List (String × Document) :=
  fields.map fun f ↦ (f.1, if f.1 = name then v else f.2)

/-- A document of fields is read with what `field` reads from the value of one of them, which
`put` puts into what is read. -/
def ReadsField (read : Reader α) (name : String) (field : Reader β) (put : α → β → α) : Prop :=
  ∀ (fields : List (String × Document)) (a : α) (v : Document) (b : β),
    read (.object fields) = .ok a → name ∈ fields.map Prod.fst → field v = .ok b →
      read (.object (withValue name v fields)) = .ok (put a b)

/-! ## Fields with another value -/

section WithValue

variable {name : String} {v : Document}

@[simp] theorem withValue_cons (f : String × Document) (fields : List (String × Document)) :
    withValue name v (f :: fields) =
      (f.1, if f.1 = name then v else f.2) :: withValue name v fields := rfl

@[simp] theorem map_fst_withValue (fields : List (String × Document)) :
    (withValue name v fields).map Prod.fst = fields.map Prod.fst := by
  rw [withValue, List.map_map]
  rfl

theorem withValue_of_notMem {fields : List (String × Document)}
    (h : name ∉ fields.map Prod.fst) : withValue name v fields = fields := by
  induction fields with
  | nil => rfl
  | cons f fields ih =>
      rw [List.map_cons, List.mem_cons, not_or] at h
      rw [withValue_cons, ih h.2, if_neg (Ne.symm h.1)]

theorem filter_withValue (p : String → Bool) (fields : List (String × Document)) :
    (withValue name v fields).filter (fun f ↦ p f.1) =
      withValue name v (fields.filter fun f ↦ p f.1) := by
  rw [withValue, List.filter_map]
  rfl

end WithValue

/-! ## Fields of records -/

theorem length_eraseDups_le (l : List String) : l.eraseDups.length ≤ l.length := by
  cases l with
  | nil => exact Nat.le_refl 0
  | cons a l =>
      have hrest := length_eraseDups_le (l.filter fun b ↦ !b == a)
      rw [List.eraseDups_cons]
      exact Nat.succ_le_succ (Nat.le_trans hrest (List.length_filter_le _ _))
termination_by l.length
decreasing_by
  exact Nat.lt_succ_of_le (List.length_filter_le _ _)

theorem nodup_of_length_eraseDups {l : List String} (h : l.eraseDups.length = l.length) :
    l.Nodup := by
  induction l with
  | nil => exact List.nodup_nil
  | cons a l ih =>
      rw [List.eraseDups_cons, List.length_cons, List.length_cons, Nat.add_right_cancel_iff] at h
      have hrest := length_eraseDups_le (l.filter fun b ↦ !b == a)
      have hfilter := List.length_filter_le (fun b ↦ !b == a) l
      have hall := List.length_filter_eq_length_iff.mp (Nat.le_antisymm hfilter (h ▸ hrest))
      rw [List.filter_eq_self.mpr hall] at h
      refine List.nodup_cons.mpr ⟨fun hmem ↦ ?_, ih h⟩
      simpa using hall a hmem

section RecordFields

variable {dialect : Dialect} {names : List String} {fields known : List (String × Document)}

/-- What a record reads of some fields: those it knows, each once. -/
theorem recordFields_eq_ok_iff :
    recordFields dialect names (.object fields) = .ok known ↔
      ((fields.filter fun f ↦ names.contains f.1).map Prod.fst).eraseDups.length =
          (fields.filter fun f ↦ names.contains f.1).length ∧
        (fields.filter fun f ↦ names.contains f.1).mergeSort (fun a b ↦ decide (a.1 ≤ b.1)) =
          known := by
  rw [recordFields]
  split
  · rename_i hlength
    rw [Except.ok.injEq, and_iff_right hlength]
  · rename_i hlength
    exact ⟨nofun, fun h ↦ absurd h.1 hlength⟩

/-- Fields in the order of their names are read as they stand. -/
theorem recordFields_of_sorted (hknown : ∀ n ∈ fields.map Prod.fst, n ∈ names)
    (hnodup : (fields.map Prod.fst).Nodup) (hsorted : (fields.map Prod.fst).Pairwise (· ≤ ·)) :
    recordFields dialect names (.object fields) = .ok fields := by
  have hfilter : fields.filter (fun f ↦ names.contains f.1) = fields := by
    rw [List.filter_eq_self]
    intro f hf
    exact List.contains_iff_mem.mpr (hknown f.1 (List.mem_map_of_mem hf))
  rw [recordFields_eq_ok_iff, hfilter, eraseDups_of_nodup hnodup, List.length_map]
  refine ⟨rfl, List.mergeSort_of_pairwise ?_⟩
  simpa [List.pairwise_map] using hsorted

theorem nodup_of_recordFields (h : recordFields dialect names (.object fields) = .ok known) :
    (known.map Prod.fst).Nodup := by
  obtain ⟨hlength, rfl⟩ := recordFields_eq_ok_iff.mp h
  rw [← List.length_map (f := Prod.fst)] at hlength
  exact ((List.mergeSort_perm _ _).map Prod.fst).nodup_iff.mpr (nodup_of_length_eraseDups hlength)

theorem mem_of_recordFields (h : recordFields dialect names (.object fields) = .ok known)
    {name : String} (hname : name ∈ names) (hmem : name ∈ fields.map Prod.fst) :
    name ∈ known.map Prod.fst := by
  obtain ⟨-, rfl⟩ := recordFields_eq_ok_iff.mp h
  obtain ⟨f, hf, rfl⟩ := List.mem_map.mp hmem
  refine List.mem_map_of_mem ((List.mergeSort_perm _ _).mem_iff.mpr ?_)
  exact List.mem_filter.mpr ⟨hf, List.contains_iff_mem.mpr hname⟩

theorem recordFields_withValue (h : recordFields dialect names (.object fields) = .ok known)
    (name : String) (v : Document) :
    recordFields dialect names (.object (withValue name v fields)) =
      .ok (withValue name v known) := by
  obtain ⟨hlength, rfl⟩ := recordFields_eq_ok_iff.mp h
  rw [recordFields_eq_ok_iff, filter_withValue (fun n ↦ names.contains n), map_fst_withValue]
  refine ⟨?_, ?_⟩
  · rw [hlength, withValue, List.length_map]
  · refine (List.map_mergeSort (f := fun f : String × Document ↦
      (f.1, if f.1 = name then v else f.2)) ?_).symm
    exact fun _ _ _ _ ↦ rfl

end RecordFields

/-! ## Records -/

/-- A record is read of fields that can be set and that include the required ones. -/
theorem record_eq_ok_iff {dialect : Dialect} {names required : List String} {defaults a : α}
    {set : α → String → Reader α} {fields : List (String × Document)} :
    record dialect names required defaults set (.object fields) = .ok a ↔
      ∃ known, recordFields dialect names (.object fields) = .ok known ∧
        setAll set defaults known = .ok a ∧ ∀ n ∈ required, n ∈ known.map Prod.fst := by
  have hrequires : ∀ known : List (String × Document),
      (required.all fun n ↦ known.any fun f ↦ f.1 == n) = true ↔
        ∀ n ∈ required, n ∈ known.map Prod.fst := by
    simp [List.all_eq_true, List.any_eq_true]
  have hmore : listsMore names (.object fields) = false := rfl
  rw [record, hmore]
  constructor
  · intro h
    split at h
    · cases h
    · rename_i known hknown
      split at h
      · cases h
      · rename_i a' hset
        rw [if_neg Bool.false_ne_true] at h
        split at h
        · rename_i hall
          obtain rfl := Except.ok.inj h
          exact ⟨known, hknown, hset, (hrequires known).mp hall⟩
        · cases h
  · rintro ⟨known, hknown, hset, hall⟩
    rw [hknown]
    dsimp only
    rw [hset]
    dsimp only
    rw [if_neg Bool.false_ne_true, if_pos ((hrequires known).mpr hall)]

/-- A record of known fields in the order of their names. -/
theorem record_of_sorted {dialect : Dialect} {names required : List String} {defaults a : α}
    {set : α → String → Reader α} {fields : List (String × Document)}
    (hknown : ∀ n ∈ fields.map Prod.fst, n ∈ names) (hnodup : (fields.map Prod.fst).Nodup)
    (hsorted : (fields.map Prod.fst).Pairwise (· ≤ ·))
    (hrequired : ∀ n ∈ required, n ∈ fields.map Prod.fst)
    (hset : setAll set defaults fields = .ok a) :
    record dialect names required defaults set (.object fields) = .ok a :=
  record_eq_ok_iff.mpr ⟨fields, recordFields_of_sorted hknown hnodup hsorted, hset, hrequired⟩

/-- A field is set to what `field` reads by `put`, which overwrites what it put before and does
not touch other fields. -/
structure SetsField (set : α → String → Reader α) (name : String) (field : Reader β)
    (put : α → β → α) : Prop where
  set_name : ∀ a d, set a name d = (field d).map (put a)
  put_put : ∀ a b c, put (put a b) c = put a c
  set_put : ∀ {n}, n ≠ name → ∀ a b d, set (put a b) n d = (set a n d).map (put · b)

section SetAll

variable {set : α → String → Reader α} {name : String} {field : Reader β} {put : α → β → α}

theorem setAll_put (h : SetsField set name field put) {fields : List (String × Document)}
    (hname : name ∉ fields.map Prod.fst) (a : α) (b : β) :
    setAll set (put a b) fields = (setAll set a fields).map (put · b) := by
  induction fields generalizing a with
  | nil => rfl
  | cons f fields ih =>
      obtain ⟨n, d⟩ := f
      rw [List.map_cons, List.mem_cons, not_or] at hname
      rw [setAll, setAll, h.set_put (Ne.symm hname.1)]
      cases set a n d with
      | error refusal => rfl
      | ok a' => exact ih hname.2 a'

theorem setAll_withValue (h : SetsField set name field put) {v : Document} {b : β}
    (hv : field v = .ok b) {fields : List (String × Document)}
    (hnodup : (fields.map Prod.fst).Nodup) (hname : name ∈ fields.map Prod.fst) {a a' : α}
    (hset : setAll set a fields = .ok a') :
    setAll set a (withValue name v fields) = .ok (put a' b) := by
  induction fields generalizing a with
  | nil => cases hname
  | cons f fields ih =>
      obtain ⟨n, d⟩ := f
      obtain ⟨hnew, hnodup⟩ := List.nodup_cons.mp hnodup
      rw [setAll] at hset
      rw [withValue_cons, setAll]
      by_cases hn : n = name
      · subst hn
        rw [if_pos rfl, withValue_of_notMem hnew, h.set_name, hv]
        rw [h.set_name] at hset
        cases hd : field d with
        | error refusal =>
            rw [hd] at hset
            cases hset
        | ok c =>
            rw [hd] at hset
            change setAll set (put a c) fields = .ok a' at hset
            change setAll set (put a b) fields = .ok (put a' b)
            rw [← h.put_put a c b, setAll_put h hnew, hset]
            rfl
      · rw [if_neg hn]
        cases hd : set a n d with
        | error refusal =>
            rw [hd] at hset
            cases hset
        | ok a₁ =>
            rw [hd] at hset
            exact ih hnodup (List.mem_of_ne_of_mem (Ne.symm hn) hname) hset

theorem SetsField.readsField (h : SetsField set name field put) {dialect : Dialect}
    {names required : List String} {defaults : α} (hname : name ∈ names) :
    ReadsField (record dialect names required defaults set) name field put := by
  intro fields a v b hread hmem hv
  obtain ⟨known, hknown, hset, hrequired⟩ := record_eq_ok_iff.mp hread
  refine record_eq_ok_iff.mpr ⟨_, recordFields_withValue hknown name v, ?_, ?_⟩
  · exact setAll_withValue h hv (nodup_of_recordFields hknown)
      (mem_of_recordFields hknown hname hmem) hset
  · rwa [map_fst_withValue]

end SetAll

theorem map_map {γ : Type} (r : Except Refusal α) (f : α → β) (g : β → γ) :
    (r.map f).map g = r.map fun a ↦ g (f a) := by
  cases r <;> rfl

end Configuration
end QueryBench
