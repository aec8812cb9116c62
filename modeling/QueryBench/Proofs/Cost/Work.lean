import QueryBench.Proofs.Cost.Means

/-!
# What a row of the cost report holds

A group has a row if its query has reference work and its scale factor is a positive
number; the row divides the mean of the samples by the product of the two.  A group
without a row has a single fault, and a missing reference comes before an unusable scale
factor.
-/

namespace QueryBench

/-! ## Scale factors -/

theorem unpack_zero : (0.0 : Float).toModel.unpack = .zero .positive := by rfl

/-- Finite numbers are compared with zero in either direction. -/
theorem zero_lt_iff_not_le {x : Float} (h : x.isFinite = true) : 0.0 < x ↔ ¬ x ≤ 0.0 := by
  have hlt : 0.0 < x ↔
      Float.Model.UnpackedFloat.lt (.zero .positive) x.toModel.unpack = true := by
    rw [← unpack_zero]
    exact decide_eq_true_iff
  have hle : x ≤ 0.0 ↔
      Float.Model.UnpackedFloat.le x.toModel.unpack (.zero .positive) = true := by
    rw [← unpack_zero]
    exact decide_eq_true_iff
  have hfinite : x.toModel.unpack.isFinite = true := h
  rw [hlt, hle]
  cases hx : x.toModel.unpack with
  | infinity sign =>
      rw [hx] at hfinite
      cases hfinite
  | notANumber =>
      rw [hx] at hfinite
      cases hfinite
  | zero sign => cases sign <;> decide
  | finite sign mantissa exponent hpos =>
      cases sign with
      | positive => exact iff_of_true rfl Bool.false_ne_true
      | negative => exact iff_of_false Bool.false_ne_true (not_not_intro rfl)

theorem not_finite_or_le_iff {x : Float} :
    (!x.isFinite || decide (x ≤ 0.0)) = true ↔ ¬ (x.isFinite = true ∧ 0.0 < x) := by
  cases h : x.isFinite with
  | false => simp
  | true => simp [zero_lt_iff_not_le h]

namespace ScaleFactor

/-- The label is a numeral of a positive finite number. -/
def Denotes (s : ScaleFactor) (x : Float) : Prop :=
  Numeral.float? s.label = some x ∧ x.isFinite = true ∧ 0.0 < x

theorem factor_eq_ok_iff {s : ScaleFactor} {x : Float} : s.factor = .ok x ↔ s.Denotes x := by
  rw [factor, Denotes]
  cases Numeral.float? s.label with
  | none => simp
  | some y =>
      dsimp only
      split
      · rename_i hunusable
        rw [not_finite_or_le_iff] at hunusable
        constructor
        · rintro ⟨⟩
        · rintro ⟨heq, hx⟩
          obtain rfl := Option.some.inj heq
          exact absurd hx hunusable
      · rename_i husable
        rw [not_finite_or_le_iff, not_not] at husable
        constructor
        · rintro ⟨⟩
          exact ⟨rfl, husable⟩
        · rintro ⟨heq, -⟩
          rw [Option.some.inj heq]

end ScaleFactor

/-! ## Means of readings -/

/-- The mean of a counter over some samples, added up in their order. -/
def meanReading (samples : List Sample) (k : Counter) : Float :=
  samples.foldl (fun x s ↦ x + s.reading.get k) 0.0 / Float.ofNat samples.length

theorem foldl_tally_add (t : Tally) (samples : List Sample) (k : Counter) :
    (samples.foldl (fun t s ↦ t.add s.reading) t).sum.get k =
        samples.foldl (fun x s ↦ x + s.reading.get k) (t.sum.get k) ∧
      (samples.foldl (fun t s ↦ t.add s.reading) t).count = t.count + samples.length := by
  induction samples generalizing t with
  | nil => exact ⟨rfl, rfl⟩
  | cons s rest ih =>
      obtain ⟨hsum, hcount⟩ := ih (t.add s.reading)
      rw [List.foldl_cons, List.foldl_cons, hsum, hcount, List.length_cons]
      refine ⟨?_, ?_⟩
      · simp [Tally.add, Counters.add]
      · simp only [Tally.add]
        omega

theorem get_mean_ofSamples (samples : List Sample) (k : Counter) :
    (Tally.ofSamples samples).mean.get k = meanReading samples k := by
  obtain ⟨hsum, hcount⟩ := foldl_tally_add .empty samples k
  have hzero : Tally.empty.sum.get k = 0.0 := by simp [Tally.empty, Counters.zero]
  rw [hzero] at hsum
  rw [Tally.mean, Counters.map, Counters.get_ofFn, meanReading, Tally.ofSamples, hsum, hcount]
  simp [Tally.empty]

/-! ## Rows and faults of groups -/

/-- Why a group has no row. -/
inductive CostFault.Arises (reference : ReferenceTable) (rules : QueryRules) (g : Group) :
    CostFault → Prop
  | missingReference (h : reference.get? (rules.rawId g.query) = none) :
      Arises reference rules g (.missingReference (rules.rawId g.query))
  | scaleFactor {tuples : UInt64} {fault : ScaleFactor.Fault}
      (href : reference.get? (rules.rawId g.query) = some tuples)
      (hfactor : g.scaleFactor.factor = .error fault) :
      Arises reference rules g (.scaleFactor g.scaleFactor fault)

namespace CostRow

variable {reference : ReferenceTable} {rules : QueryRules}

/-- The group that a row reports on, under its display id. -/
def shownGroup (row : CostRow) : Group := ⟨row.backend, row.displayQuery, row.scaleFactor⟩

/-- The row divides the mean readings of its samples by their work, and leaves the ratio
among them as it is. -/
def IsQuotient (reference : ReferenceTable) (rules : QueryRules) (samples : List Sample)
    (row : CostRow) : Prop :=
  row.query = rules.rawId row.displayQuery ∧
    ∃ tuples factor, reference.get? row.query = some tuples ∧ row.scaleFactor.Denotes factor ∧
      ∀ k, row.perTuple.get k =
        let mean := meanReading (samples.filter fun s ↦ s.group = row.shownGroup) k
        if k = .ipc then mean else mean / (factor * Float.ofNat tuples.toNat)

theorem get_perWork (mean : Counters) (work : Float) (k : Counter) :
    (perWork mean work).get k = if k = .ipc then mean.get k else mean.get k / work := by
  rw [perWork, Counters.map, Counters.get_ofFn]
  cases k <;> rfl

theorem ofAggregate_eq_error_iff {a : Aggregate} {fault : CostFault} :
    ofAggregate reference rules a = .error fault ↔ fault.Arises reference rules a.group := by
  unfold ofAggregate
  dsimp only
  cases href : reference.get? (rules.rawId a.group.query) with
  | none =>
      constructor
      · rintro ⟨⟩
        exact .missingReference href
      · intro h
        cases h with
        | missingReference => rfl
        | scaleFactor href' => simp [href] at href'
  | some tuples =>
      cases hfactor : a.group.scaleFactor.factor with
      | error fault' =>
          constructor
          · rintro ⟨⟩
            exact .scaleFactor href hfactor
          · intro h
            cases h with
            | missingReference href' => simp [href] at href'
            | scaleFactor _ hfactor' =>
                rw [hfactor] at hfactor'
                cases hfactor'
                rfl
      | ok factor =>
          constructor
          · rintro ⟨⟩
          · intro h
            cases h with
            | missingReference href' => simp [href] at href'
            | scaleFactor _ hfactor' => simp [hfactor] at hfactor'

theorem ofAggregate_eq_ok_iff {a : Aggregate} {row : CostRow} :
    ofAggregate reference rules a = .ok row ↔
      ∃ tuples factor, reference.get? (rules.rawId a.group.query) = some tuples ∧
        a.group.scaleFactor.Denotes factor ∧
        row = ⟨a.group.engine, rules.rawId a.group.query, a.group.query, a.group.scaleFactor,
          perWork a.mean (factor * Float.ofNat tuples.toNat)⟩ := by
  unfold ofAggregate
  simp only [← ScaleFactor.factor_eq_ok_iff]
  cases reference.get? (rules.rawId a.group.query) with
  | none => simp
  | some tuples => cases a.group.scaleFactor.factor <;> simp [eq_comm]

theorem exists_ofAggregate_iff {a : Aggregate} :
    (∃ row, ofAggregate reference rules a = .ok row) ↔
      (∃ tuples, reference.get? (rules.rawId a.group.query) = some tuples) ∧
        ∃ factor, a.group.scaleFactor.Denotes factor := by
  simp only [ofAggregate_eq_ok_iff]
  constructor
  · rintro ⟨row, tuples, factor, href, hfactor, -⟩
    exact ⟨⟨tuples, href⟩, factor, hfactor⟩
  · rintro ⟨⟨tuples, href⟩, factor, hfactor⟩
    exact ⟨_, tuples, factor, href, hfactor, rfl⟩

/-- A group has a row unless a fault arises. -/
theorem exists_ofAggregate_iff_no_fault {a : Aggregate} :
    (∃ row, ofAggregate reference rules a = .ok row) ↔
      ∀ fault : CostFault, ¬ fault.Arises reference rules a.group := by
  simp only [← ofAggregate_eq_error_iff]
  cases ofAggregate reference rules a <;> simp

theorem shownGroup_of_ofAggregate {a : Aggregate} {row : CostRow}
    (h : ofAggregate reference rules a = .ok row) : row.shownGroup = a.group := by
  obtain ⟨tuples, factor, -, -, rfl⟩ := ofAggregate_eq_ok_iff.mp h
  rfl

theorem isQuotient_of_ofAggregate {samples : List Sample} {a : Aggregate}
    (ha : a ∈ aggregateMean samples) {row : CostRow}
    (h : ofAggregate reference rules a = .ok row) : row.IsQuotient reference rules samples := by
  obtain ⟨tuples, factor, href, hfactor, rfl⟩ := ofAggregate_eq_ok_iff.mp h
  refine ⟨rfl, tuples, factor, href, hfactor, ?_⟩
  intro k
  have hmean : a.mean.get k = meanReading (samples.filter fun s ↦ s.group = a.group) k := by
    rw [(mem_aggregateMean.mp ha).2]
    exact get_mean_ofSamples _ k
  rw [get_perWork, hmean]
  rfl

end CostRow
end QueryBench
