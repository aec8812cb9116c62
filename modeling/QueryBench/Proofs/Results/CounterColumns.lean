import Mathlib.Data.List.Forall2
import Mathlib.Data.List.NodupEquivFin
import Mathlib.Data.List.ReduceOption
import QueryBench.Proofs.Csv.FieldText
import QueryBench.Results.CounterTable

/-!
# Columns of counter tables

A counter table may list its columns in any order and among others.  Columns that are
found by name are found where they have been moved to, and then every row reads as before:
its counters are looked at in their own order, not in that of the columns.
-/

namespace QueryBench
namespace CounterTable

open Csv (exists_texts_iff headerTexts_eq_ok_iff text? texts_eq_ok_iff)

/-- The names of the columns that every table has. -/
def requiredNames : List String :=
  "backend" :: "query" :: "sf" :: Counter.all.map Counter.inputName

/-- Where the columns of a new table come from: each place holds one of `width` old columns,
which all have one place, or a further column. -/
structure Arrangement (width : Nat) where
  origins : List (Option Nat)
  perm : origins.reduceOption.Perm (List.range width)

/-- The column that `k` is moved to. -/
def Arrangement.Places {width : Nat} (a : Arrangement width) (k k' : Nat) : Prop :=
  a.origins[k']? = some (some k)

/-- A record of the new table has the cells of the old one at their new places, and texts in
the further columns. -/
structure Arrangement.Moves {width : Nat} (a : Arrangement width) (old new : List Bytes) :
    Prop where
  length_old : old.length = width
  length_new : new.length = a.origins.length
  moved : ∀ k k', a.Places k k' → new[k']? = old[k]?
  further : ∀ k' : Nat, a.origins[k']? = some none → ∀ f, new[k']? = some f → (text? f).isSome

/-- The columns of a table rearranged, in its header and in all its rows alike, with further
columns of other names among them. -/
inductive IsRearranged : List Csv.Record → List Csv.Record → Prop
  | intro {header header' : Csv.Record} {rows rows' : List Csv.Record}
      (a : Arrangement header.fields.length)
      (hnames : ∀ name ∈ requiredNames, (header.fields.map text?).count (some name) = 1)
      (hheader : a.Moves header.fields header'.fields)
      (hfurther : ∀ k' : Nat, a.origins[k']? = some none →
        ∀ f, header'.fields[k']? = some f → ∀ name ∈ requiredNames, text? f ≠ some name)
      (hrows : List.Forall₂ (fun r r' ↦ a.Moves r.fields r'.fields) rows rows') :
      IsRearranged (header :: rows) (header' :: rows')

namespace Arrangement

variable {width : Nat} (a : Arrangement width)

theorem exists_places {k : Nat} (hk : k < width) : ∃ k', a.Places k k' := by
  have hmem : some k ∈ a.origins := by
    rw [← List.reduceOption_mem_iff, a.perm.mem_iff]
    exact List.mem_range.mpr hk
  exact List.getElem?_of_mem hmem

/-- What stands at a place is a further column or an old one. -/
theorem further_or_places {k' : Nat} (hk' : k' < a.origins.length) :
    a.origins[k']? = some none ∨ ∃ k, a.Places k k' := by
  cases horigin : a.origins[k'] with
  | none => exact .inl (by rw [List.getElem?_eq_getElem hk', horigin])
  | some k => exact .inr ⟨k, by rw [Places, List.getElem?_eq_getElem hk', horigin]⟩

end Arrangement

/-- A record is moved if each of its cells is. -/
theorem Arrangement.moves_of_cells {width : Nat} (a : Arrangement width) {old new : List Bytes}
    (hold : old.length = width) (hnew : new.length = a.origins.length)
    (hmoved : ∀ p ∈ a.origins.zipIdx, ∀ k ∈ p.1, new[p.2]? = old[k]?)
    (hfurther : ∀ p ∈ a.origins.zipIdx, p.1 = none → ∀ f ∈ new[p.2]?, (text? f).isSome) :
    a.Moves old new where
  length_old := hold
  length_new := hnew
  moved k k' hplaces := hmoved (some k, k') (List.mk_mem_zipIdx_iff_getElem?.mpr hplaces) k rfl
  further k' hk' f hf := hfurther (none, k') (List.mk_mem_zipIdx_iff_getElem?.mpr hk') rfl f hf

/-! ## Texts of moved records -/

section Texts

variable {width : Nat} {a : Arrangement width} {old new : List Bytes}

theorem Arrangement.Moves.isSome_iff (h : a.Moves old new) :
    (∀ f ∈ new, (text? f).isSome) ↔ ∀ f ∈ old, (text? f).isSome := by
  constructor
  · intro hnew f hf
    obtain ⟨k, hk⟩ := List.getElem?_of_mem hf
    have hlt : k < width := h.length_old ▸ (List.getElem?_eq_some_iff.mp hk).1
    obtain ⟨k', hplaces⟩ := a.exists_places hlt
    exact hnew f (List.mem_of_getElem? ((h.moved k k' hplaces).trans hk))
  · intro hold f hf
    obtain ⟨k', hk'⟩ := List.getElem?_of_mem hf
    have hlt : k' < a.origins.length := h.length_new ▸ (List.getElem?_eq_some_iff.mp hk').1
    rcases a.further_or_places hlt with hfurther | ⟨k, hplaces⟩
    · exact h.further k' hfurther f hk'
    · exact hold f (List.mem_of_getElem? ((h.moved k k' hplaces).symm.trans hk'))

/-- The old record and the new one both have texts, or neither has. -/
theorem Arrangement.Moves.texts_cases (h : a.Moves old new)
    {x x' : Except Csv.Fault (List String)}
    (hx : ∀ texts, x = .ok texts ↔ old.map text? = texts.map some)
    (hx' : ∀ texts, x' = .ok texts ↔ new.map text? = texts.map some) :
    (∃ fault fault', x = .error fault ∧ x' = .error fault') ∨
      ∃ texts texts', x = .ok texts ∧ x' = .ok texts' := by
  have hiff : (∃ texts, x = .ok texts) ↔ ∃ texts, x' = .ok texts := by
    simp only [hx, hx', exists_texts_iff]
    exact h.isSome_iff.symm
  cases x with
  | ok texts =>
      obtain ⟨texts', htexts'⟩ := hiff.mp ⟨texts, rfl⟩
      exact .inr ⟨texts, texts', rfl, htexts'⟩
  | error fault =>
      cases x' with
      | ok texts' =>
          obtain ⟨texts, htexts⟩ := hiff.mpr ⟨texts', rfl⟩
          cases htexts
      | error fault' => exact .inl ⟨fault, fault', rfl, rfl⟩

theorem Arrangement.Moves.text_eq (h : a.Moves old new) {texts texts' : List String}
    (htexts : old.map text? = texts.map some) (htexts' : new.map text? = texts'.map some)
    {k k' : Nat} (hplaces : a.Places k k') : texts'[k']? = texts[k]? := by
  have hcells : (texts'.map some)[k']? = (texts.map some)[k]? := by
    rw [← htexts, ← htexts', List.getElem?_map, List.getElem?_map, h.moved k k' hplaces]
  rw [List.getElem?_map, List.getElem?_map] at hcells
  exact Option.map_injective (fun _ _ heq ↦ Option.some.inj heq) hcells

theorem Arrangement.Moves.cell_eq (h : a.Moves old new) {texts texts' : List String}
    (htexts : old.map text? = texts.map some) (htexts' : new.map text? = texts'.map some)
    {k k' : Nat} (hplaces : a.Places k k') : cell texts' k' = cell texts k := by
  rw [cell, cell, List.getD_eq_getElem?_getD, List.getD_eq_getElem?_getD,
    h.text_eq htexts htexts' hplaces]

end Texts

/-! ## Columns -/

theorem eq_of_count_le_one {α : Type} [BEq α] [LawfulBEq α] {xs : List α} {x : α}
    (h : xs.count x ≤ 1) {i j : Nat} (hi : xs[i]? = some x) (hj : xs[j]? = some x) : i = j := by
  by_contra hne
  wlog hlt : i < j generalizing i j
  · exact this hj hi (Ne.symm hne) (by omega)
  obtain ⟨hi, hxi⟩ := List.getElem?_eq_some_iff.mp hi
  obtain ⟨hj, hxj⟩ := List.getElem?_eq_some_iff.mp hj
  have hduplicate : xs.Duplicate x := List.duplicate_iff_exists_distinct_get.mpr
    ⟨⟨i, hi⟩, ⟨j, hj⟩, hlt, hxi.symm, hxj.symm⟩
  have htwice : 2 ≤ xs.count x :=
    List.replicate_sublist_iff.mp (List.duplicate_iff_sublist.mp hduplicate)
  omega

theorem column_eq_ok {names : List String} {name : String} {k : Nat}
    (h : column names name = .ok k) : names[k]? = some name := by
  rw [column] at h
  split at h
  · cases h
  · rename_i k' hk'
    cases h
    obtain ⟨hlt, hname, -⟩ := List.idxOf?_eq_some_iff.mp hk'
    exact List.getElem?_eq_some_iff.mpr ⟨hlt, hname⟩

theorem exists_column {names : List String} {name : String} (h : name ∈ names) :
    ∃ k, column names name = .ok k := by
  rw [column]
  cases hk : names.idxOf? name with
  | none => exact absurd h (List.idxOf?_eq_none_iff.mp hk)
  | some k => exact ⟨k, rfl⟩

section Header

variable {header header' : List Bytes} {a : Arrangement header.length}
  {names names' : List String}

/-- A column that has one place in the old table is found where it has been moved to. -/
theorem exists_column_moved (hmoves : a.Moves header header')
    (hnames : header.map text? = names.map some) (hnames' : header'.map text? = names'.map some)
    {name : String} (hcount : (header.map text?).count (some name) = 1)
    (hfurther : ∀ k' : Nat, a.origins[k']? = some none →
      ∀ f, header'[k']? = some f → text? f ≠ some name) :
    ∃ k k', column names name = .ok k ∧ column names' name = .ok k' ∧ a.Places k k' := by
  have hmem : name ∈ names := by
    have hsome : some name ∈ names.map some := by
      rw [← hnames]
      exact List.count_pos_iff.mp (by omega)
    simpa using hsome
  obtain ⟨k, hk⟩ := exists_column hmem
  have hname := column_eq_ok hk
  have hlength : names.length = header.length := by
    have hlengths := congrArg List.length hnames
    rw [List.length_map, List.length_map] at hlengths
    exact hlengths.symm
  have hlt : k < header.length := hlength ▸ (List.getElem?_eq_some_iff.mp hname).1
  obtain ⟨j, hj⟩ := a.exists_places hlt
  have hmem' : name ∈ names' :=
    List.mem_of_getElem? ((hmoves.text_eq hnames hnames' hj).trans hname)
  obtain ⟨k', hk'⟩ := exists_column hmem'
  have hname' := column_eq_ok hk'
  -- The place that is found belongs to no further column, so it is that of an old column with
  -- the name, and there is only one.
  have hcell' : (header'.map text?)[k']? = some (some name) := by
    rw [hnames', List.getElem?_map, hname']
    rfl
  rw [List.getElem?_map, Option.map_eq_some_iff] at hcell'
  obtain ⟨f, hf, htext⟩ := hcell'
  have hlt' : k' < a.origins.length :=
    hmoves.length_new ▸ (List.getElem?_eq_some_iff.mp hf).1
  refine ⟨k, k', hk, hk', ?_⟩
  rcases a.further_or_places hlt' with hnone | ⟨l, hplaces⟩
  · exact absurd htext (hfurther k' hnone f hf)
  · have hcell : ∀ {i : Nat}, names[i]? = some name →
        (header.map text?)[i]? = some (some name) := by
      intro i hi
      rw [hnames, List.getElem?_map, hi]
      rfl
    have hl : names[l]? = some name :=
      (hmoves.text_eq hnames hnames' hplaces).symm.trans hname'
    rw [eq_of_count_le_one hcount.le (hcell hname) (hcell hl)]
    exact hplaces

end Header

/-- The columns of the new table are those of the old one, each at its new place. -/
structure Arrangement.Relates {width : Nat} (a : Arrangement width) (old new : Columns) :
    Prop where
  backend : a.Places old.backend new.backend
  query : a.Places old.query new.query
  scaleFactor : a.Places old.scaleFactor new.scaleFactor
  counters : List.Forall₂ (fun p p' ↦ p'.1 = p.1 ∧ a.Places p.2 p'.2) old.counters new.counters

theorem exists_counterColumns {width : Nat} {a : Arrangement width} {names names' : List String}
    {counters : List Counter}
    (h : ∀ c ∈ counters, ∃ k k', column names c.inputName = .ok k ∧
      column names' c.inputName = .ok k' ∧ a.Places k k') :
    ∃ cs cs', counterColumns names counters = .ok cs ∧ counterColumns names' counters = .ok cs' ∧
      List.Forall₂ (fun p p' ↦ p'.1 = p.1 ∧ a.Places p.2 p'.2) cs cs' := by
  induction counters with
  | nil => exact ⟨[], [], rfl, rfl, .nil⟩
  | cons c counters ih =>
      obtain ⟨k, k', hk, hk', hplaces⟩ := h c List.mem_cons_self
      obtain ⟨cs, cs', hcs, hcs', hall⟩ := ih fun d hd ↦ h d (List.mem_cons_of_mem c hd)
      refine ⟨(c, k) :: cs, (c, k') :: cs', ?_, ?_, .cons ⟨rfl, hplaces⟩ hall⟩
      · rw [counterColumns, hk, hcs]
        rfl
      · rw [counterColumns, hk', hcs']
        rfl

theorem exists_columns {header header' : List Bytes} {a : Arrangement header.length}
    {names names' : List String} (hmoves : a.Moves header header')
    (hnames : header.map text? = names.map some) (hnames' : header'.map text? = names'.map some)
    (hcount : ∀ name ∈ requiredNames, (header.map text?).count (some name) = 1)
    (hfurther : ∀ k' : Nat, a.origins[k']? = some none →
      ∀ f, header'[k']? = some f → ∀ name ∈ requiredNames, text? f ≠ some name) :
    ∃ c c', columns names = .ok c ∧ columns names' = .ok c' ∧ a.Relates c c' := by
  have hfound : ∀ name ∈ requiredNames, ∃ k k', column names name = .ok k ∧
      column names' name = .ok k' ∧ a.Places k k' := fun name hname ↦
    exists_column_moved hmoves hnames hnames' (hcount name hname)
      fun k' hk' f hf ↦ hfurther k' hk' f hf name hname
  obtain ⟨b, b', hb, hb', hbackend⟩ := hfound "backend" (by simp [requiredNames])
  obtain ⟨q, q', hq, hq', hquery⟩ := hfound "query" (by simp [requiredNames])
  obtain ⟨s, s', hs, hs', hsf⟩ := hfound "sf" (by simp [requiredNames])
  obtain ⟨cs, cs', hcs, hcs', hcounters⟩ :=
    exists_counterColumns fun c (hc : c ∈ Counter.all) ↦ hfound c.inputName
      (List.mem_append_right ["backend", "query", "sf"] (List.mem_map_of_mem hc))
  refine ⟨⟨b, q, s, cs⟩, ⟨b', q', s', cs'⟩, ?_, ?_, hbackend, hquery, hsf, hcounters⟩
  · rw [columns, hb, hq, hs, hcs]
    rfl
  · rw [columns, hb', hq', hs', hcs']
    rfl

/-! ## Rows -/

section Rows

variable {width : Nat} {a : Arrangement width} {c c' : Columns}

/-- Two readings have one outcome, but for the line of a cell that is no number where the lines
are not the same, or both fail at a cell that is no text. -/
inductive Agrees {α : Type} (sameLines : Prop) : Except Defect α → Except Defect α → Prop
  | same (x : Except Defect α) : Agrees sameLines x x
  | number {line line' : Nat} (column value : String) (hline : sameLines → line' = line) :
      Agrees sameLines (.error (.number line column value)) (.error (.number line' column value))
  | table (fault fault' : Csv.Fault) :
      Agrees sameLines (.error (.table fault)) (.error (.table fault'))

namespace Agrees

variable {α β : Type} {p q : Prop} {x y : Except Defect α}

theorem mono (h : Agrees p x y) (himp : q → p) : Agrees q x y := by
  cases h with
  | same => exact .same x
  | number column value hline => exact .number column value fun hq ↦ hline (himp hq)
  | table fault fault' => exact .table fault fault'

theorem map (h : Agrees p x y) (f : α → β) : Agrees p (x.map f) (y.map f) := by
  cases h with
  | same => exact .same _
  | number column value hline => exact .number column value hline
  | table fault fault' => exact .table fault fault'

theorem eq_ok_iff (h : Agrees p x y) (r : α) : y = .ok r ↔ x = .ok r := by
  cases h with
  | same => exact .rfl
  | number => simp
  | table => simp

theorem eq_rowLimit_iff (h : Agrees p x y) (n : Nat) :
    y = .error (.rowLimit n) ↔ x = .error (.rowLimit n) := by
  cases h with
  | same => exact .rfl
  | number => simp
  | table => simp

theorem exists_number_iff (h : Agrees p x y) (column value : String) :
    (∃ line, y = .error (.number line column value)) ↔
      ∃ line, x = .error (.number line column value) := by
  cases h with
  | same => exact .rfl
  | number => simp
  | table => simp

theorem eq_number_iff (h : Agrees p x y) (hp : p) (line : Nat) (column value : String) :
    y = .error (.number line column value) ↔ x = .error (.number line column value) := by
  cases h with
  | same => exact .rfl
  | number column value hline => rw [hline hp]
  | table => simp

end Agrees

theorem readings_moved {line line' : Nat} {texts texts' : List String}
    (hcell : ∀ {k k'}, a.Places k k' → cell texts' k' = cell texts k)
    {cs cs' : List (Counter × Nat)}
    (h : List.Forall₂ (fun p p' ↦ p'.1 = p.1 ∧ a.Places p.2 p'.2) cs cs') :
    Agrees (line' = line) (readings line texts cs) (readings line' texts' cs') := by
  induction h with
  | nil => exact .same _
  | @cons p p' cs cs' hp _ ih =>
      obtain ⟨counter, k⟩ := p
      obtain ⟨counter', k'⟩ := p'
      obtain ⟨rfl, hplaces⟩ := hp
      rw [readings, readings, hcell hplaces]
      cases Numeral.float? (cell texts k) with
      | none => exact .number _ _ id
      | some x => exact ih.map _

theorem sample_moved (h : a.Relates c c') {line line' : Nat} {texts texts' : List String}
    (hcell : ∀ {k k'}, a.Places k k' → cell texts' k' = cell texts k) :
    Agrees (line' = line) (sample c line texts) (sample c' line' texts') := by
  rw [sample, sample, hcell h.backend, hcell h.query, hcell h.scaleFactor]
  exact (readings_moved hcell h.counters).map _

theorem ofRecords_moved (h : a.Relates c c') (limit room : Nat) {rows rows' : List Csv.Record}
    (hrows : List.Forall₂ (fun r r' ↦ a.Moves r.fields r'.fields) rows rows') :
    Agrees (rows'.map Csv.Record.line = rows.map Csv.Record.line)
      (ofRecords c width limit room rows) (ofRecords c' a.origins.length limit room rows') := by
  induction hrows generalizing room with
  | nil => cases room <;> exact .same _
  | @cons r r' rows rows' hmoves _ ih =>
      cases room with
      | zero => exact .same _
      | succ room =>
          have hwidth : rowTexts width r = r.texts := if_pos hmoves.length_old
          have hwidth' : rowTexts a.origins.length r' = r'.texts := if_pos hmoves.length_new
          rw [ofRecords, ofRecords, hwidth, hwidth']
          rcases hmoves.texts_cases (fun _ ↦ texts_eq_ok_iff) (fun _ ↦ texts_eq_ok_iff) with
            ⟨fault, fault', hfault, hfault'⟩ | ⟨texts, texts', htexts, htexts'⟩
          · rw [hfault, hfault']
            exact .table fault fault'
          · rw [htexts, htexts']
            rw [texts_eq_ok_iff] at htexts htexts'
            dsimp only
            have hsample : Agrees (r'.line = r.line) (sample c r.line texts)
                (sample c' r'.line texts') :=
              sample_moved h fun hplaces ↦ hmoves.cell_eq htexts htexts' hplaces
            generalize sample c r.line texts = x at hsample
            generalize sample c' r'.line texts' = y at hsample
            cases hsample with
            | same x =>
                cases x with
                | error defect => exact .same _
                | ok s => exact ((ih room).map _).mono fun hlines ↦ (List.cons.inj hlines).2
            | number column value hline =>
                exact .number column value fun hlines ↦ hline (List.cons.inj hlines).1
            | table fault fault' => exact .table fault fault'

theorem readings_cases (line : Nat) (texts : List String) (cs : List (Counter × Nat)) :
    (∃ xs, readings line texts cs = .ok xs) ∨
      ∃ column value, readings line texts cs = .error (.number line column value) := by
  induction cs with
  | nil => exact .inl ⟨[], rfl⟩
  | cons p cs ih =>
      obtain ⟨counter, k⟩ := p
      rw [readings]
      cases Numeral.float? (cell texts k) with
      | none => exact .inr ⟨_, _, rfl⟩
      | some x =>
          rcases ih with ⟨xs, hxs⟩ | ⟨column, value, herror⟩
          · exact .inl ⟨(counter, x) :: xs, by rw [hxs]; rfl⟩
          · exact .inr ⟨column, value, by rw [herror]; rfl⟩

/-- Rows of texts that are as wide as the header are samples, or one of them has a cell that
is no number, or there are too many of them. -/
theorem ofRecords_cases (c : Columns) (limit : Nat) {room : Nat} {rows : List Csv.Record}
    (hwidth : ∀ r ∈ rows, r.fields.length = width)
    (htexts : ∀ r ∈ rows, ∀ f ∈ r.fields, (text? f).isSome) :
    (∃ samples, ofRecords c width limit room rows = .ok samples) ∨
      (∃ line column value,
        ofRecords c width limit room rows = .error (.number line column value)) ∨
      ofRecords c width limit room rows = .error (.rowLimit limit) := by
  induction rows generalizing room with
  | nil => exact .inl ⟨[], by cases room <;> rfl⟩
  | cons r rows ih =>
      cases room with
      | zero => exact .inr (.inr rfl)
      | succ room =>
          obtain ⟨texts, hok⟩ := exists_texts_iff.mpr (htexts r List.mem_cons_self)
          have hrow : rowTexts width r = .ok texts := by
            rw [rowTexts, if_pos (hwidth r List.mem_cons_self), texts_eq_ok_iff.mpr hok]
          rw [ofRecords, hrow]
          dsimp only
          rw [sample]
          rcases readings_cases r.line texts c.counters with ⟨xs, hxs⟩ | ⟨column, value, herror⟩
          · rw [hxs]
            rcases @ih room (fun r' hr' ↦ hwidth r' (List.mem_cons_of_mem r hr'))
              fun r' hr' ↦ htexts r' (List.mem_cons_of_mem r hr') with
              ⟨samples, hrest⟩ | ⟨line, column, value, hrest⟩ | hrest
            · exact .inl ⟨_ :: samples, by rw [Except.map, hrest]; rfl⟩
            · exact .inr (.inl ⟨line, column, value, by rw [Except.map, hrest]; rfl⟩)
            · exact .inr (.inr (by rw [Except.map, hrest]; rfl))
          · rw [herror]
            exact .inr (.inl ⟨r.line, column, value, rfl⟩)

end Rows

/-! ## Tables -/

variable {table table' : Bytes}

theorem parse_moved (limit : Nat) (h : IsRearranged (Csv.records table) (Csv.records table')) :
    Agrees ((Csv.records table').map Csv.Record.line = (Csv.records table).map Csv.Record.line)
      (parse limit table) (parse limit table') := by
  rw [parse, parse]
  generalize Csv.records table = records at h
  generalize Csv.records table' = records' at h
  cases h with
  | @intro header header' rows rows' a hnames hheader hfurther hrows =>
      dsimp only
      rcases hheader.texts_cases (fun _ ↦ headerTexts_eq_ok_iff) (fun _ ↦ headerTexts_eq_ok_iff)
        with ⟨fault, fault', hfault, hfault'⟩ | ⟨names, names', htexts, htexts'⟩
      · rw [hfault, hfault']
        exact .table fault fault'
      · rw [htexts, htexts']
        rw [headerTexts_eq_ok_iff] at htexts htexts'
        obtain ⟨c, c', hc, hc', hrelates⟩ := exists_columns hheader htexts htexts' hnames hfurther
        dsimp only
        rw [hc, hc', hheader.length_new]
        exact (ofRecords_moved hrelates limit limit hrows).mono fun hlines ↦
          (List.cons.inj hlines).2

theorem parse_cases (limit : Nat) (h : IsRearranged (Csv.records table) (Csv.records table'))
    (htexts : ∀ r ∈ Csv.records table, ∀ f ∈ r.fields, (text? f).isSome) :
    (∃ samples, parse limit table = .ok samples) ∨
      (∃ line column value, parse limit table = .error (.number line column value)) ∨
      parse limit table = .error (.rowLimit limit) := by
  rw [parse]
  generalize Csv.records table = records at h htexts
  generalize Csv.records table' = records' at h
  cases h with
  | @intro header header' rows rows' a hnames hheader hfurther hrows =>
      obtain ⟨names, hok⟩ := exists_texts_iff.mpr (htexts header List.mem_cons_self)
      obtain ⟨names', hok'⟩ := exists_texts_iff.mpr
        (hheader.isSome_iff.mpr (htexts header List.mem_cons_self))
      obtain ⟨c, c', hc, -, -⟩ := exists_columns hheader hok hok' hnames hfurther
      have hwidth : ∀ r ∈ rows, r.fields.length = header.fields.length := by
        intro r hr
        obtain ⟨k, hk, rfl⟩ := List.mem_iff_getElem.mp hr
        exact (hrows.get hk (hrows.length_eq ▸ hk)).length_old
      dsimp only
      rw [headerTexts_eq_ok_iff.mpr hok]
      dsimp only
      rw [hc]
      exact ofRecords_cases c limit hwidth fun r hr ↦ htexts r (List.mem_cons_of_mem header hr)

/-- Columns are located by their names only.  Where the columns of a table that has each of the
required ones once are rearranged, and further columns of other names are put among them, the
same samples are read, or the reading fails at the same cell or at the same limit; where the
rows still start on the same lines, the cell is told with the same line.  A table of texts has
no other outcome. -/
theorem columns_are_located_by_name (limit : Nat)
    (h : IsRearranged (Csv.records table) (Csv.records table')) :
    (∀ samples, parse limit table' = .ok samples ↔ parse limit table = .ok samples) ∧
      (∀ n, parse limit table' = .error (.rowLimit n) ↔
        parse limit table = .error (.rowLimit n)) ∧
      (∀ column value, (∃ line, parse limit table' = .error (.number line column value)) ↔
        ∃ line, parse limit table = .error (.number line column value)) ∧
      ((Csv.records table').map Csv.Record.line = (Csv.records table).map Csv.Record.line →
        ∀ line column value, parse limit table' = .error (.number line column value) ↔
          parse limit table = .error (.number line column value)) ∧
      ((∀ r ∈ Csv.records table, ∀ f ∈ r.fields, (text? f).isSome) →
        (∃ samples, parse limit table = .ok samples) ∨
          (∃ line column value, parse limit table = .error (.number line column value)) ∨
          parse limit table = .error (.rowLimit limit)) := by
  have hagrees := parse_moved limit h
  exact ⟨hagrees.eq_ok_iff, hagrees.eq_rowLimit_iff, hagrees.exists_number_iff,
    hagrees.eq_number_iff, parse_cases limit h⟩

/-- Two readings of a row are no numbers. -/
def misreadTable : Bytes :=
  Bytes.ofString <|
    "backend,query,sf,cycles,instructions,L1-misses,LLC-misses,branch-misses,IPC\n" ++
      "rof,q1,1,6,9,many,3,few,2\n"

/-- The same table with its columns in another order and a note among them. -/
def notedTable : Bytes :=
  Bytes.ofString <|
    "branch-misses,note,IPC,sf,query,L1-misses,backend,LLC-misses,instructions,cycles\n" ++
      "few,\"a, b\",2,1,q1,many,rof,3,9,6\n"

def notedColumns : Arrangement 9 where
  origins := [some 7, none, some 8, some 2, some 1, some 5, some 0, some 6, some 4, some 3]
  perm := by decide

/-- The first misses that are told are those that come first among the counters, although the
others come first among the columns. -/
theorem notedTable_reads_as_misreadTable :
    IsRearranged (Csv.records misreadTable) (Csv.records notedTable) ∧
      parse 10 notedTable = .error (.number 2 "L1-misses" "many") := by
  have hold : Csv.records misreadTable =
      [⟨["backend", "query", "sf", "cycles", "instructions", "L1-misses", "LLC-misses",
          "branch-misses", "IPC"].map Bytes.ofString, 0, 1, 0⟩,
        ⟨["rof", "q1", "1", "6", "9", "many", "3", "few", "2"].map Bytes.ofString, 1, 2, 76⟩] := by
    decide +kernel
  have hnew : Csv.records notedTable =
      [⟨["branch-misses", "note", "IPC", "sf", "query", "L1-misses", "backend", "LLC-misses",
          "instructions", "cycles"].map Bytes.ofString, 0, 1, 0⟩,
        ⟨["few", "a, b", "2", "1", "q1", "many", "rof", "3", "9", "6"].map Bytes.ofString,
          1, 2, 81⟩] := by
    decide +kernel
  have hrearranged : IsRearranged (Csv.records misreadTable) (Csv.records notedTable) := by
    rw [hold, hnew]
    refine .intro notedColumns (by decide +kernel)
      (notedColumns.moves_of_cells rfl rfl (by decide) (by decide +kernel)) ?_
      (.cons (notedColumns.moves_of_cells rfl rfl (by decide) (by decide +kernel)) .nil)
    intro k' hk' f hf
    have hplace : k' = 1 := by
      have hmem := List.mk_mem_zipIdx_iff_getElem?.mpr hk'
      simpa [notedColumns] using hmem
    subst hplace
    cases hf
    decide +kernel
  refine ⟨hrearranged, ?_⟩
  have hlines : (Csv.records notedTable).map Csv.Record.line =
      (Csv.records misreadTable).map Csv.Record.line := by
    rw [hold, hnew]
    rfl
  rw [(columns_are_located_by_name 10 hrearranged).2.2.2.1 hlines, parse, hold]
  rfl

end CounterTable
end QueryBench
