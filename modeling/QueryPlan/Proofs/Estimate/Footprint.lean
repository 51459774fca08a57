import Mathlib
import QueryPlan.Proofs.Estimate.Context
import QueryPlan.Proofs.Estimate.Resources

/-!
# The footprint of a pass

A pass over a plan shares its map of distinct counts with the passes over all other parts of a
larger plan. What it does to the map is bounded by its own scans: it changes and adds counts of
their columns only. No count and no number of tuples becomes negative if no count was, and the cost
does not fall. All of this holds from every state, also when the plan turns out to be infeasible on
the way; when it stays feasible, every column of a scan has a count at the end.

An operator writes the counts of the columns in the schemas below it. These are columns of scans,
unless something below the operator is not known; then the plan is infeasible and the operator
writes nothing. So the steps of a pass are confined to the columns of scans because selections and
joins look at the mark of feasibility before they look at a schema.

## Main definitions

* `PassState.Confined` : what a pass may do between two states.
* `Plan.ScansColumn` : a column is one of a table that a plan scans.

## Main results

* `Plan.confined_of_returns` : a pass is confined to the columns of the scans of the plan.
* `Plan.Yields.mem_keys_iff` : which columns have a count when a plan was carried out.
* `Plan.returns_footprint` : what a pass over a plan changes.
-/

namespace QueryPlan

/-! ### Confined steps -/

/-- Between the states `s` and `t`, a pass changed counts of the given columns only, and added none
for another column; no count is negative at the end, and the cost did not fall. -/
structure PassState.Confined (columns : List AttributeKey) (s t : PassState) : Prop where
  frame : ∀ k, k ∉ columns → t.distinct.get? k = s.distinct.get? k
  nonneg : Counts.Nonneg t.distinct
  cost_le : s.cost ≤ t.cost

namespace PassState.Confined

variable {columns columns' : List AttributeKey} {s t u : PassState}

theorem refl (hs : Counts.Nonneg s.distinct) (columns : List AttributeKey) :
    s.Confined columns s :=
  ⟨fun _ _ => rfl, hs, le_rfl⟩

theorem mono (h : s.Confined columns t) (hsub : columns ⊆ columns') : s.Confined columns' t :=
  ⟨fun k hk => h.frame k fun hmem => hk (hsub hmem), h.nonneg, h.cost_le⟩

theorem trans (hst : s.Confined columns t) (htu : t.Confined columns u) : s.Confined columns u :=
  ⟨fun k hk => (htu.frame k hk).trans (hst.frame k hk), htu.nonneg, hst.cost_le.trans htu.cost_le⟩

/-- What is recorded as events plays no part. -/
theorem record (h : s.Confined columns t) (events : List Event) :
    s.Confined columns { t with events := events } :=
  ⟨h.frame, h.nonneg, h.cost_le⟩

/-- A column that had no count before and is none of the given ones has none afterwards. -/
theorem mem_keys_or (h : s.Confined columns t) {k : AttributeKey} (hk : k ∈ t.distinct.keys) :
    k ∈ s.distinct.keys ∨ k ∈ columns := by
  by_cases hmem : k ∈ columns
  · exact .inr hmem
  · rw [OrderedMap.mem_keys_iff, h.frame k hmem] at hk
    exact .inl (OrderedMap.mem_keys_iff.2 hk)

end PassState.Confined

namespace Condition

variable {left right schema : Schema} {c : Condition} {cs : List Condition} {m m' : Counts}
  {k : AttributeKey} {tuples kept l r n : ℤ} {pairs pairs' : Binary64}

theorem Keeps.mem_keys_iff (h : c.Keeps schema m tuples kept m') :
    k ∈ m'.keys ↔ k ∈ m.keys ∨ k ∈ schema.keys := by
  obtain ⟨a, distinct, -, -, -, rfl⟩ := h
  rw [OrderedMap.mem_keys_insertAll, List.map_map]
  rfl

/-- The conditions of a join only set counts of columns that have one. -/
theorem Narrow.mem_keys_iff (h : Narrow left right cs m pairs m' pairs') :
    k ∈ m'.keys ↔ k ∈ m.keys := by
  induction h with
  | nil => rfl
  | @cons c cs m pairs a l r dl dr _ _ _ _ _ _ hdl hdr _ _ ih =>
    have hl : l.key ∈ m.keys := OrderedMap.mem_keys_iff.2 ⟨dl, hdl⟩
    have hr : r.key ∈ m.keys := OrderedMap.mem_keys_iff.2 ⟨dr, hdr⟩
    rw [ih, OrderedMap.mem_keys_insert, OrderedMap.mem_keys_insert]
    constructor
    · rintro (rfl | rfl | hk)
      exacts [hr, hl, hk]
    · exact fun hk => .inr (.inr hk)

end Condition

namespace PassM

variable {catalog : Catalog} {settings : Settings} {schema left right : Schema}
  {columns : List AttributeKey} {cs : List Condition} {c : Condition} {s t : PassState}
  {leftTuples rightTuples tuples n code : ℤ}

/-- A scan sets the counts of the columns of its table. -/
theorem confined_of_scan {table : String} (hs : Counts.Nonneg s.distinct)
    (h : (evaluateScan catalog settings table schema).Returns s n t) :
    0 ≤ n ∧ s.Confined schema.keys t := by
  obtain ⟨statistics, pages, hload, hpages, rfl, rfl⟩ := returns_evaluateScan_iff.1 h
  have htuples : (0 : ℤ) ≤ statistics.tupleCount := Int.natCast_nonneg _
  refine ⟨htuples, fun k hk => OrderedMap.get?_insertAll_of_not_mem ?_,
    hs.insertAll fun _ => Schema.nonneg_of_mem_measured,
    le_add_of_nonneg_right (pagesOf_le htuples hpages).1⟩
  rwa [Plan.map_fst_measured hload]

/-- A selection sets the counts of the columns of its input, if the plan is feasible so far. -/
theorem confined_of_select (hs : Counts.Nonneg s.distinct) (htuples : 0 ≤ tuples)
    (hsub : s.feasible = true → schema.keys ⊆ columns)
    (h : (evaluateSelect schema c tuples).Returns s n t) : 0 ≤ n ∧ s.Confined columns t := by
  cases hfeasible : s.feasible with
  | false =>
    obtain ⟨rfl, rfl⟩ := (returns_evaluateSelect_of_not_feasible hfeasible).1 h
    exact ⟨le_rfl, .refl hs columns⟩
  | true =>
    obtain ⟨m, hkeeps, rfl⟩ := (returns_evaluateSelect_iff hfeasible).1 h
    obtain ⟨hn, hm⟩ := hkeeps.nonneg hs htuples
    exact ⟨hn, fun k hk => hkeeps.frame fun hmem => hk (hsub hfeasible hmem), hm, le_rfl⟩

/-- Charging a join leaves all counts alone. -/
theorem confined_of_charge {leftPages rightPages : ℤ} (hs : Counts.Nonneg s.distinct)
    (hl : 0 ≤ leftPages) (hr : 0 ≤ rightPages) (htuples : 0 ≤ tuples)
    (h : (chargeJoin settings code leftPages rightPages tuples).Returns s n t) :
    0 ≤ n ∧ s.Confined columns t := by
  by_cases hcode : settings.Supports code
  · obtain ⟨events, hreturns⟩ := chargeJoin_returns hcode leftPages rightPages tuples s
    obtain ⟨rfl, rfl⟩ := h.unique hreturns
    exact ⟨htuples, fun _ _ => rfl, hs,
      le_add_of_nonneg_right (chargeOfCode_nonneg hcode hl hr)⟩
  · obtain ⟨events, hreturns⟩ := chargeJoin_gives_up hcode leftPages rightPages tuples s
    obtain ⟨rfl, rfl⟩ := h.unique hreturns
    exact ⟨le_rfl, fun _ _ => rfl, hs, le_rfl⟩

/-- A join sets counts of columns of its two sides, if the plan is feasible so far, even if the join
itself cannot be carried out. -/
theorem confined_of_join (hs : Counts.Nonneg s.distinct) (hl : 0 ≤ leftTuples)
    (hr : 0 ≤ rightTuples)
    (hsub : s.feasible = true → left.keys ⊆ columns ∧ right.keys ⊆ columns)
    (h : (evaluateJoin settings left right cs code leftTuples rightTuples).Returns s n t) :
    0 ≤ n ∧ s.Confined columns t := by
  cases hfeasible : s.feasible with
  | false =>
    obtain ⟨rfl, rfl⟩ := (returns_evaluateJoin_of_not_feasible hfeasible).1 h
    exact ⟨le_rfl, .refl hs columns⟩
  | true =>
    obtain ⟨leftPages, rightPages, joined, m, hleftPages, hrightPages, hmatch, hcharge⟩ :=
      (returns_evaluateJoin_iff hfeasible).1 h
    obtain ⟨hjoined, hm⟩ := hmatch.nonneg hs hl hr
    obtain ⟨hleft, hright⟩ := hsub hfeasible
    obtain ⟨pairs, kept, -, hnarrow, -⟩ := hmatch
    have hmatched : s.Confined columns { s with distinct := m } :=
      ⟨fun k hk => hnarrow.frame (fun hmem => hk (hleft hmem)) fun hmem => hk (hright hmem), hm,
        le_rfl⟩
    obtain ⟨hn, hcharged⟩ := confined_of_charge (s := { s with distinct := m }) hm
      (pagesOf_le hl hleftPages).1 (pagesOf_le hr hrightPages).1 hjoined hcharge
    exact ⟨hn, hmatched.trans hcharged⟩

/-- Sorting leaves all counts alone. -/
theorem confined_of_sorting {operator : String} {size : ℤ} (hs : Counts.Nonneg s.distinct)
    (htuples : 0 ≤ tuples) (h : (evaluateSorting settings operator size tuples).Returns s n t) :
    0 ≤ n ∧ s.Confined columns t := by
  cases hfeasible : s.feasible with
  | false =>
    obtain ⟨rfl, rfl⟩ := (returns_evaluateSorting_of_not_feasible hfeasible).1 h
    exact ⟨le_rfl, .refl hs columns⟩
  | true =>
    by_cases hbuffers : minBuffers ≤ settings.numBuffers
    · obtain ⟨pages, cost, hpages, hcost, rfl, rfl⟩ :=
        (returns_evaluateSorting_iff hfeasible hbuffers).1 h
      have hcharge := externalSortCost_nonneg (Int.ofNat_le.2 hbuffers)
        (pagesOf_le htuples hpages).1 hcost
      exact ⟨htuples, fun _ _ => rfl, hs, le_add_of_nonneg_right hcharge⟩
    · obtain ⟨events, hreturns⟩ := evaluateSorting_gives_up hfeasible hbuffers operator size tuples
      obtain ⟨rfl, rfl⟩ := h.unique hreturns
      exact ⟨htuples, fun _ _ => rfl, hs, le_rfl⟩

end PassM

namespace Plan

open PassM

variable {catalog : Catalog} {settings : Settings} {p : Plan} {m m' : Counts} {s t : PassState}
  {k : AttributeKey} {n cost : ℤ}

/-! ### A whole pass -/

/-- The columns of a plan that can be carried out are columns of its scans. -/
theorem keys_subset_of_returns (h : (p.evaluate catalog settings).Returns s n t)
    (ht : t.feasible = true) : p.schema.keys ⊆ p.seeds := by
  obtain ⟨-, cost, hyields, -⟩ := yields_of_returns h ht
  exact hyields.keys_subset

/-- A pass is confined to the columns of the scans of the plan, whether the plan is feasible or
not, and does not return a negative number of tuples. -/
theorem confined_of_returns (h : (p.evaluate catalog settings).Returns s n t)
    (hs : Counts.Nonneg s.distinct) : 0 ≤ n ∧ s.Confined p.seeds t := by
  induction p generalizing s n t with
  | scan table schema =>
    simp only [evaluate, returns_bind_iff, returns_recordEstimate_iff] at h
    obtain ⟨_, u, hscan, rfl, rfl⟩ := h
    obtain ⟨hn, hu⟩ := confined_of_scan hs hscan
    exact ⟨hn, hu.record _⟩
  | select base c ih =>
    simp only [evaluate, returns_bind_iff, returns_recordEstimate_iff] at h
    obtain ⟨tuples, u, hbase, _, v, hselect, rfl, rfl⟩ := h
    obtain ⟨htuples, hu⟩ := ih hbase hs
    obtain ⟨hn, hv⟩ := confined_of_select hu.nonneg htuples (keys_subset_of_returns hbase) hselect
    exact ⟨hn, (hu.trans hv).record _⟩
  | project base columns ih =>
    simp only [evaluate, returns_bind_iff, returns_recordEstimate_iff] at h
    obtain ⟨_, u, hbase, rfl, rfl⟩ := h
    obtain ⟨hn, hu⟩ := ih hbase hs
    exact ⟨hn, hu.record _⟩
  | join left right cs code place ihl ihr =>
    simp only [evaluate, returns_bind_iff, returns_recordEstimate_iff] at h
    obtain ⟨l, u, hleft, r, v, hright, _, w, hjoin, rfl, rfl⟩ := h
    obtain ⟨hl, hu⟩ := ihl hleft hs
    obtain ⟨hr, hv⟩ := ihr hright hu.nonneg
    have hleftSub := List.subset_append_left left.seeds right.seeds
    have hrightSub := List.subset_append_right left.seeds right.seeds
    -- Where the join writes, the right side ended feasible, and so the left side did before it.
    have hsub : v.feasible = true → left.schema.keys ⊆ left.seeds ++ right.seeds ∧
        right.schema.keys ⊆ left.seeds ++ right.seeds := fun hfeasible =>
      ⟨List.Subset.trans (keys_subset_of_returns hleft (yields_of_returns hright hfeasible).1)
          hleftSub,
        List.Subset.trans (keys_subset_of_returns hright hfeasible) hrightSub⟩
    obtain ⟨hn, hw⟩ := confined_of_join hv.nonneg hl hr hsub hjoin
    exact ⟨hn, (((hu.mono hleftSub).trans (hv.mono hrightSub)).trans hw).record _⟩
  | sorting base task buffers ih =>
    simp only [evaluate, returns_bind_iff, returns_recordEstimate_iff] at h
    obtain ⟨tuples, u, hbase, _, v, hsorting, rfl, rfl⟩ := h
    obtain ⟨htuples, hu⟩ := ih hbase hs
    obtain ⟨hn, hv⟩ := confined_of_sorting hu.nonneg htuples hsorting
    exact ⟨hn, (hu.trans hv).record _⟩
  | foreign base name output | foreignLeaf name output =>
    obtain ⟨events, hforeign⟩ := evaluateForeign_gives_up s name
    obtain ⟨rfl, rfl⟩ := Returns.unique h hforeign
    exact ⟨le_rfl, fun _ _ => rfl, hs, le_rfl⟩

/-- When a plan was carried out, the columns with a count are those that had one before and those of
its scans. -/
theorem Yields.mem_keys_iff (h : p.Yields catalog settings m n m' cost) :
    k ∈ m'.keys ↔ k ∈ m.keys ∨ k ∈ p.seeds := by
  induction h with
  | scan hload _ =>
    rw [OrderedMap.mem_keys_insertAll, map_fst_measured hload]
    rfl
  | select hbase hkeeps ih =>
    rw [hkeeps.mem_keys_iff, ih, or_assoc]
    exact or_congr_right (or_iff_left_of_imp fun hk => hbase.keys_subset hk)
  | project _ ih | sorting _ _ _ _ ih => exact ih
  | join _ _ _ _ hmatch _ ihl ihr =>
    obtain ⟨pairs, kept, -, hnarrow, -⟩ := hmatch
    rw [hnarrow.mem_keys_iff, ihr, ihl, or_assoc]
    exact or_congr_right List.mem_append.symm

/-! ### The columns of scans -/

/-- A column is one of a table that a plan scans. -/
def ScansColumn (p : Plan) (k : AttributeKey) : Prop :=
  ∃ table schema, (scan table schema).IsPart p ∧ ∃ a ∈ schema.attributes, a.key = k

theorem scansColumn_iff : p.ScansColumn k ↔ k ∈ p.seeds := by
  induction p with
  | scan table schema => simp [ScansColumn, IsPart, preorder, seeds, Schema.keys]
  | select base _ ih | project base _ ih | sorting base _ _ ih | foreign base _ _ ih =>
    rw [seeds, ← ih]
    simp [ScansColumn, IsPart, preorder]
  | join left right _ _ _ ihl ihr =>
    rw [seeds, List.mem_append, ← ihl, ← ihr]
    simp [ScansColumn, IsPart, preorder, or_and_right, exists_or]
  | foreignLeaf => simp [ScansColumn, IsPart, preorder, seeds]

/-- Whatever the counts at the beginning are, as long as none of them is negative, a pass over a
plan that returns leaves the count of every column alone that is not one of a scanned table, and
adds none for such a column. If it ends feasible, all columns of scanned tables have a count. In any
case no count is negative at the end, the number of tuples is not negative, and the cost did not
fall. -/
theorem returns_footprint (hs : Counts.Nonneg s.distinct)
    (h : (p.evaluate catalog settings).Returns s n t) :
    (∀ k, ¬ p.ScansColumn k → t.distinct.get? k = s.distinct.get? k) ∧
      (∀ k ∈ t.distinct.keys, k ∈ s.distinct.keys ∨ p.ScansColumn k) ∧
      (t.feasible = true → ∀ k, p.ScansColumn k → k ∈ t.distinct.keys) ∧
      Counts.Nonneg t.distinct ∧ 0 ≤ n ∧ s.cost ≤ t.cost := by
  obtain ⟨hn, hconfined⟩ := confined_of_returns h hs
  refine ⟨fun k hk => hconfined.frame k (mt scansColumn_iff.2 hk), fun k hk => ?_,
    fun ht k hk => ?_, hconfined.nonneg, hn, hconfined.cost_le⟩
  · exact (hconfined.mem_keys_or hk).imp_right scansColumn_iff.2
  · obtain ⟨-, cost, hyields, -⟩ := yields_of_returns h ht
    exact hyields.mem_keys_iff.2 (.inr (scansColumn_iff.1 hk))

/-- A column of a table that is not scanned. -/
def Sample.stranger : AttributeKey := (Sample.column "C" "z").key

/-- A state in the middle of a pass: that column has a count, and so does one of the columns that
are still to be scanned. -/
def Sample.underway : PassState where
  cost := 7
  distinct := (OrderedMap.empty.insert Sample.stranger 9).insert (Sample.column "A" "x").key 3

theorem returns_footprint_sample :
    Counts.Nonneg Sample.underway.distinct ∧ ∃ t,
      ((Sample.plan 0 1).evaluate Sample.catalog Sample.settings).Returns Sample.underway 40 t ∧
      t.distinct.get? Sample.stranger = some 9 ∧
      (Sample.column "B" "y").key ∈ t.distinct.keys ∧
      Counts.Nonneg t.distinct ∧ 7 ≤ t.cost := by
  have hs : Counts.Nonneg Sample.underway.distinct :=
    (Counts.Nonneg.empty.insert _ (by decide)).insert _ (by decide)
  have hreturns : ((Sample.plan 0 1).evaluate Sample.catalog Sample.settings).Returns
      Sample.underway 40 _ := Prod.ext (by decide +kernel) rfl
  obtain ⟨hframe, -, hmeasured, hnonneg, -, hcost⟩ := returns_footprint hs hreturns
  have hstranger : ¬ (Sample.plan 0 1).ScansColumn Sample.stranger :=
    mt scansColumn_iff.1 (by decide)
  have hscanned : (Sample.plan 0 1).ScansColumn (Sample.column "B" "y").key :=
    scansColumn_iff.2 (by decide)
  exact ⟨hs, _, hreturns, hframe _ hstranger, hmeasured (by decide +kernel) _ hscanned, hnonneg,
    hcost⟩

end Plan

end QueryPlan
