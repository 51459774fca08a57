import Mathlib
import QueryPlan.Proofs.Estimate.Runs

/-!
# What feasible plans yield

A pass that ends feasible was feasible all along. What it does is then determined by the distinct
counts that it starts with: how many tuples come out, which counts are left and what is added to the
cost. This is said here as a relation with one rule for each operator, in which neither the cost so
far nor the events play a part, and a pass does exactly what the relation says.

## Main definitions

* `Plan.Yields` : what a plan puts out, leaves as distinct counts and costs.

## Main results

* `Plan.yields_of_returns`, `Plan.Yields.returns` : a pass that ends feasible, and the relation.
* `Plan.yields_of_estimate`, `Plan.Yields.estimate` : a feasible estimate, and the relation.
-/

namespace QueryPlan

namespace PassM

variable {settings : Settings} {s t : PassState} {left right : Schema} {cs : List Condition}
  {c : Condition} {code leftTuples rightTuples tuples n : ℤ}

/-- A selection that ends feasible. -/
theorem keeps_of_returns {schema : Schema} (h : (evaluateSelect schema c tuples).Returns s n t)
    (ht : t.feasible = true) :
    s.feasible = true ∧ c.Keeps schema s.distinct tuples n t.distinct ∧ t.cost = s.cost := by
  cases hs : s.feasible with
  | false =>
    obtain ⟨rfl, rfl⟩ := (returns_evaluateSelect_of_not_feasible hs).1 h
    exact absurd (hs.symm.trans ht) nofun
  | true =>
    obtain ⟨m, hm, rfl⟩ := (returns_evaluateSelect_iff hs).1 h
    exact ⟨rfl, hm, rfl⟩

/-- A join that ends feasible. -/
theorem matches_of_returns
    (h : (evaluateJoin settings left right cs code leftTuples rightTuples).Returns s n t)
    (ht : t.feasible = true) :
    s.feasible = true ∧ settings.Supports code ∧ ∃ leftPages rightPages,
      pagesOf settings.pageSize leftTuples left.tupleSize = .ok leftPages ∧
      pagesOf settings.pageSize rightTuples right.tupleSize = .ok rightPages ∧
      Condition.Match left right cs s.distinct leftTuples rightTuples n t.distinct ∧
      t.cost = s.cost + chargeOfCode code leftPages rightPages settings.buffersPerJoin := by
  cases hs : s.feasible with
  | false =>
    obtain ⟨rfl, rfl⟩ := (returns_evaluateJoin_of_not_feasible hs).1 h
    exact absurd (hs.symm.trans ht) nofun
  | true =>
    obtain ⟨l, r, tuples, m, hl, hr, hmatch, hcharge⟩ := (returns_evaluateJoin_iff hs).1 h
    by_cases hcode : settings.Supports code
    · obtain ⟨events, hreturns⟩ := chargeJoin_returns hcode l r tuples { s with distinct := m }
      obtain ⟨rfl, rfl⟩ := hcharge.unique hreturns
      exact ⟨rfl, hcode, l, r, hl, hr, hmatch, rfl⟩
    · obtain ⟨events, hreturns⟩ := chargeJoin_gives_up hcode l r tuples { s with distinct := m }
      obtain ⟨rfl, rfl⟩ := hcharge.unique hreturns
      cases ht

/-- A sorting operator that ends feasible. -/
theorem sorts_of_returns {operator : String} {size : ℤ}
    (h : (evaluateSorting settings operator size tuples).Returns s n t) (ht : t.feasible = true) :
    s.feasible = true ∧ minBuffers ≤ settings.numBuffers ∧ n = tuples ∧
      t.distinct = s.distinct ∧ ∃ pages cost, pagesOf settings.pageSize tuples size = .ok pages ∧
        externalSortCost pages settings.numBuffers = .ok cost ∧ t.cost = s.cost + cost := by
  cases hs : s.feasible with
  | false =>
    obtain ⟨rfl, rfl⟩ := (returns_evaluateSorting_of_not_feasible hs).1 h
    exact absurd (hs.symm.trans ht) nofun
  | true =>
    by_cases hbuffers : minBuffers ≤ settings.numBuffers
    · obtain ⟨pages, cost, hpages, hcost, rfl, rfl⟩ := (returns_evaluateSorting_iff hs hbuffers).1 h
      exact ⟨rfl, hbuffers, rfl, rfl, pages, cost, hpages, hcost, rfl⟩
    · obtain ⟨events, hreturns⟩ := evaluateSorting_gives_up hs hbuffers operator size tuples
      obtain ⟨rfl, rfl⟩ := h.unique hreturns
      cases ht

end PassM

namespace Plan

open PassM

/-- From the distinct counts `m`, a plan that can be carried out puts out `n` tuples, leaves the
distinct counts `m'` and costs `cost`. -/
inductive Yields (catalog : Catalog) (settings : Settings) :
    Plan → Counts → ℤ → Counts → ℤ → Prop
  | scan {table schema m statistics pages}
      (hload : catalog.loadStatistics table schema.width = .ok statistics)
      (hpages : pagesOf settings.pageSize statistics.tupleCount schema.tupleSize = .ok pages) :
      Yields catalog settings (.scan table schema) m statistics.tupleCount
        (m.insertAll (schema.measured statistics)) pages
  | select {base c m tuples m₁ cost kept m'} (hbase : Yields catalog settings base m tuples m₁ cost)
      (hkeeps : c.Keeps base.schema m₁ tuples kept m') :
      Yields catalog settings (.select base c) m kept m' cost
  | project {base columns m n m' cost} (hbase : Yields catalog settings base m n m' cost) :
      Yields catalog settings (.project base columns) m n m' cost
  | join {left right cs code place m l m₁ leftCost r m₂ rightCost leftPages rightPages n m'}
      (hleft : Yields catalog settings left m l m₁ leftCost)
      (hright : Yields catalog settings right m₁ r m₂ rightCost)
      (hleftPages : pagesOf settings.pageSize l left.schema.tupleSize = .ok leftPages)
      (hrightPages : pagesOf settings.pageSize r right.schema.tupleSize = .ok rightPages)
      (hmatch : Condition.Match left.schema right.schema cs m₂ l r n m')
      (hcode : settings.Supports code) :
      Yields catalog settings (.join left right cs code place) m n m'
        (leftCost + rightCost + chargeOfCode code leftPages rightPages settings.buffersPerJoin)
  | sorting {base task buffers m n m' baseCost pages cost}
      (hbase : Yields catalog settings base m n m' baseCost)
      (hbuffers : minBuffers ≤ settings.numBuffers)
      (hpages : pagesOf settings.pageSize n base.schema.tupleSize = .ok pages)
      (hcost : externalSortCost pages settings.numBuffers = .ok cost) :
      Yields catalog settings (.sorting base task buffers) m n m' (baseCost + cost)

variable {catalog : Catalog} {settings : Settings} {p : Plan} {s t : PassState} {m m' : Counts}
  {n cost : ℤ}

/-- A pass that ends feasible started feasible and does what the plan yields. -/
theorem yields_of_returns (h : (p.evaluate catalog settings).Returns s n t)
    (ht : t.feasible = true) :
    s.feasible = true ∧ ∃ cost, p.Yields catalog settings s.distinct n t.distinct cost ∧
      t.cost = s.cost + cost := by
  induction p generalizing s n t with
  | scan table schema =>
    simp only [evaluate, returns_bind_iff, returns_recordEstimate_iff] at h
    obtain ⟨_, u, hscan, rfl, rfl⟩ := h
    obtain ⟨statistics, pages, hload, hpages, rfl, rfl⟩ := returns_evaluateScan_iff.1 hscan
    exact ⟨ht, pages, .scan hload hpages, rfl⟩
  | select base c ih =>
    simp only [evaluate, returns_bind_iff, returns_recordEstimate_iff] at h
    obtain ⟨tuples, u, hbase, _, v, hselect, rfl, rfl⟩ := h
    obtain ⟨hu, hkeeps, hcost⟩ := keeps_of_returns hselect ht
    obtain ⟨hs, cost, hyields, hbaseCost⟩ := ih hbase hu
    exact ⟨hs, cost, .select hyields hkeeps, hcost.trans hbaseCost⟩
  | project base columns ih =>
    simp only [evaluate, returns_bind_iff, returns_recordEstimate_iff] at h
    obtain ⟨_, u, hbase, rfl, rfl⟩ := h
    obtain ⟨hs, cost, hyields, hcost⟩ := ih hbase ht
    exact ⟨hs, cost, .project hyields, hcost⟩
  | join left right cs code place ihl ihr =>
    simp only [evaluate, returns_bind_iff, returns_recordEstimate_iff] at h
    obtain ⟨l, u, hleft, r, v, hright, _, w, hjoin, rfl, rfl⟩ := h
    obtain ⟨hv, hcode, leftPages, rightPages, hl, hr, hmatch, hcost⟩ := matches_of_returns hjoin ht
    obtain ⟨hu, rightCost, hrightYields, hrightCost⟩ := ihr hright hv
    obtain ⟨hs, leftCost, hleftYields, hleftCost⟩ := ihl hleft hu
    refine ⟨hs, _, .join hleftYields hrightYields hl hr hmatch hcode, ?_⟩
    simp only [hcost, hrightCost, hleftCost, add_assoc]
  | sorting base task buffers ih =>
    simp only [evaluate, returns_bind_iff, returns_recordEstimate_iff] at h
    obtain ⟨tuples, u, hbase, _, v, hsort, rfl, rfl⟩ := h
    obtain ⟨hu, hbuffers, rfl, hdistinct, pages, cost, hpages, hsortCost, hcost⟩ :=
      sorts_of_returns hsort ht
    obtain ⟨hs, baseCost, hyields, hbaseCost⟩ := ih hbase hu
    refine ⟨hs, _, .sorting (hdistinct ▸ hyields) hbuffers hpages hsortCost, ?_⟩
    simp only [hcost, hbaseCost, add_assoc]
  | foreign base name output | foreignLeaf name output =>
    obtain ⟨events, hforeign⟩ := evaluateForeign_gives_up s name
    obtain ⟨rfl, rfl⟩ := Returns.unique h hforeign
    cases ht

/-- A pass over a plan that yields something does so from every feasible state. -/
theorem Yields.returns (h : p.Yields catalog settings m n m' cost) (hs : s.feasible = true)
    (hm : s.distinct = m) :
    ∃ t, (p.evaluate catalog settings).Returns s n t ∧ t.feasible = true ∧ t.distinct = m' ∧
      t.cost = s.cost + cost := by
  induction h generalizing s with
  | scan hload hpages =>
    subst hm
    have hscan := (returns_evaluateScan_iff (s := s)).2 ⟨_, _, hload, hpages, rfl, rfl⟩
    exact ⟨_, returns_bind_iff.2 ⟨_, _, hscan, returns_recordEstimate_iff.2 ⟨rfl, rfl⟩⟩, hs, rfl,
      rfl⟩
  | select hbase hkeeps ih =>
    obtain ⟨t, hreturns, ht, rfl, hcost⟩ := ih hs hm
    have hselect := (returns_evaluateSelect_iff ht).2 ⟨_, hkeeps, rfl⟩
    exact ⟨_, returns_bind_iff.2 ⟨_, _, hreturns, returns_bind_iff.2 ⟨_, _, hselect,
      returns_recordEstimate_iff.2 ⟨rfl, rfl⟩⟩⟩, ht, rfl, hcost⟩
  | project hbase ih =>
    obtain ⟨t, hreturns, ht, hdistinct, hcost⟩ := ih hs hm
    exact ⟨_, returns_bind_iff.2 ⟨_, _, hreturns, returns_recordEstimate_iff.2 ⟨rfl, rfl⟩⟩, ht,
      hdistinct, hcost⟩
  | join hleft hright hleftPages hrightPages hmatch hcode ihl ihr =>
    obtain ⟨t, hleftReturns, ht, hleftDistinct, hleftCost⟩ := ihl hs hm
    obtain ⟨u, hrightReturns, hu, rfl, hrightCost⟩ := ihr ht hleftDistinct
    obtain ⟨events, hcharge⟩ := chargeJoin_returns hcode _ _ _ { u with distinct := _ }
    have hjoin := (returns_evaluateJoin_iff hu).2
      ⟨_, _, _, _, hleftPages, hrightPages, hmatch, hcharge⟩
    refine ⟨_, returns_bind_iff.2 ⟨_, _, hleftReturns, returns_bind_iff.2 ⟨_, _, hrightReturns,
      returns_bind_iff.2 ⟨_, _, hjoin, returns_recordEstimate_iff.2 ⟨rfl, rfl⟩⟩⟩⟩, hu, rfl, ?_⟩
    simp only [hrightCost, hleftCost, add_assoc]
  | sorting hbase hbuffers hpages hsortCost ih =>
    obtain ⟨t, hreturns, ht, hdistinct, hcost⟩ := ih hs hm
    refine ⟨_, returns_bind_iff.2 ⟨_, _, hreturns, returns_bind_iff.2 ⟨_, _,
      (returns_evaluateSorting_iff ht hbuffers).2 ⟨_, _, hpages, hsortCost, rfl, rfl⟩,
      returns_recordEstimate_iff.2 ⟨rfl, rfl⟩⟩⟩, ht, hdistinct, ?_⟩
    simp only [hcost, add_assoc]

/-- What a plan yields is determined by the distinct counts that it starts with. -/
theorem Yields.unique {k cost' : ℤ} {m'' : Counts} (h : p.Yields catalog settings m n m' cost)
    (h' : p.Yields catalog settings m k m'' cost') : n = k ∧ m' = m'' ∧ cost = cost' := by
  obtain ⟨t, hreturns, -, hdistinct, hcost⟩ := h.returns (s := { distinct := m }) rfl rfl
  obtain ⟨t', hreturns', -, hdistinct', hcost'⟩ := h'.returns (s := { distinct := m }) rfl rfl
  obtain ⟨rfl, rfl⟩ := hreturns.unique hreturns'
  exact ⟨rfl, hdistinct.symm.trans hdistinct', add_left_cancel (hcost.symm.trans hcost')⟩

/-! ### Estimates -/

/-- An estimate is what a pass from the initial state returns and ends in. -/
theorem estimate_eq_ok_iff {e : Estimate} : p.estimate catalog settings = .ok e ↔
    ∃ n t, (p.evaluate catalog settings).Returns {} n t ∧ e = estimateOf n t :=
  map_outcome_eq_ok_iff

/-- A feasible estimate says what the plan yields without any distinct counts before it. -/
theorem yields_of_estimate {e : Estimate} (h : p.estimate catalog settings = .ok e)
    (he : e.feasible = true) :
    p.Yields catalog settings {} e.cardinality (p.pass catalog settings).2.distinct e.cost := by
  obtain ⟨n, t, hreturns, rfl⟩ := estimate_eq_ok_iff.1 h
  have hpass : p.pass catalog settings = (.ok n, t) := hreturns
  cases ht : t.feasible with
  | false => simp [estimateOf, ht] at he
  | true =>
    obtain ⟨-, cost, hyields, hcost⟩ := yields_of_returns hreturns ht
    obtain rfl : t.cost = cost := hcost.trans (zero_add cost)
    simpa only [estimateOf, ht, if_true, hpass] using hyields

/-- A plan that yields something without any distinct counts before it has that estimate. -/
theorem Yields.estimate (h : p.Yields catalog settings {} n m cost) :
    p.estimate catalog settings = .ok ⟨cost, n, true⟩ ∧
      (p.pass catalog settings).2.distinct = m := by
  obtain ⟨t, hreturns, ht, hdistinct, hcost⟩ := h.returns (s := {}) rfl rfl
  have hpass : p.pass catalog settings = (.ok n, t) := hreturns
  refine ⟨estimate_eq_ok_iff.2 ⟨n, t, hreturns, ?_⟩, hpass ▸ hdistinct⟩
  rw [estimateOf, if_pos ht, hcost, zero_add]

end Plan

/-! ### A sample -/

namespace Plan.Sample

/-- A catalog with the statistics of two tables of two columns each. -/
def catalog : Catalog where
  files := (Files.put {} "A.stat" "20\n10 2\n".toUTF8).put "B.stat" "6\n3 6\n".toUTF8
  directory := ""

/-- Few small pages. -/
def settings : Settings := { pageSize := 16, numBuffers := 3, buffersPerJoin := 4 }

/-- Larger pages and more buffers. -/
def ampleSettings : Settings := { pageSize := 64, numBuffers := 5, buffersPerJoin := 4 }

/-- A column of a table. -/
def column (table name : String) : Attribute := { table := some table, name := name }

/-- A scan of a table with two columns. -/
def table (name first second : String) : Plan :=
  .scan name ⟨[column name first, column name second], 8⟩

/-- A selection from the table `A`. -/
def left : Plan := .select (table "A" "x" "w") { lhs := column "A" "w", rhs := .integer 3 }

/-- The tables `B` and `A`, the latter without one of its columns. -/
def right (code : ℤ) : Plan :=
  .join (table "B" "x" "y") (.project (table "A" "x" "w") [column "A" "x"])
    [{ lhs := column "B" "x", rhs := .column (column "A" "x") }] code 0

/-- A join in which the table `A` is scanned on both sides. -/
def joined (code rightCode : ℤ) : Plan :=
  .join left (right rightCode) [{ lhs := column "A" "x", rhs := .column (column "B" "x") }] code 1

/-- A plan without duplicates. -/
def plan (code rightCode : ℤ) : Plan := .sorting (joined code rightCode) (.distinct none) 4

end Plan.Sample

end QueryPlan
