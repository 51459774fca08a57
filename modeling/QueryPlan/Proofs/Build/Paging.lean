import Mathlib
import QueryPlan.Proofs.Build.Wrapping
import QueryPlan.Proofs.Estimate.Divisors
import QueryPlan.Sql.Reader.Statement
import QueryPlan.Sql.Resolution

/-!
# The size of tuples in built plans

No schema is loaded whose tuples have no size, and a join adds up the sizes of its sides, so the
tuples of all operators that conditions make have a size. A projection restricts the columns, and
nothing keeps the size of a column from being zero. What is sorted below the projection still has
the size of whole tuples; what is sorted above it are the tuples that are freed of their duplicates.

## Main results

* `Plan.Bare.paged_wrap_iff` : what is counted in pages above a bare plan.
* `BuildM.build_paged` : its estimate divides by zero at most where duplicates of a projection are
  removed.
* `BuildM.build_paged_fails` : a plan whose estimate divides by zero there.
-/

namespace QueryPlan

/-- The tuples of a schema that is loaded have a size. -/
theorem Catalog.tupleSize_pos_of_loadSchema {catalog : Catalog} {table : String} {schema : Schema}
    (h : catalog.loadSchema table = .ok schema) : 0 < schema.tupleSize := by
  unfold loadSchema at h
  split at h
  · cases h
  · split at h
    · cases h
    · cases h
    · split at h
      · cases h
      · rename_i hpos
        obtain rfl := Except.ok.inj h
        exact not_le.1 hpos

namespace Plan

variable {catalog : Catalog} {settings : Settings} {q : Query} {p : Plan}

theorem Bare.tupleSize_pos (hp : p.Bare catalog) : 0 < p.schema.tupleSize := by
  induction p with
  | scan table output => exact Catalog.tupleSize_pos_of_loadSchema hp
  | select base c ih => exact ih hp
  | join left right cs code place ihl ihr => exact add_pos (ihl hp.1) (ihr hp.2)
  | project | sorting | foreign | foreignLeaf => exact hp.elim

theorem Bare.paged (hp : p.Bare catalog) : p.Paged := by
  induction p with
  | scan table output => exact (Catalog.tupleSize_pos_of_loadSchema hp).ne'
  | select base c ih => exact ih hp
  | join left right cs code place ihl ihr =>
    exact ⟨ihl hp.1, ihr hp.2, hp.1.tupleSize_pos.ne', hp.2.tupleSize_pos.ne'⟩
  | project | sorting | foreign | foreignLeaf => exact hp.elim

/-- Sorting tuples that have a size counts no others in pages. -/
theorem paged_sortedBy_iff (hsize : p.schema.tupleSize ≠ 0) (columns : List Attribute)
    (task : SortTask) : (p.sortedBy settings columns task).Paged ↔ p.Paged := by
  unfold sortedBy
  split
  · rfl
  · exact and_iff_left hsize

theorem paged_arrange_iff (hsize : p.schema.tupleSize ≠ 0) :
    (q.arrange settings p).Paged ↔ p.Paged := by
  have hsorted : ((p.sortedBy settings q.groupBy (.groupBy q.groupBy)).sortedBy settings q.orderBy
      (.orderBy q.orderBy q.ascending)).Paged ↔ p.Paged := by
    rw [paged_sortedBy_iff (by simpa using hsize), paged_sortedBy_iff hsize]
  unfold Query.arrange
  dsimp only
  split <;> exact hsorted

theorem schema_arrange_of_isEmpty (hq : q.projection = []) :
    (q.arrange settings p).schema = p.schema := by
  simp [Query.arrange, hq]

@[simp] theorem schema_wrap : (q.wrap settings p).schema = (q.arrange settings p).schema := by
  unfold Query.wrap
  split <;> rfl

/-- Above a bare plan, only the duplicates of a projection are counted in pages without having a
size for sure. -/
theorem Bare.paged_wrap_iff (hp : p.Bare catalog) : (q.wrap settings p).Paged ↔
    (q.distinct = true → q.projection ≠ [] → (q.wrap settings p).schema.tupleSize ≠ 0) := by
  have hsize := hp.tupleSize_pos.ne'
  have harrange : (q.arrange settings p).Paged := (paged_arrange_iff hsize).2 hp.paged
  rw [schema_wrap]
  cases hdistinct : q.distinct with
  | false => simp [Query.wrap, hdistinct, harrange]
  | true =>
    by_cases hprojection : q.projection = []
    · simp [Query.wrap, hdistinct, hprojection, Paged, harrange, schema_arrange_of_isEmpty, hsize]
    · simp [Query.wrap, hdistinct, hprojection, Paged, harrange]

end Plan

namespace BuildM

open Program BuildState

variable {catalog : Catalog} {settings : Settings} {q : Query} {p : Plan} {s u : BuildState}

/-- In a plan that is returned, all tuples that are counted in pages have a size, unless the
duplicates of a projection are removed whose columns have none. In no other case does its estimate
divide by zero, whatever the settings and the statistics are. -/
theorem build_paged (hrun : (build catalog settings q).run s = (.ok p, u)) :
    (p.Paged ↔ (q.distinct = true → q.projection ≠ [] → p.schema.tupleSize ≠ 0)) ∧
      ∀ (measured : Catalog) (settings' : Settings),
        (q.distinct = true → q.projection ≠ [] → p.schema.tupleSize ≠ 0) →
          p.estimate measured settings' ≠ .error .divisionByZero := by
  obtain ⟨core, hcore, rfl⟩ := build_wraps hrun
  have hpaged : (q.wrap settings core).Paged ↔ _ := hcore.paged_wrap_iff
  exact ⟨hpaged, fun measured settings' hsize => (hpaged.2 hsize).estimate_ne_divisionByZero⟩

theorem build_paged_sample :
    ∃ p u, (build Sample.catalog default { Sample.query with distinct := true }).run Sample.start =
        (.ok p, u) ∧ p.schema.tupleSize = 4 ∧ p.Paged ∧
      ∀ measured : Catalog, p.estimate measured default ≠ .error .divisionByZero := by
  have hrun : (build Sample.catalog default { Sample.query with distinct := true }).run
      Sample.start = (.ok (.sorting Sample.plan (.distinct (some [Sample.column "A" "x"])) 100),
        ((build Sample.catalog default { Sample.query with distinct := true }).run
          Sample.start).2) := Prod.ext (by decide +kernel) rfl
  obtain ⟨hpaged, hestimate⟩ := build_paged hrun
  exact ⟨_, _, hrun, rfl, hpaged.2 fun _ _ => by decide,
    fun measured => hestimate measured default fun _ _ => by decide⟩

/-- A catalog with a table of which one column takes no bytes. -/
def Sample.narrowCatalog : Catalog where
  files := (Files.put {} "T.schema.json"
    "\x7b\"attributes\": [\x7b\"name\": \"a\", \"size\": 0\x7d, \x7b\"name\": \"b\"\x7d]\x7d".toUTF8).put
    "T.stat" "0\n1 1\n".toUTF8
  directory := ""

/-- A plan without the duplicates of that column. -/
def Sample.narrowPlan : Plan :=
  .sorting
    (.project (.scan "T" ⟨[{ Sample.column "T" "a" with size := 0 }, Sample.column "T" "b"], 4⟩)
      [Sample.column "T" "a"])
    (.distinct (some [Sample.column "T" "a"])) 100

attribute [local instance] Sql.standardReader in
/-- Removing the duplicates of a column without a size is planned, and its estimate divides by
zero. -/
theorem build_paged_fails :
    ∃ q u, Query.ofText Sql.dialect "SELECT DISTINCT a FROM T" = .ok q ∧
      (build Sample.narrowCatalog default q).run Sample.start = (.ok Sample.narrowPlan, u) ∧
      Sample.narrowCatalog.loadStatistics "T" 2 = .ok ⟨0, [1, 1]⟩ ∧
      Sample.narrowPlan.estimate Sample.narrowCatalog default = .error .divisionByZero := by
  refine ⟨{ tables := ["T"], projection := [Sample.column "T" "a"], distinct := true }, _,
    by decide +kernel, Prod.ext (by decide +kernel) rfl, by decide +kernel, by decide +kernel⟩

end BuildM

end QueryPlan
