import Mathlib
import QueryPlan.Proofs.Build.Alike
import QueryPlan.Proofs.Build.Scope
import QueryPlan.Proofs.Build.Tallies
import QueryPlan.Proofs.Build.Wrapping
import QueryPlan.Proofs.Relation.Resolving
import QueryPlan.Sql.Reader.Statement
import QueryPlan.Sql.Resolution

/-!
# How the clauses of a query are resolved

The three kinds of clauses do not look their columns up in the same way. A condition is qualified by
the schemas of all tables, and refused if a column of it has no table or more than one. A projection
is resolved against the columns of the root, where the first match counts. Grouping and ordering
columns are looked up nowhere.

## Main definitions

* `Catalog.Resolves` : exactly one of the tables has a column.

## Main results

* `BuildM.build_resolves` : a condition that cannot be resolved is refused, and so is a projection
  to a column of no table; the other clauses are not looked up.
* `BuildM.build_resolves_overlooking` : a plan with columns that no table, or more than one, has.
-/

namespace QueryPlan

/-- Exactly one of the tables has a column that a reference means. -/
def Catalog.Resolves (catalog : Catalog) (tables : List String) (a : Attribute) : Prop :=
  ∃! t, t ∈ tables ∧ (catalog.column? a t).isSome

variable {catalog : Catalog} {tables : List String} {a b : Attribute}

/-- A column of a bare plan is one of a table that it scans. -/
theorem Plan.Bare.exists_column {p : Plan} (hp : p.Bare catalog)
    (ha : p.schema.contains a = true) :
    ∃ t ∈ p.scannedTables, (catalog.column? a t).isSome := by
  induction p with
  | scan table output => exact ⟨table, by simp, by rw [Catalog.column?, hp]; exact ha⟩
  | select base c ih =>
    obtain ⟨t, ht, hcolumn⟩ := ih hp ha
    exact ⟨t, by simpa using ht, hcolumn⟩
  | join left right cs code place ihl ihr =>
    obtain ha | ha := Schema.contains_join.1 ha
    · obtain ⟨t, ht, hcolumn⟩ := ihl hp.1 ha
      exact ⟨t, by simp [ht], hcolumn⟩
    · obtain ⟨t, ht, hcolumn⟩ := ihr hp.2 ha
      exact ⟨t, by simp [ht], hcolumn⟩
  | project | sorting | foreign | foreignLeaf => exact hp.elim

namespace BuildState

open BuildM Program

variable {s : BuildState} {c d : Condition}

/-- A column that names no table is qualified only if exactly one table has it. -/
theorem Scanned.resolves_of_column (hs : s.Scanned catalog tables) (ha : a.owner? = none)
    (h : s.column a = .ok b) : catalog.Resolves tables a := by
  rw [hs.column_eq_match ha] at h
  split at h
  · rename_i t hfound
    have hiff (x : String) : (x ∈ tables ∧ (catalog.column? a x).isSome) ↔ x = t := by
      rw [← hs.mem_tables_iff, ← List.mem_singleton (a := x), ← hfound, List.mem_filter]
    exact ⟨t, (hiff t).2 rfl, fun x hx => (hiff x).1 hx⟩
  · cases h
  · cases h

theorem Scanned.resolves_of_qualified (hs : s.Scanned catalog tables) (h : s.qualified c = .ok d)
    (hmem : a ∈ c.columns) (ha : a.owner? = none) : catalog.Resolves tables a := by
  obtain ⟨lhs, rhs, hlhs, hrhs, -⟩ := (qualified_eq_ok_iff hs).1 h
  obtain rfl | hmem := List.mem_cons.1 hmem
  · exact hs.resolves_of_column ha hlhs
  · cases hrhs' : c.rhs with
    | column r =>
      obtain rfl : a = r := by simpa [hrhs', Operand.column?] using hmem
      rw [hrhs'] at hrhs
      obtain ⟨b, hb, -⟩ := map_eq_ok_iff.1 hrhs
      exact hs.resolves_of_column ha hb
    | integer | real | text => simp [hrhs', Operand.column?] at hmem

end BuildState

namespace BuildM

open Program BuildState

variable {settings : Settings} {q : Query} {p : Plan} {s u : BuildState}

/-! ### What a returned plan has been checked for -/

/-- The columns of all conditions that name no table are in exactly one table each. -/
theorem resolves_of_build (hrun : (build catalog settings q).run s = (.ok p, u)) {c : Condition}
    (hc : c ∈ q.joins ++ q.selections) (hmem : a ∈ c.columns) (ha : a.owner? = none) :
    catalog.Resolves q.tables a := by
  obtain ⟨t, v, w, ht, hconditions, -, -⟩ := stages_of_build hrun
  obtain ⟨cs, t₁, hqualify, -⟩ := run_bind_eq_ok.1 hconditions
  obtain ⟨before, after, hsplit⟩ := List.append_of_mem hc
  rw [run_qualifyAll ht, hsplit, mapM_append_cons] at hqualify
  obtain ⟨_, _, hrest⟩ := bind_eq_ok_iff.1 (Prod.mk.inj hqualify).1
  obtain ⟨d, hd, -⟩ := bind_eq_ok_iff.1 hrest
  exact ht.resolves_of_qualified hd hmem ha

/-- Every column of the projection is in some table. -/
theorem exists_column_of_build (hrun : (build catalog settings q).run s = (.ok p, u))
    (ha : a ∈ q.projection) : ∃ t ∈ q.tables, (catalog.column? a t).isSome := by
  have hresult : ((build catalog settings q.bare).run s).1 >>= q.finish settings = .ok p := by
    rw [← run_build, hrun]
  obtain ⟨core, hcore, hfinish⟩ := bind_eq_ok_iff.1 hresult
  have hrun' : (build catalog settings q.bare).run s =
      (.ok core, ((build catalog settings q.bare).run s).2) := Prod.ext hcore rfl
  have hbare : core.Bare catalog := by
    obtain ⟨_, hbare, rfl⟩ := build_wraps hrun'
    exact hbare
  have hcontains : core.schema.contains a = true := by
    cases hfound : core.schema.resolveAll q.projection with
    | error b => simp [Query.finish, hfound] at hfinish
    | ok found => exact Schema.contains_of_resolveAll hfound ha
  obtain ⟨t, ht, hcolumn⟩ := hbare.exists_column hcontains
  obtain ⟨w, cs, v, hw, htaken, hroot, -, -⟩ := build_returns hrun'
  obtain ⟨r, hr⟩ := htaken.root_top hw.root hroot
  have hv := hw.of_conditionsTaken htaken
  rw [← hbare.core_eq, hv.mem_scannedTables_iff hr] at ht
  exact ⟨t, hv.mem_of_ledBy ht, hcolumn⟩

/-- A query with a column in a condition that no table, or more than one, has, or with a column in
its projection that no table has, is refused: as invalid, unless the schema of a table could not be
loaded in the first place. Its other columns play no part in whether a plan is returned. -/
theorem build_resolves (hs : s.draws.InRange) :
    ((∃ c ∈ q.joins ++ q.selections, ∃ a ∈ c.columns, a.owner? = none ∧
        ¬ catalog.Resolves q.tables a) ∨
      (∃ a ∈ q.projection, ∀ t ∈ q.tables, catalog.column? a t = none) →
        ∃ f, ((build catalog settings q).run s).1 = .error f ∧
          (f.kind = .invalid ∨ ∃ t ∈ q.tables, catalog.loadSchema t = .error f)) ∧
      ((build catalog settings q).run s).1 =
        ((build catalog settings q.bare).run s).1 >>= q.finish settings := by
  refine ⟨fun hbad => ?_, run_build catalog settings q s⟩
  rcases hrun : (build catalog settings q).run s with ⟨f | p, u⟩
  · refine ⟨f, rfl, ?_⟩
    by_cases htables : q.tables = []
    · rw [build, if_pos (by simp [htables])] at hrun
      obtain rfl := Except.error.inj (Prod.mk.inj hrun).1
      exact .inl rfl
    · exact (build_ends hs htables catalog settings).fails (congrArg Prod.fst hrun)
  · obtain ⟨c, hc, a, hmem, ha, hnot⟩ | ⟨a, ha, hnone⟩ := hbad
    · exact absurd (resolves_of_build hrun hc hmem ha) hnot
    · obtain ⟨t, ht, hcolumn⟩ := exists_column_of_build hrun ha
      simp [hnone t ht] at hcolumn

/-- A query that projects two tables to a column of neither. -/
def Sample.strayQuery : Query where
  tables := ["A", "B"]
  projection := [{ table := none, name := "v" }]

theorem build_resolves_sample :
    Sample.start.draws.InRange ∧
      (∀ t ∈ Sample.strayQuery.tables,
        Sample.catalog.column? { table := none, name := "v" } t = none) ∧
      ∃ f, ((build Sample.catalog default Sample.strayQuery).run Sample.start).1 = .error f ∧
        f.kind = .invalid := by
  have hs : Sample.start.draws.InRange := Draws.inRange_cycle (by decide)
  have hnone : ∀ t ∈ Sample.strayQuery.tables,
      Sample.catalog.column? { table := none, name := "v" } t = none := by decide +kernel
  have hloaded : ∀ t ∈ Sample.strayQuery.tables, (Sample.catalog.loadSchema t).isOk = true := by
    decide +kernel
  obtain ⟨hrefused, -⟩ := @build_resolves Sample.catalog default Sample.strayQuery Sample.start hs
  obtain ⟨f, hfail, hinvalid | ⟨t, ht, hload⟩⟩ := hrefused (.inr ⟨_, List.mem_cons_self, hnone⟩)
  · exact ⟨hs, hnone, f, hfail, hinvalid⟩
  · have hok := hloaded t ht
    simp [hload, Except.isOk, Except.toBool] at hok

attribute [local instance] Sql.standardReader in
/-- A plan is returned that is grouped by a column of no table, and ordered by and projected to one
that two tables have. -/
theorem build_resolves_overlooking :
    ∃ q p u, Query.ofText Sql.dialect "SELECT x FROM A, B WHERE w = y GROUP BY v ORDER BY x" =
        .ok q ∧
      q.tables = ["A", "B"] ∧ q.groupBy = [{ table := none, name := "v" }] ∧
      q.orderBy = [{ table := none, name := "x" }] ∧
      q.projection = [{ table := none, name := "x" }] ∧
      (∀ t ∈ q.tables, Sample.catalog.column? { table := none, name := "v" } t = none) ∧
      (∀ t ∈ q.tables, (Sample.catalog.column? { table := none, name := "x" } t).isSome) ∧
      (build Sample.catalog default q).run Sample.start = (.ok p, u) ∧
      p.schema.attributes = [Sample.column "A" "x"] := by
  let x : Attribute := { table := none, name := "x" }
  let v : Attribute := { table := none, name := "v" }
  let q : Query :=
    { tables := ["A", "B"]
      selections :=
        [{ lhs := { table := none, name := "w" }, rhs := .column { table := none, name := "y" } }]
      groupBy := [v], orderBy := [x], projection := [x] }
  let p : Plan := .project
    (.sorting
      (.sorting
        (.join (.scan "A" (Sample.schema "A" "x" "w")) (.scan "B" (Sample.schema "B" "x" "y"))
          [{ lhs := Sample.column "A" "w", rhs := .column (Sample.column "B" "y"), kind := .join }]
          1 0)
        (.groupBy [v]) 100)
      (.orderBy [x] true) 100)
    [x]
  exact ⟨q, p, _, by decide +kernel, rfl, rfl, rfl, rfl, by decide +kernel, by decide +kernel,
    Prod.ext (by decide +kernel) rfl, by decide +kernel⟩

end BuildM

end QueryPlan
