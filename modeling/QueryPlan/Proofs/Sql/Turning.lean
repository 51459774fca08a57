import Mathlib
import QueryPlan.Proofs.Sql.Rewriting
import QueryPlan.Sql.Reader.Statement

/-!
# Comparisons the other way round

A comparison says the same the other way round, with the converse comparator. Between a column and a
literal it is even resolved to the same condition, which has the column on its left side. Between
columns of two different tables it is resolved to a condition with swapped sides, and so qualified;
in the plan the smaller table is on the left side of either. So the plan stays the same.

A table with an empty name counts as none, so a comparison with one of its columns does not join two
tables, and keeps its sides in the plan.

## Main definitions

* `Expr.TurnedTo` : a comparison and the same one the other way round.

## Main results

* `BuildM.build_turned` : the plan of a statement does not change when a comparison is turned round.
* `BuildM.build_turned_unnamed` : it may change when one of the tables has an empty name.
-/

namespace QueryPlan

variable {catalog : Catalog} {settings : Settings} {scope : Sql.Scope}

namespace Sql

variable {x y l r : Expr} {c : Comparator} {d : Condition}

/-- A comparison and the same one the other way round, between a column and something else or
between columns of two tables, where a column may be written without its table. -/
inductive Expr.TurnedTo [Reader] (catalog : Catalog) (scope : Scope) : Expr → Expr → Prop
  | literal {c : Comparator} {l r : Expr} (h : l.column?.isSome ≠ r.column?.isSome) :
      TurnedTo catalog scope (.compare c l r) (.compare c.converse r l)
  | columns {c : Comparator} {l r : Expr} {a b : Attribute} {t u : String}
      (ha : scope.column? l = some (.ok a)) (hb : scope.column? r = some (.ok b))
      (ht : (a.qualifiedIn catalog scope.tables).owner? = some t)
      (hu : (b.qualifiedIn catalog scope.tables).owner? = some u) (hne : t ≠ u) :
      TurnedTo catalog scope (.compare c l r) (.compare c.converse r l)

/-- A comparison of a column with something else means the same the other way round. -/
theorem Scope.comparison_converse [Reader] (h : l.column?.isSome ≠ r.column?.isSome) :
    scope.comparison c.converse r l = scope.comparison c l r := by
  cases hl : l.column? <;> cases hr : r.column? <;>
    simp_all [comparison, column?]

theorem Scope.comparison_columns [Reader] {a b : Attribute} (ha : scope.column? l = some (.ok a))
    (hb : scope.column? r = some (.ok b)) :
    scope.comparison c l r = .ok { lhs := a, rhs := .column b, comparator := c } := by
  simp only [comparison, operand, ha, hb]
  rfl

/-- A comparison that is turned round means the same condition, or one with swapped sides that joins
two tables. -/
theorem Expr.TurnedTo.condition [Reader] (h : x.TurnedTo catalog scope y)
    (hx : scope.condition x = .ok d) : ∃ e, scope.condition y = .ok e ∧ (e = d ∨
      d.flipped? = some e ∧ ∃ p, (d.qualifiedIn catalog scope.tables).pair? = some p) := by
  cases h with
  | literal h => exact ⟨d, (Scope.comparison_converse h).trans hx, .inl rfl⟩
  | @columns c l r a b t u ha hb ht hu hne =>
    obtain rfl := Except.ok.inj ((Scope.comparison_columns ha hb).symm.trans hx)
    refine ⟨_, Scope.comparison_columns hb ha, .inr ⟨rfl, Pair.ordered t u, ?_⟩⟩
    simp [Condition.pair?, Condition.qualifiedIn, Operand.qualifiedIn, Operand.column?, ht, hu, hne]

end Sql

namespace Condition

variable {before after : List Condition} {c d : Condition} {p : String × String}

/-- Lists are alike when they differ in one condition that joins two tables, and this one has
swapped sides. -/
theorem alike_of_flipped? (h : c.flipped? = some d) (hpair : c.pair? = some p) :
    Alike id (before ++ c :: after) (before ++ d :: after) := by
  have hpair' := pair?_of_flipped? h
  have hplaced := placed_of_flipped? h hpair
  constructor <;>
    simp [List.filterMap_cons, filter?_congr hpair' hplaced, link?_congr hpair' hplaced]

end Condition

namespace BuildM

open Program BuildState

variable {q : Query} {start u : BuildState} {p : Plan} {earlier later : List Condition}
  {c d : Condition}

/-- The plan of a query stays the same when the sides of a condition that joins two tables are
swapped. -/
theorem build_on_of_flipped? {pair : String × String} (h : c.flipped? = some d)
    (hpair : (c.qualifiedIn catalog q.tables).pair? = some pair)
    (hrun : (build catalog settings (q.on (earlier ++ c :: later))).run start = (.ok p, u)) :
    (build catalog settings (q.on (earlier ++ d :: later))).run start = (.ok p, u) := by
  obtain ⟨e, v, hfail⟩ | ⟨s, hs, hplan⟩ := build_on catalog settings q start
  · rw [hfail] at hrun
    cases hrun
  rw [hplan] at hrun ⊢
  obtain ⟨cs, _, hlookup, hrun⟩ := run_bind_eq_ok.1 hrun
  obtain ⟨hcs, rfl⟩ := Prod.mk.inj hlookup
  -- both conditions are sorted in the same way, so they are looked up in the same place
  have hrelates : d.relatesTables = c.relatesTables := by
    rw [Condition.relatesTables_eq, Condition.relatesTables_eq, Condition.pair?_of_flipped? h]
  obtain ⟨before, kind, after, horder⟩ :=
    Condition.exists_inOrder_eq earlier later c.relatesTables
  rw [horder c rfl, mapM_append_cons] at hcs
  obtain ⟨as, has, hcs⟩ := bind_eq_ok_iff.1 hcs
  obtain ⟨x, hx, hcs⟩ := bind_eq_ok_iff.1 hcs
  obtain ⟨bs, hbs, hcs⟩ := bind_eq_ok_iff.1 hcs
  obtain rfl := Except.ok.inj hcs
  obtain ⟨y, hy, hxy⟩ := qualified_of_flipped? hs (Condition.flipped?_withKind h kind) hx
  have hxpair : x.pair? = some pair := (hs.pair?_qualified hx).trans hpair
  have halike : Condition.Alike id (as ++ x :: bs) (as ++ y :: bs) :=
    Condition.alike_of_flipped? hxy hxpair
  rw [horder d hrelates, mapM_append_cons, has, hy, hbs]
  exact (run_planQualified_of_alike halike settings q s).trans hrun

/-- Writing a comparison the other way round does not change the plan of a statement, nor the state
at the end of its construction. -/
theorem build_turned [Sql.Reader] {dialect text text' : String} {s s' : Sql.Select}
    {before after : List Sql.Expr} {x y : Sql.Expr}
    (hread : Sql.Reader.read? dialect text = some (.select s))
    (hread' : Sql.Reader.read? dialect text' = some (.select s'))
    (hscope : Sql.Scope.ofSources s.tables = .ok scope)
    (hrewritten : s.RewrittenTo s' before x y after) (hturned : x.TurnedTo catalog scope y)
    (hq : Query.ofText dialect text = .ok q)
    (hrun : (build catalog settings q).run start = (.ok p, u)) :
    ∃ q', Query.ofText dialect text' = .ok q' ∧
      (build catalog settings q').run start = (.ok p, u) := by
  rw [Query.ofText_eq_resolve hread,
    Sql.Select.resolve_eq_of_predicates hscope hrewritten.predicates] at hq
  rw [Query.ofText_eq_resolve hread', Sql.Select.resolve_eq_of_predicates
    (hrewritten.tables_eq ▸ hscope) hrewritten.predicates_rewritten, hrewritten.clauses_eq]
  obtain ⟨earlier, hearlier, hq⟩ := bind_eq_ok_iff.1 hq
  obtain ⟨c, hc, hq⟩ := bind_eq_ok_iff.1 hq
  obtain ⟨later, hlater, hq⟩ := bind_eq_ok_iff.1 hq
  obtain ⟨clauses, hclauses, rfl⟩ := map_eq_ok_iff.1 hq
  obtain ⟨d, hd, hdc⟩ := hturned.condition hc
  refine ⟨clauses.on (earlier ++ d :: later), by rw [hearlier, hd, hlater, hclauses]; rfl, ?_⟩
  obtain rfl | ⟨hflip, pair, hpair⟩ := hdc
  · exact hrun
  · rw [← Sql.Select.tables_of_clauses hclauses] at hpair
    exact build_on_of_flipped? hflip hpair hrun

section Samples

attribute [local instance] Sql.standardReader

theorem build_turned_sample :
    ∃ q p u, Query.ofText Sql.dialect "SELECT * FROM A, C WHERE w < z" = .ok q ∧
      (build Sample.catalog default q).run Sample.start = (.ok p, u) ∧
      p.conditions =
        [{ lhs := Sample.column "A" "w", rhs := .column (Sample.column "C" "z"),
           comparator := .less, kind := .join }] ∧
      ∃ q', Query.ofText Sql.dialect "SELECT * FROM A, C WHERE z > w" = .ok q' ∧
        (build Sample.catalog default q').run Sample.start = (.ok p, u) := by
  let w : Attribute := { table := none, name := "w" }
  let z : Attribute := { table := none, name := "z" }
  let q : Query :=
    { tables := ["A", "C"], selections := [{ lhs := w, rhs := .column z, comparator := .less }] }
  let p : Plan := .join
    (.scan "A" (Sample.schema "A" "x" "w")) (.scan "C" (Sample.schema "C" "y" "z"))
    [{ lhs := Sample.column "A" "w", rhs := .column (Sample.column "C" "z"), comparator := .less,
       kind := .join }] 1 0
  have hrun : (build Sample.catalog default q).run Sample.start =
      (.ok p, ((build Sample.catalog default q).run Sample.start).2) :=
    Prod.ext (by decide +kernel) rfl
  have hturned : Sql.Expr.TurnedTo Sample.catalog
      ⟨["A", "C"], ⟨[("A", "A"), ("C", "C")]⟩⟩
      (.compare .less (.column [] ⟨"w", false⟩) (.column [] ⟨"z", false⟩))
      (.compare .greater (.column [] ⟨"z", false⟩) (.column [] ⟨"w", false⟩)) :=
    .columns (a := w) (b := z) (t := "A") (u := "C") rfl rfl (by decide +kernel)
      (by decide +kernel) (by decide)
  have hread : Sql.Reader.read? Sql.dialect "SELECT * FROM A, C WHERE w < z" =
      some (.select (Sample.comparing "A" "C" .less ([], ⟨"w", false⟩) ([], ⟨"z", false⟩))) := by
    decide +kernel
  have hread' : Sql.Reader.read? Sql.dialect "SELECT * FROM A, C WHERE z > w" =
      some (.select (Sample.comparing "A" "C" .greater ([], ⟨"z", false⟩) ([], ⟨"w", false⟩))) := by
    decide +kernel
  have hq : Query.ofText Sql.dialect "SELECT * FROM A, C WHERE w < z" = .ok q :=
    (Query.ofText_eq_resolve hread).trans (by decide +kernel)
  exact ⟨q, p, _, hq, hrun, by decide +kernel, build_turned hread hread' rfl
    (Sample.comparing_rewrittenTo "A" "C") hturned hq hrun⟩

/-- A catalog with a table that has an empty name. -/
def Sample.unnamedCatalog : Catalog where
  files := (Files.put {} ".schema.json"
    "\x7b\"attributes\": [\x7b\"name\": \"a\"\x7d]\x7d".toUTF8).put
    "T.schema.json" "\x7b\"attributes\": [\x7b\"name\": \"b\"\x7d]\x7d".toUTF8
  directory := ""

/-- A comparison with a column of a table that has an empty name keeps its sides, and stands above
the table of its left side. -/
theorem build_turned_unnamed :
    ∃ q q' p p' u u',
      Query.ofText Sql.dialect "SELECT * FROM \"\", T WHERE b = a" = .ok q ∧
      Query.ofText Sql.dialect "SELECT * FROM \"\", T WHERE a = b" = .ok q' ∧
      (build Sample.unnamedCatalog default q).run Sample.start = (.ok p, u) ∧
      (build Sample.unnamedCatalog default q').run Sample.start = (.ok p', u') ∧
      p.scannedTables = ["T"] ∧ p'.scannedTables = [""] := by
  let a : Attribute := { table := none, name := "a" }
  let b : Attribute := { table := none, name := "b" }
  let q : Query := { tables := ["", "T"], selections := [{ lhs := b, rhs := .column a }] }
  let q' : Query := { tables := ["", "T"], selections := [{ lhs := a, rhs := .column b }] }
  let p : Plan := .select (.scan "T" ⟨[Sample.column "T" "b"], 4⟩)
    { lhs := Sample.column "T" "b", rhs := .column (Sample.column "" "a") }
  let p' : Plan := .select (.scan "" ⟨[Sample.column "" "a"], 4⟩)
    { lhs := Sample.column "" "a", rhs := .column (Sample.column "T" "b") }
  exact ⟨q, q', p, p', _, _, by decide +kernel, by decide +kernel,
    Prod.ext (by decide +kernel) rfl, Prod.ext (by decide +kernel) rfl, by decide +kernel,
    by decide +kernel⟩

end Samples

end BuildM

end QueryPlan
