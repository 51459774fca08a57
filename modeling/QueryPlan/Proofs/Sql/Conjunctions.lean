import Mathlib
import QueryPlan.Proofs.Sql.Rewriting
import QueryPlan.Sql.Reader.Statement

/-!
# Joins with and without their own conditions

The tables of a statement may be joined one by one, each with a condition, or be listed with all
conditions together after them. A conjunction is taken apart into its comparisons from left to
right, whatever its parentheses are, and the conditions of the joins come before that of the
statement, in the order of the tables. So both ways of writing ask the same query when they write
the same comparisons in the same order.

## Main definitions

* `Conjunction` : comparisons between which `and` stands, with any parentheses.
* `Select.joining`, `Select.listing` : statements with joins one by one, and with a list of tables.

## Main results

* `Conjunction.conjuncts_expr` : the comparisons that a conjunction is taken apart into.
* `Query.ofText_joining` : joins one by one and a list of tables ask the same query.
-/

namespace QueryPlan

namespace Sql

/-- Comparisons between which `and` stands, with any parentheses around parts of them. -/
inductive Conjunction
  | comparison (comparator : Comparator) (left right : Expr)
  | both (left right : Conjunction)
  | bracketed (inner : Conjunction)

namespace Conjunction

/-- The expression that is written. -/
def expr : Conjunction → Expr
  | comparison c left right => .compare c left right
  | both left right => .conj left.expr right.expr
  | bracketed inner => .paren inner.expr

/-- The comparisons from left to right. -/
def comparisons : Conjunction → List Expr
  | comparison c left right => [.compare c left right]
  | both left right => left.comparisons ++ right.comparisons
  | bracketed inner => inner.comparisons

/-- A conjunction is taken apart into its comparisons, wherever its parentheses stand. -/
theorem conjuncts_expr (p : Conjunction) : p.expr.conjuncts = p.comparisons := by
  induction p with
  | comparison => rfl
  | both left right ihl ihr => rw [expr, Expr.conjuncts, ihl, ihr, comparisons]
  | bracketed inner ih => exact ih

/-- The comparisons of a conjunction that may be left out. -/
def comparisons? (p : Option Conjunction) : List Expr := p.toList.flatMap comparisons

theorem flatMap_conjuncts (p : Option Conjunction) :
    (p.map expr).toList.flatMap Expr.conjuncts = comparisons? p := by
  cases p with
  | none => rfl
  | some p => simp [comparisons?, conjuncts_expr]

end Conjunction

namespace Select

open Conjunction

variable {s : Select} {joined : List (TableRef × Option Conjunction)} {tables : List TableRef}
  {p q : Option Conjunction}

/-- The statement with further tables that are joined one by one, each with a condition or without
one, and with a condition of the whole. -/
def joining (s : Select) (joined : List (TableRef × Option Conjunction)) (q : Option Conjunction) :
    Select :=
  { s with
    tables := s.tables ++ joined.map Prod.fst
    joins := joined.map fun j => j.2.map expr
    condition := q.map expr }

/-- The statement with further tables between commas, and with a condition of the whole. -/
def listing (s : Select) (tables : List TableRef) (q : Option Conjunction) : Select :=
  s.joining (tables.map (·, none)) q

/-- The single conditions of a statement are the comparisons of its joins, in the order of the
tables, and then those of its own condition. -/
theorem predicates_joining : (s.joining joined q).predicates =
    joined.flatMap (fun j => comparisons? j.2) ++ comparisons? q := by
  simp only [joining, predicates, conditions, List.flatMap_append, List.reduceOption,
    List.filterMap_eq_flatMap_toList, List.flatMap_assoc, List.flatMap_map, id, flatMap_conjuncts]

/-- The query of a statement by its comparisons. -/
theorem resolve_joining [Reader] (s : Select) (joined : List (TableRef × Option Conjunction))
    (q : Option Conjunction) : (s.joining joined q).resolve = (do
      let scope ← Scope.ofSources (s.tables ++ joined.map Prod.fst)
      let conditions ←
        (joined.flatMap (fun j => comparisons? j.2) ++ comparisons? q).mapM scope.condition
      (s.clauses scope).map (·.on conditions)) := by
  rw [resolve_eq, predicates_joining]
  rfl

/-- The query of a statement with a list of tables. -/
theorem resolve_listing [Reader] (s : Select) (tables : List TableRef) (q : Option Conjunction) :
    (s.listing tables q).resolve = (do
      let scope ← Scope.ofSources (s.tables ++ tables)
      let conditions ← (comparisons? q).mapM scope.condition
      (s.clauses scope).map (·.on conditions)) := by
  have htables : (tables.map (·, (none : Option Conjunction))).map Prod.fst = tables := by
    simp [Function.comp_def]
  have hnone : (tables.map (·, (none : Option Conjunction))).flatMap
      (fun j => comparisons? j.2) = [] := by
    simp [comparisons?, List.flatMap_map]
  rw [listing, resolve_joining, htables, hnone, List.nil_append]

end Select

end Sql

open Sql Conjunction

/-- A statement whose tables are joined one by one, each with a condition or without one, asks the
query that the statement with a list of its tables asks, when a conjunction of the same comparisons
in the same order stands after them, with any parentheses. Its tables are those that are written, in
order, and its conditions are what the comparisons mean, in order. If a comparison or anything else
has no meaning, both statements are refused for the same reason. -/
theorem Query.ofText_joining [Reader] {dialect text text' : String} {s : Select}
    {joined : List (TableRef × Option Conjunction)} {q r : Option Conjunction}
    (hread : Reader.read? dialect text = some (.select (s.joining joined q)))
    (hread' : Reader.read? dialect text' = some (.select (s.listing (joined.map Prod.fst) r)))
    (hsame : comparisons? r = joined.flatMap (fun j => comparisons? j.2) ++ comparisons? q) :
    Query.ofText dialect text = Query.ofText dialect text' ∧
      Query.ofText dialect text = (do
        let scope ← Scope.ofSources (s.tables ++ joined.map Prod.fst)
        let conditions ← (comparisons? r).mapM scope.condition
        (s.clauses scope).map (·.on conditions)) := by
  have hresolve := s.resolve_listing (joined.map Prod.fst) r
  have hequal : (s.joining joined q).resolve = (s.listing (joined.map Prod.fst) r).resolve := by
    rw [hresolve, Select.resolve_joining, hsame]
  rw [ofText_eq_resolve hread, ofText_eq_resolve hread', hequal]
  exact ⟨rfl, hresolve⟩

/-! ### Two statements read from texts -/

attribute [local instance] standardReader

namespace Sample

/-- A statement that selects all columns of three tables, with a condition of the first join and one
of the whole. -/
def joining (first second third : TableRef) (p q : Option Conjunction) : Select :=
  Select.joining { items := [.star], tables := [first] } [(second, p), (third, none)] q

/-- A comparison of two columns. -/
def compared (c : Comparator) (l r : String × String) : Conjunction :=
  .comparison c (.column [⟨l.1, false⟩] ⟨l.2, false⟩) (.column [⟨r.1, false⟩] ⟨r.2, false⟩)

end Sample

theorem Query.ofText_joining_sample :
    ∃ q, Query.ofText Sql.dialect
        "SELECT * FROM A JOIN B b ON A.x = b.x AND (A.y < b.y) JOIN C WHERE b.z = C.z" = .ok q ∧
      Query.ofText Sql.dialect
        "SELECT * FROM A, B b, C WHERE (A.x = b.x AND (A.y < b.y AND b.z = C.z))" = .ok q ∧
      q.tables = ["A", "B", "C"] ∧
      q.joins.map Condition.render = ["A.x = B.x", "A.y < B.y", "B.z = C.z"] := by
  let x := Sample.compared .equal ("A", "x") ("b", "x")
  let y := Sample.compared .less ("A", "y") ("b", "y")
  let z := Sample.compared .equal ("b", "z") ("C", "z")
  have hread : Reader.read? dialect
      "SELECT * FROM A JOIN B b ON A.x = b.x AND (A.y < b.y) JOIN C WHERE b.z = C.z" = some (.select
        (Sample.joining ⟨"A", none⟩ ⟨"B", some "b"⟩ ⟨"C", none⟩ (some (x.both y.bracketed))
          (some z))) := by
    decide +kernel
  have hread' : Reader.read? dialect
      "SELECT * FROM A, B b, C WHERE (A.x = b.x AND (A.y < b.y AND b.z = C.z))" = some (.select
        (Sample.joining ⟨"A", none⟩ ⟨"B", some "b"⟩ ⟨"C", none⟩ none
          (some (x.both (y.both z).bracketed).bracketed))) := by
    decide +kernel
  have hsame : Query.ofText Sql.dialect
      "SELECT * FROM A JOIN B b ON A.x = b.x AND (A.y < b.y) JOIN C WHERE b.z = C.z" =
        Query.ofText Sql.dialect
          "SELECT * FROM A, B b, C WHERE (A.x = b.x AND (A.y < b.y AND b.z = C.z))" :=
    (Query.ofText_joining hread hread' rfl).1
  let column (table name : String) : Attribute := { table := some table, name := name }
  let query : Query :=
    { tables := ["A", "B", "C"]
      joins :=
        [{ lhs := column "A" "x", rhs := .column (column "B" "x"), kind := .join },
         { lhs := column "A" "y", comparator := .less, rhs := .column (column "B" "y"),
           kind := .join },
         { lhs := column "B" "z", rhs := .column (column "C" "z"), kind := .join }] }
  have hquery : Query.ofText Sql.dialect
      "SELECT * FROM A JOIN B b ON A.x = b.x AND (A.y < b.y) JOIN C WHERE b.z = C.z" =
        .ok query :=
    (Query.ofText_eq_resolve hread).trans (by decide +kernel)
  exact ⟨query, hquery, hsame.symm.trans hquery, rfl, by decide +kernel⟩

end QueryPlan
