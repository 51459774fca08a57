import Mathlib
import QueryPlan.Proofs.Build.Alike
import QueryPlan.Sql.Resolution

/-!
# Rewriting one condition of a statement

One of the single conditions of a statement may be written in another way, wherever it stands in the
condition of the statement or in those of its joins. The other conditions keep their places, and the
other clauses do not depend on the conditions, so the queries of both statements differ in one
condition at most.

## Main definitions

* `Select.RewrittenTo` : two statements are the same up to one of their single conditions.
* `Select.clauses` : the query of a statement without its conditions.

## Main results

* `Select.resolve_eq` : the conditions of a statement are resolved apart from its other clauses.
* `Select.resolve_eq_of_predicates` : the query of a statement, by its conditions before and after a
  given one.
-/

namespace QueryPlan

namespace Sql.Select

variable {s s' : Select} {scope : Scope} {q : Query} {before after : List Expr} {x y : Expr}

/-- One of the single conditions of a statement is rewritten: it is `x` in one of two statements and
`y` in the other one, between the same conditions. All else is the same. -/
structure RewrittenTo (s s' : Select) (before : List Expr) (x y : Expr) (after : List Expr) :
    Prop where
  clauses : { s' with joins := s.joins, condition := s.condition } = s
  predicates : s.predicates = before ++ x :: after
  predicates_rewritten : s'.predicates = before ++ y :: after

/-- The query of a statement without its conditions, when its tables are known. -/
def clauses [Reader] (s : Select) (scope : Scope) : Except QueryFault Query := do
  let orderBy ← s.orderBy.mapM fun term => scope.item term.expr
  let groupBy ← s.groupBy.mapM scope.item
  let projection ← (if s.selectsAll then .ok [] else s.items.mapM scope.item :
    Except QueryFault (List Attribute))
  return {
    tables := scope.tables, groupBy := groupBy, orderBy := orderBy, projection := projection,
    distinct := s.distinct, ascending := s.orderBy.isEmpty || s.orderBy.any (!·.descending) }

/-- The conditions of a statement are resolved before its other clauses, which do not depend on
them. -/
theorem resolve_eq [Reader] (s : Select) : s.resolve = (do
    let scope ← Scope.ofSources s.tables
    let conditions ← s.predicates.mapM scope.condition
    (s.clauses scope).map (·.on conditions)) := by
  unfold resolve clauses
  refine congrArg (Scope.ofSources s.tables >>= ·) (funext fun scope => ?_)
  refine congrArg (s.predicates.mapM scope.condition >>= ·) (funext fun conditions => ?_)
  cases s.orderBy.mapM fun term => scope.item term.expr with
  | error e => rfl
  | ok orderBy =>
    cases s.groupBy.mapM scope.item with
    | error e => rfl
    | ok groupBy =>
      cases s.selectsAll with
      | true => rfl
      | false => cases s.items.mapM scope.item <;> rfl

theorem tables_of_clauses [Reader] (h : s.clauses scope = .ok q) : q.tables = scope.tables := by
  obtain ⟨_, -, h⟩ := bind_eq_ok_iff.1 h
  obtain ⟨_, -, h⟩ := bind_eq_ok_iff.1 h
  obtain ⟨_, -, h⟩ := bind_eq_ok_iff.1 h
  obtain rfl := Except.ok.inj h
  rfl

theorem RewrittenTo.tables_eq (h : s.RewrittenTo s' before x y after) : s'.tables = s.tables := by
  rw [← h.clauses]

theorem RewrittenTo.clauses_eq [Reader] (h : s.RewrittenTo s' before x y after) :
    s'.clauses = s.clauses := by
  rw [← h.clauses]
  rfl

/-- The query of a statement, by its conditions before and after a given one. -/
theorem resolve_eq_of_predicates [Reader] (hscope : Scope.ofSources s.tables = .ok scope)
    (h : s.predicates = before ++ x :: after) : s.resolve = (do
      let earlier ← before.mapM scope.condition
      let c ← scope.condition x
      let later ← after.mapM scope.condition
      (s.clauses scope).map (·.on (earlier ++ c :: later))) := by
  rw [resolve_eq, hscope, h]
  simp only [mapM_append_cons, bind_assoc, pure_bind]
  rfl

end Sql.Select

/-- The query of a text that is a statement that selects rows. -/
theorem Query.ofText_eq_resolve [Sql.Reader] {dialect text : String} {s : Sql.Select}
    (h : Sql.Reader.read? dialect text = some (.select s)) :
    Query.ofText dialect text = s.resolve := by
  rw [Query.ofText, h]
  rfl

/-! ### A statement with one comparison -/

namespace Sample

open Sql

/-- A statement that compares a column of one table with one of another table. -/
def comparing (table table' : String) (c : Comparator) (l r : List Identifier × Identifier) :
    Select where
  items := [.star]
  tables := [{ table := table }, { table := table' }]
  joins := [none]
  condition := some (.compare c (.column l.1 l.2) (.column r.1 r.2))

theorem comparing_rewrittenTo (table table' : String) {c c' : Comparator}
    {l r l' r' : List Identifier × Identifier} :
    (comparing table table' c l r).RewrittenTo (comparing table table' c' l' r') []
      (.compare c (.column l.1 l.2) (.column r.1 r.2))
      (.compare c' (.column l'.1 l'.2) (.column r'.1 r'.2)) [] :=
  ⟨rfl, rfl, rfl⟩

end Sample

end QueryPlan
