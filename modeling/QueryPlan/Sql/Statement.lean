import QueryPlan.Sql.Expr

/-!
# Statements

What a statement is made of, before names are resolved and conditions are sorted, and what is asked
of the reader that finds this in a text. Which texts are statements, in which dialects, and how an
expression is put into words are matters of the reader alone.

## Main definitions

* `Select`, `Statement` : statements that select rows, and others.
* `Reader` : what reads statements.
-/

namespace QueryPlan.Sql

/-- A table and the name that it goes by, if it is given one. -/
structure TableRef where
  table : String
  label : Option String := none
  deriving Repr, DecidableEq, Inhabited

/-- An expression to order by. -/
structure OrderTerm where
  expr : Expr
  descending : Bool := false
  deriving Repr, DecidableEq, Inhabited

/-- A statement that selects rows. It lists all tables that stand anywhere in it, in the order in
which its reader comes across them, and for every join the condition of the join, if it has one. -/
structure Select where
  distinct : Bool := false
  items : List Expr := []
  tables : List TableRef := []
  joins : List (Option Expr) := []
  condition : Option Expr := none
  groupBy : List Expr := []
  orderBy : List OrderTerm := []
  deriving Repr, DecidableEq, Inhabited

namespace Select

/-- The conditions of the joins, in order, and then that of the whole statement. -/
def conditions (s : Select) : List Expr := s.joins.reduceOption ++ s.condition.toList

/-- The single conditions of a statement. -/
def predicates (s : Select) : List Expr := s.conditions.flatMap Expr.conjuncts

/-- Whether all columns are selected. -/
def selectsAll (s : Select) : Bool :=
  s.items.any fun
    | .star | .tableStar _ => true
    | _ => false

end Select

/-- A statement: one that selects rows, or another one by the name of its kind. -/
inductive Statement
  | select (s : Select)
  | other (kind : String)
  deriving Repr, DecidableEq, Inhabited

/-- What reads statements. -/
class Reader where
  /-- The statement that a text is in a dialect, if it is one. -/
  read? (dialect text : String) : Option Statement
  /-- An expression as it is shown in messages. -/
  render (e : Expr) : String

/-- The dialect that texts are in where no other one is named. -/
def dialect : String := "postgres"

end QueryPlan.Sql
