import QueryPlan.Predicate.Comparator

/-!
# Expressions of a query

The expressions that stand in the clauses of a query, as far as a query tells them apart. A column
may be qualified; of its qualifiers, the last one names a table.
-/

namespace QueryPlan.Sql

/-- A name, and whether it is written in double quotes. -/
structure Identifier where
  text : String
  quoted : Bool := false
  deriving Repr, DecidableEq, Inhabited

/-- An expression. Of one that is neither a column, a literal, a comparison nor a conjunction, it is
only known what kind it is and how it is shown. -/
inductive Expr
  | column (qualifiers : List Identifier) (name : Identifier)
  | tableStar (qualifiers : List Identifier)
  | star
  | number (text : String)
  | text (s : String)
  | negate (e : Expr)
  | compare (comparator : Comparator) (left right : Expr)
  | conj (left right : Expr)
  | paren (e : Expr)
  | named (e : Expr) (name : Identifier)
  | other (kind text : String)
  deriving Repr, DecidableEq, Inhabited

namespace Expr

/-- The qualifiers and the name of a column. All columns of a table together are a column too,
named by a star. -/
def column? : Expr → Option (List Identifier × Identifier)
  | column qualifiers name => some (qualifiers, name)
  | tableStar qualifiers => some (qualifiers, ⟨"*", false⟩)
  | _ => none

/-- The members of a conjunction, in order, without the parentheses around them. -/
def conjuncts : Expr → List Expr
  | paren e => e.conjuncts
  | conj left right => left.conjuncts ++ right.conjuncts
  | e => [e]

/-- An expression without the name it is given. -/
def unnamed : Expr → Expr
  | named e _ => e
  | e => e

end Expr

end QueryPlan.Sql
