import QueryPlan.Number.RealText
import QueryPlan.Predicate.Comparator
import QueryPlan.Relation.Attribute

/-!
# Conditions and queries

A condition compares an attribute with another attribute or with a literal. Its kind says whether it
filters one table or joins two. A query consists of its tables, its conditions sorted by kind, and
its other clauses.
-/

namespace QueryPlan

/-- The right side of a condition. -/
inductive Operand
  | column (a : Attribute)
  | integer (n : Int)
  | real (x : Binary64)
  | text (s : String)
  deriving Repr, DecidableEq, Inhabited

/-- What a condition is used for. -/
inductive ConditionKind
  | select
  | join
  deriving Repr, DecidableEq, Inhabited

/-- A comparison between an attribute and an operand. -/
structure Condition where
  lhs : Attribute
  rhs : Operand
  comparator : Comparator := .equal
  kind : ConditionKind := .select
  deriving Repr, DecidableEq, Inhabited

namespace Operand

/-- The attribute, if the operand is one. -/
def column? : Operand → Option Attribute
  | column a => some a
  | _ => none

/-- Whether two operands are the same value: attributes by identity, literals by value. -/
def same : Operand → Operand → Bool
  | column a, column b => a.same b
  | integer m, integer n => m = n
  | real x, real y => x.same y
  | text s, text t => s = t
  | _, _ => false

/-- The operand as it is written in a condition; a text is put in single quotes as it stands. -/
def render : Operand → String
  | column a => a.render
  | integer n => toString n
  | real x => x.render
  | text s => "'" ++ s ++ "'"

end Operand

namespace Condition

/-- Whether the condition joins two tables. -/
def isJoin (c : Condition) : Bool := c.kind = .join

/-- The condition as it is written. -/
def render (c : Condition) : String :=
  c.lhs.render ++ " " ++ c.comparator.symbol ++ " " ++ c.rhs.render

/-- The condition with both sides swapped; a literal cannot be swapped to the left. -/
def flipped? (c : Condition) : Option Condition :=
  c.rhs.column?.map fun a =>
    { lhs := a, rhs := .column c.lhs, comparator := c.comparator.converse, kind := c.kind }

/-- The tables that the two sides name, each once. -/
def tables (c : Condition) : List String :=
  let left := c.lhs.owner?
  let right := c.rhs.column?.bind Attribute.owner?
  match left, right with
  | some s, some t => if s = t then [s] else [s, t]
  | some s, none => [s]
  | none, some t => [t]
  | none, none => []

/-- Whether the condition compares columns of two different tables. -/
def relatesTables (c : Condition) : Bool :=
  c.rhs.column?.isSome && c.tables.length = 2

/-- The conditions in the given list by what they are used for: first those that filter one table,
then those that join two. Each keeps its place among its like and gets the kind it is used as. -/
def classify (conditions : List Condition) : List Condition × List Condition :=
  ((conditions.filter (!·.relatesTables)).map ({ · with kind := .select }),
    (conditions.filter (·.relatesTables)).map ({ · with kind := .join }))

theorem flipped?_flipped? {c d : Condition} (h : c.flipped? = some d) : d.flipped? = some c := by
  obtain ⟨lhs, rhs, comparator, kind⟩ := c
  cases rhs <;> simp [flipped?, Operand.column?] at h
  subst h
  simp [flipped?, Operand.column?]

end Condition

/-- The clauses of a query. An empty projection keeps all columns. -/
structure Query where
  tables : List String
  selections : List Condition := []
  joins : List Condition := []
  groupBy : List Attribute := []
  orderBy : List Attribute := []
  projection : List Attribute := []
  distinct : Bool := false
  ascending : Bool := true
  deriving Repr, DecidableEq, Inhabited

/-- A short summary of a query. -/
def Query.describe (q : Query) : String :=
  "tables=" ++ String.intercalate ", " q.tables ++ " selections=" ++
    toString q.selections.length ++ " joins=" ++ toString q.joins.length

end QueryPlan
