import QueryPlan.Predicate.Condition
import QueryPlan.Relation.Schema

/-!
# Plan trees

A plan is a tree of operators over scans of base tables. The output schema of an operator follows
from those below it: selections and sorting operators keep their base's schema, a projection
restricts it, and a join concatenates the schemas of both sides.

Grouping, ordering, duplicate elimination and plain sorting all sort their input; they are one
operator that differs in its task. Operators that this library does not know are kept with their
name and their schema, so that plans with them can be shown.

## Main definitions

* `Plan`, `SortTask` : plan trees and the tasks of sorting operators.
* `Plan.schema` : the output schema of an operator.
* `Plan.project` : a projection, if all its columns are there.
-/

namespace QueryPlan

/-- What an operator that sorts its input is used for. -/
inductive SortTask
  | groupBy (columns : List Attribute)
  | orderBy (columns : List Attribute) (ascending : Bool)
  | distinct (columns : Option (List Attribute))
  | sort (columns : List Attribute)
  deriving Repr, DecidableEq, Inhabited

/-- A tree of operators. -/
inductive Plan
  /-- Reads a base table. -/
  | scan (table : String) (output : Schema)
  /-- Keeps the tuples that satisfy a condition. -/
  | select (base : Plan) (condition : Condition)
  /-- Keeps some columns. -/
  | project (base : Plan) (columns : List Attribute)
  /-- Joins two inputs on all conditions that relate them; the algorithm is a code, and the place is
  that of the join in the order of construction. -/
  | join (left right : Plan) (conditions : List Condition) (algorithm : Int) (place : Int)
  /-- Sorts its input with a number of buffers. -/
  | sorting (base : Plan) (task : SortTask) (buffers : Int)
  /-- An operator that is not known, over a base. -/
  | foreign (base : Plan) (name : String) (output : Schema)
  /-- An operator that is not known, without a base. -/
  | foreignLeaf (name : String) (output : Schema)
  deriving Repr, DecidableEq, Inhabited

namespace Plan

/-- The output schema of an operator. The columns of a projection that are not there are left
out. -/
def schema : Plan → Schema
  | scan _ output => output
  | select base _ => base.schema
  | project base columns => .ofAttributes (columns.filterMap base.schema.resolve?)
  | join left right _ _ _ => left.schema.join right.schema
  | sorting base _ _ => base.schema
  | foreign _ _ output => output
  | foreignLeaf _ output => output

/-- The operators directly below an operator, left to right. -/
def children : Plan → List Plan
  | scan _ _ => []
  | select base _ => [base]
  | project base _ => [base]
  | join left right _ _ _ => [left, right]
  | sorting base _ _ => [base]
  | foreign base _ _ => [base]
  | foreignLeaf _ _ => []

/-- A projection to the given columns, all of which have to be there; the first one that is not is
reported. -/
def projectTo (base : Plan) (columns : List Attribute) : Except Attribute Plan :=
  (base.schema.resolveAll columns).map fun _ => .project base columns

/-- The number of operators. -/
def size : Plan → Nat
  | scan _ _ => 1
  | select base _ => base.size + 1
  | project base _ => base.size + 1
  | join left right _ _ _ => left.size + right.size + 1
  | sorting base _ _ => base.size + 1
  | foreign base _ _ => base.size + 1
  | foreignLeaf _ _ => 1

/-- The name of an operator that is not known and has no base, if the plan has one. -/
def foreignLeaf? : Plan → Option String
  | scan _ _ => none
  | select base _ => base.foreignLeaf?
  | project base _ => base.foreignLeaf?
  | join left right _ _ _ => left.foreignLeaf?.or right.foreignLeaf?
  | sorting base _ _ => base.foreignLeaf?
  | foreign base _ _ => base.foreignLeaf?
  | foreignLeaf name _ => some name

/-- The tasks of sorting operators by name. -/
def taskName : SortTask → String
  | .groupBy _ => "GroupBy"
  | .orderBy _ _ => "OrderBy"
  | .distinct _ => "Distinct"
  | .sort _ => "Sort"

/-- The name of an operator. -/
def operatorName : Plan → String
  | scan _ _ => "Scan"
  | select _ _ => "Select"
  | project _ _ => "Project"
  | join _ _ _ _ _ => "Join"
  | sorting _ task _ => taskName task
  | foreign _ name _ => name
  | foreignLeaf name _ => name

theorem size_pos (p : Plan) : 0 < p.size := by
  cases p <;> simp [size]

end Plan

end QueryPlan
