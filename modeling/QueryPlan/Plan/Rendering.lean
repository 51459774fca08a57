import QueryPlan.Join.Algorithm
import QueryPlan.Plan.Traversal

/-!
# Texts of plans

A plan is shown with one operator to a line, each line indented by two blanks for every operator
above it, or on a single line with the operators below each one in brackets behind an arrow.
-/

namespace QueryPlan.Plan

/-- The description of a sorting operator. -/
def describeTask : SortTask → String
  | .groupBy columns => "GroupBy(" ++ Attribute.renderList columns ++ ")"
  | .orderBy columns ascending =>
    "OrderBy(" ++ Attribute.renderList columns ++ (if ascending then " ASC)" else " DESC)")
  | .distinct none => "Distinct(*)"
  | .distinct (some columns) =>
    "Distinct(" ++ (if columns.isEmpty then "*" else Attribute.renderList columns) ++ ")"
  | .sort columns => "Sort(" ++ Attribute.renderList columns ++ ")"

/-- The description of a single operator. -/
def describe : Plan → String
  | scan table _ => "Scan(" ++ table ++ ")"
  | select _ condition => "Select(" ++ condition.render ++ ")"
  | project _ columns => "Project(" ++ Attribute.renderList columns ++ ")"
  | join _ _ conditions algorithm _ =>
    "Join[" ++ JoinAlgorithm.nameOfCode algorithm ++ "](" ++
      String.intercalate " AND " (conditions.map Condition.render) ++ ")"
  | sorting _ task _ => describeTask task
  | foreign _ name _ => name
  | foreignLeaf name _ => name

/-- The indentation of a line at a depth. -/
def indentation (depth : Nat) : String := String.ofList (List.replicate (2 * depth) ' ')

/-- The lines of a plan whose root stands at a depth. -/
def linesFrom (depth : Nat) : Plan → List String
  | p@(scan _ _) => [indentation depth ++ p.describe]
  | p@(select base _) => (indentation depth ++ p.describe) :: base.linesFrom (depth + 1)
  | p@(project base _) => (indentation depth ++ p.describe) :: base.linesFrom (depth + 1)
  | p@(join left right _ _ _) =>
    (indentation depth ++ p.describe) ::
      (left.linesFrom (depth + 1) ++ right.linesFrom (depth + 1))
  | p@(sorting base _ _) => (indentation depth ++ p.describe) :: base.linesFrom (depth + 1)
  | p@(foreign base _ _) => (indentation depth ++ p.describe) :: base.linesFrom (depth + 1)
  | p@(foreignLeaf _ _) => [indentation depth ++ p.describe]

/-- The lines of a plan. -/
def lines (p : Plan) : List String := p.linesFrom 0

/-- The text of a plan, one operator to a line. -/
def render (p : Plan) : String := String.intercalate "\n" p.lines

/-- The text of a plan on a single line. -/
def renderInline : Plan → String
  | p@(scan _ _) => p.describe
  | p@(select base _) => p.describe ++ " <- (" ++ base.renderInline ++ ")"
  | p@(project base _) => p.describe ++ " <- (" ++ base.renderInline ++ ")"
  | p@(join left right _ _ _) =>
    p.describe ++ " <- (" ++ left.renderInline ++ ", " ++ right.renderInline ++ ")"
  | p@(sorting base _ _) => p.describe ++ " <- (" ++ base.renderInline ++ ")"
  | p@(foreign base _ _) => p.describe ++ " <- (" ++ base.renderInline ++ ")"
  | p@(foreignLeaf _ _) => p.describe

end QueryPlan.Plan
