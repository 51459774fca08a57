import QueryPlan.Catalog.Basic
import QueryPlan.Catalog.Settings
import QueryPlan.Event
import QueryPlan.Join.Graph
import QueryPlan.Plan.Rendering
import QueryPlan.Program
import QueryPlan.Random.Draws

/-!
# The frontier of a plan under construction

While a plan is built, every table has a top-most operator over it. Tables that are joined share
that operator: they form a group, and the operator is kept under the leader of the group. Merging
two groups under a join replaces their two operators by the join.

A column that names no table belongs to the one table whose operator has a column of that name.

The state of a construction is kept when a step fails.

## Main definitions

* `BuildState`, `BuildM` : the state of a construction, and steps that change it and may fail.
* `BuildM.topOf`, `BuildM.setTop`, `BuildM.merge` : look up and replace top-most operators.
* `BuildM.ownerOf`, `BuildM.qualify` : the table of a column, and the column with its table.
-/

namespace QueryPlan

/-- The state of a construction: the root of the plan so far, the number of joins made, the groups
of tables that share an operator, the operator of every group by its leader, the source of random
codes, and the events recorded. -/
structure BuildState where
  root : Option Plan := none
  joinCount : Nat := 0
  groups : Grouping := {}
  tops : OrderedMap String Plan := {}
  draws : Draws
  events : List Event := []
  deriving Inhabited

/-- A step of a construction. -/
abbrev BuildM := Program BuildState Failure

namespace BuildM

open Program (fail)

/-- Records an event. -/
def record (e : Event) : BuildM Unit :=
  modify fun s => { s with events := s.events ++ [e] }

/-- Makes an operator the root of the plan. -/
def setRoot (p : Plan) : BuildM Unit :=
  modify fun s => { s with root := some p }

/-- The leader of a table's group. -/
def leaderOf (table : String) : BuildM String := do
  match (← get).groups.find table with
  | some (leader, groups) =>
    modify fun s => { s with groups := groups }
    return leader
  | none => fail (.tableNotListed table)

/-- The top-most operator over a table. -/
def topOf (table : String) : BuildM Plan := do
  let leader ← leaderOf table
  match (← get).tops.get? leader with
  | some p => return p
  | none => fail (.tableNotListed table)

/-- Replaces the top-most operator over a table, and so over all tables of its group. -/
def setTop (table : String) (p : Plan) : BuildM Unit := do
  let leader ← leaderOf table
  modify fun s => { s with tops := s.tops.insert leader p }

/-- Puts a table in a group of its own under its scan. -/
def addScan (table : String) (p : Plan) : BuildM Unit :=
  modify fun s => { s with groups := s.groups.bind table table, tops := s.tops.insert table p }

/-- Merges the groups of two tables under one operator. -/
def merge (left right : String) (p : Plan) : BuildM Unit := do
  let kept ← leaderOf left
  let absorbed ← leaderOf right
  modify fun s =>
    { s with
      groups := s.groups.bind absorbed kept,
      tops := (s.tops.erase absorbed).insert kept p }

/-- Those of the given tables whose operators have a column that a reference means. -/
def tablesWith (reference : Attribute) : List String → BuildM (List String)
  | [] => return []
  | table :: tables => do
    let top ← topOf table
    let others ← tablesWith reference tables
    return if top.schema.contains reference then table :: others else others

/-- The table that a column belongs to: the one it names, or else the only one with such a
column. -/
def ownerOf (a : Attribute) : BuildM String := do
  match a.owner? with
  | some table => return table
  | none =>
    match ← tablesWith a (← get).groups.tables with
    | [table] => return table
    | [] => fail (.attributeWithoutTable a)
    | tables => fail (.ambiguousAttribute a tables)

/-- The column with its table. -/
def qualify (a : Attribute) : BuildM Attribute := do
  match a.owner? with
  | some _ => return a
  | none =>
    let table ← ownerOf a
    let top ← topOf table
    match top.schema.resolve? a with
    | some found => return found
    | none => fail (.attributeNotFound a)

/-- The operand with its table, if it is a column. -/
def qualifyOperand : Operand → BuildM Operand
  | .column a => return .column (← qualify a)
  | o => return o

/-- The condition with both columns qualified. A condition that names its tables stays as it is. -/
def qualifyCondition (c : Condition) : BuildM Condition := do
  let lhs ← qualify c.lhs
  let rhs ← qualifyOperand c.rhs
  return if lhs.same c.lhs && rhs.same c.rhs then c else { c with lhs := lhs, rhs := rhs }

/-- The conditions with all columns qualified. -/
def qualifyAll : List Condition → BuildM (List Condition)
  | [] => return []
  | c :: conditions => do
    let c ← qualifyCondition c
    let others ← qualifyAll conditions
    return c :: others

end BuildM

end QueryPlan
