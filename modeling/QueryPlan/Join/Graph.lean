import QueryPlan.Failure
import QueryPlan.Join.Grouping

/-!
# Join graphs

A join graph collects join conditions by the pair of tables that they relate. Edges are listed in
the order in which their pair first occurred. Every condition is stored with the smaller table on
its left side.

An unordered pair of tables is written as one text, its key: the smaller name, a separator, the
larger name, where names are compared by code points. Reading such a text splits it at the first
separator.

## Main definitions

* `Pair.key`, `Pair.split?` : the key of a pair, and the names in a key.
* `JoinGraph.add` : adds a condition, turned round if its left side names the larger table.
* `JoinGraph.components` : the listed tables in groups connected by edges.
-/

namespace QueryPlan

namespace Pair

/-- What stands between the two names of a pair. -/
def separator : List Char := ['|', '|', '|']

/-- Two names, the smaller one first. -/
def ordered (s t : String) : String × String := if t < s then (t, s) else (s, t)

/-- The key of the pair of two tables. -/
def key (s t : String) : String :=
  (ordered s t).1 ++ String.ofList separator ++ (ordered s t).2

/-- What stands before and after the first separator. -/
def splitChars? : List Char → Option (List Char × List Char)
  | [] => none
  | c :: cs =>
    if separator.isPrefixOf (c :: cs) then some ([], cs.drop 2)
    else (splitChars? cs).map fun (left, right) => (c :: left, right)

/-- The two names in a key: what stands before and after its first separator. -/
def split? (key : String) : Option (String × String) :=
  (splitChars? key.toList).map fun (left, right) => (String.ofList left, String.ofList right)

theorem ordered_comm (s t : String) : ordered s t = ordered t s := by
  unfold ordered
  by_cases hst : s < t
  · simp [hst, String.lt_asymm hst]
  · by_cases hts : t < s
    · simp [hst, hts]
    · rw [String.le_antisymm (String.not_lt.1 hts) (String.not_lt.1 hst)]

theorem key_comm (s t : String) : key s t = key t s := by
  simp [key, ordered_comm s t]

end Pair

/-- Join conditions by pair of tables, and the neighbours of every table. -/
structure JoinGraph where
  conditions : OrderedMap String (List Condition) := {}
  neighbours : OrderedMap String (List String) := {}
  deriving Repr, DecidableEq, Inhabited

namespace JoinGraph

/-- The keys of the edges, in the order of their first condition. -/
def edges (g : JoinGraph) : List String := g.conditions.keys

/-- The conditions of an edge, in the order in which they were added. -/
def conditionsOf (g : JoinGraph) (edge : String) : List Condition :=
  (g.conditions.get? edge).getD []

/-- The neighbours of a table. -/
def neighboursOf (g : JoinGraph) (table : String) : List String :=
  (g.neighbours.get? table).getD []

/-- The graph in which `neighbour` is a neighbour of `table`. -/
def addNeighbour (g : JoinGraph) (table neighbour : String) : JoinGraph :=
  let known := g.neighboursOf table
  let all := if known.contains neighbour then known else known ++ [neighbour]
  { g with neighbours := g.neighbours.insert table all }

/-- The graph with a condition that has the smaller table `s` on its left side and the larger
table `t` on its right side. -/
def addOriented (g : JoinGraph) (s t : String) (c : Condition) : String × JoinGraph :=
  let edge := Pair.key s t
  let g := { g with conditions := g.conditions.insert edge (g.conditionsOf edge ++ [c]) }
  (edge, (g.addNeighbour s t).addNeighbour t s)

/-- The graph with one more condition, and the key of its edge. The condition has to be a join of
two different tables. -/
def add (g : JoinGraph) (c : Condition) : Except Failure (String × JoinGraph) :=
  if !c.isJoin then .error (.notAJoin c)
  else
    match c.rhs with
    | .column a =>
      match c.lhs.owner?, a.owner? with
      | some s, some t =>
        if s = t then .error (.notTwoTables c)
        else if t < s then .ok (g.addOriented t s (c.flipped?.getD c))
        else .ok (g.addOriented s t c)
      | _, _ => .error (.notTwoTables c)
    | _ => .error (.literalWithoutTable c)

/-- The graph of a list of conditions, added in order. -/
def ofConditions (conditions : List Condition) : Except Failure JoinGraph :=
  conditions.foldlM (fun g c => (g.add c).map Prod.snd) {}

/-- The grouping in which the tables of every one of the given edges are in one group. -/
def connectAll (grouping : Grouping) : List String → Grouping
  | [] => grouping
  | edge :: edges =>
    match Pair.split? edge with
    | some (s, t) => connectAll (grouping.connect s t) edges
    | none => connectAll grouping edges

/-- The listed tables, grouped so that tables connected by edges are together, also through tables
that are not listed. -/
def components (g : JoinGraph) (tables : List String) : List (List String) :=
  (connectAll (Grouping.ofTables tables) g.edges).groups tables

/-- A graph without conditions has no edges. -/
@[simp] theorem edges_empty : ({} : JoinGraph).edges = [] := rfl

end JoinGraph

end QueryPlan
