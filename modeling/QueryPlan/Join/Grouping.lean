import QueryPlan.OrderedMap

/-!
# Tables in groups

A `Grouping` divides tables into disjoint groups. Every table is bound to a table of its group, and
the leader of a group to itself, so that the links lead from every table to the leader of its group.
Two tables are in one group exactly when they have one leader.

Looking a leader up shortens the way: every table on it is bound to the leader. Uniting two groups
binds the leader of one to that of the other.

## Main definitions

* `Grouping.find` : the leader of a table, and the grouping with the shortened way.
* `Grouping.connect` : the grouping in which two tables are in one group.
* `Grouping.groups` : the listed tables by group.
-/

namespace QueryPlan

/-- Tables in disjoint groups, each bound to a table of its group. -/
structure Grouping where
  links : OrderedMap String String := {}
  deriving Repr, DecidableEq, Inhabited

namespace Grouping

/-- The tables, in the order in which they were added. -/
def tables (g : Grouping) : List String := g.links.keys

/-- The table that a table is bound to. -/
def next? (g : Grouping) (table : String) : Option String := g.links.get? table

/-- The grouping with a table bound to another one. -/
def bind (g : Grouping) (table next : String) : Grouping := ⟨g.links.insert table next⟩

/-- The grouping with one more table in a group of its own, if the table is new. -/
def add (g : Grouping) (table : String) : Grouping :=
  if g.links.contains table then g else g.bind table table

/-- Every table in a group of its own. -/
def ofTables (tables : List String) : Grouping := tables.foldl add {}

/-- The leader that the given links lead to from a table, and the grouping in which every table on
the way is bound to it. No link is followed twice: a way that comes back to one of its tables leads
to no leader. -/
def findAlong (g : Grouping) (links : OrderedMap String String) (table : String) :
    Option (String × Grouping) :=
  match _h : links.get? table with
  | none => none
  | some next =>
    if next = table then some (table, g)
    else (g.findAlong (links.erase table) next).map fun (leader, g) => (leader, g.bind table leader)
  termination_by links.size
  decreasing_by exact OrderedMap.size_erase_lt _h

/-- The leader of a table's group, and the grouping in which every table on the way to it is bound
to it. -/
def find (g : Grouping) (table : String) : Option (String × Grouping) :=
  g.findAlong g.links table

/-- The leader of a table that is added if it is new, and the grouping after it is looked up. -/
def locate (g : Grouping) (table : String) : String × Grouping :=
  ((g.add table).find table).getD (table, g.add table)

/-- The grouping in which two tables, added if they are new, are in one group. -/
def connect (g : Grouping) (s t : String) : Grouping :=
  let (l, g) := g.locate s
  let (r, g) := g.locate t
  if l = r then g else g.bind r l

/-- Puts the listed tables, in the order of the list, into the groups found so far by leader. -/
def collect (g : Grouping) (groups : OrderedMap String (List String)) :
    List String → OrderedMap String (List String)
  | [] => groups
  | table :: tables =>
    let (leader, g) := g.locate table
    let members := (groups.get? leader).getD []
    collect g
      (groups.insert leader (if members.contains table then members else members ++ [table])) tables

/-- The groups formed by the listed tables, each in the order of the list, in the order of their
first members. -/
def groups (g : Grouping) (tables : List String) : List (List String) :=
  (g.collect {} tables).values

end Grouping

end QueryPlan
