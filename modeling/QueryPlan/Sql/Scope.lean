import QueryPlan.Failure
import QueryPlan.OrderedMap
import QueryPlan.Sql.Statement

/-!
# Scopes

The tables of a statement and the names that they go by. A table goes by its own name and by the one
it is given; where a later table goes by the same name, the name means the later one. A column is
attributed to the table that its qualifier means. A column without a qualifier belongs to the only
table, or else to none yet.
-/

namespace QueryPlan.Sql

/-- The tables of a statement, and the table that every name means. -/
structure Scope where
  tables : List String := []
  names : OrderedMap String String := {}
  deriving Repr, Inhabited

/-- The name that a table is referred to by: the one it is given, if it is not empty, or its own. -/
def TableRef.exposedName (r : TableRef) : String :=
  match r.label with
  | some a => if a = "" then r.table else a
  | none => r.table

namespace Scope

/-- The scope with one more table. -/
def add (s : Scope) (r : TableRef) : Except QueryFault Scope :=
  if s.tables.contains r.table then .error (.repeatedTable r.table)
  else
    .ok
      { tables := s.tables ++ [r.table],
        names := (s.names.insert r.exposedName r.table).insert r.table r.table }

/-- The scope with more tables. -/
def addAll (s : Scope) : List TableRef → Except QueryFault Scope
  | [] => .ok s
  | r :: rs => do
    let s ← s.add r
    s.addAll rs

/-- The scope of the tables of a statement; there has to be one at least. -/
def ofSources (sources : List TableRef) : Except QueryFault Scope := do
  let s ← ({} : Scope).addAll sources
  if s.tables.isEmpty then throw .noTables
  return s

/-- The name that qualifies a column: the last one of its qualifiers, if it is not empty. -/
def qualifier? (qualifiers : List Identifier) : Option String :=
  qualifiers.getLast?.bind fun i => if i.text = "" then none else some i.text

/-- The attribute that a column means. -/
def attributeOf [Reader] (s : Scope) (qualifiers : List Identifier) (name : Identifier) :
    Except QueryFault Attribute :=
  match qualifier? qualifiers with
  | some q =>
    match s.names.get? q with
    | some table => .ok { table := some table, name := name.text }
    | none => .error (.unknownTable q (Reader.render (.column qualifiers name)))
  | none =>
    match s.tables with
    | [table] => .ok { table := some table, name := name.text }
    | _ => .ok { table := none, name := name.text }

end Scope

end QueryPlan.Sql
