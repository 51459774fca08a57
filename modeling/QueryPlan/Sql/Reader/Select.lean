import QueryPlan.Sql.Reader.Expr
import QueryPlan.Sql.Statement

/-!
# Reading select statements

After the items and the tables of a statement come its clauses, in any order, each at most once. The
clauses that say which groups and how many rows are kept are read and left out. Once more tables
and clauses may follow when the statement stands for itself.

## Main definitions

* `Select.parts` : a statement that selects rows, after its keyword.
* `Select.tail` : the tables and clauses that may follow it.
-/

namespace QueryPlan.Sql.Select

open QueryPlan.Sql.Parser

/-- The name of a table: the last one of a path. -/
def tableNameFrom (name : String) : Parser String
  | .symbol "." :: t :: ts =>
    match t.name?, t with
    | some i, _ => tableNameFrom i.text ts
    | none, .text s => tableNameFrom s ts
    | none, _ => none
  | [.symbol "."] => none
  | ts => some (name, ts)

/-- The name of a table that begins with a token. -/
def tablePart? : Token → Option String
  | .text s => some s
  | t => t.name?.map (·.text)

/-- The names that begin a join, and so are no names of tables before them. -/
def joinNames : List String :=
  ["ANTI", "ARRAY", "ASOF", "FULL", "LEFT", "LOCK", "NATURAL", "RIGHT", "SEMI", "WINDOW"]

/-- The name that a table may go by without the keyword `as`. -/
def tableLabel? (t : Token) : Option Identifier :=
  match t with
  | .text s => some ⟨s, true⟩
  | t => if joinNames.any t.isKeyword then none else t.name?

/-- A table, if one stands there. -/
def tableRef? : Parser (Option TableRef) := do
  match ← take? tablePart? with
  | none => return none
  | some name =>
    let name ← tableNameFrom name
    let _ ← symbol? "*"
    let label ← Expr.label Expr.parseTerm tableLabel?
    return some ⟨name, label.map (·.text)⟩

/-- The names of columns between parentheses. -/
def columnNames : Parser Unit := do
  symbol "("
  let names ← commaSeparated (take? Token.name?)
  symbol ")"
  if names.reduceOption.isEmpty then failure

/-- A table that is joined to those before it, and the condition of the join. -/
structure JoinedTable where
  source : TableRef
  on : Option Expr := none
  deriving Repr, Inhabited

/-- The condition of a join, if there is one. A list of columns that both sides share is left
out. -/
def joinCondition : Parser (Option Expr) := do
  if ← keyword? "ON" then Expr.parse
  else if ← keyword? "USING" then
    columnNames
    return none
  else return none

/-- The words that introduce a joined table, if they stand here. -/
def joinWords : Parser Unit := do
  let _ ← anyKeyword? ["NATURAL", "ASOF", "POSITIONAL"]
  let _ ← anyKeyword? ["LEFT", "RIGHT", "FULL"]
  let _ ← anyKeyword? ["INNER", "OUTER", "CROSS", "SEMI", "ANTI"]
  if !(← keyword? "JOIN") then failure

/-- A joined table, if one stands there. After a comma the table may be left out. -/
def joinedTable? : Parser (Option JoinedTable) := do
  if ← symbol? "," then return (← tableRef?).map (⟨·, none⟩)
  else if ← wouldSucceed joinWords then
    joinWords
    let source ← required tableRef?
    return some ⟨source, ← joinCondition⟩
  else return none

/-- A clause of a statement. -/
inductive Clause
  | condition (e : Expr)
  | groupBy (terms : List Expr)
  | having (e : Expr)
  | orderBy (terms : List OrderTerm)
  | limit
  | offset
  deriving Repr

/-- A term to order by, if one stands there. -/
def orderTerm? : Parser (Option OrderTerm) := do
  match ← Expr.parse with
  | none => return none
  | some e =>
    let _ ← keyword? "ASC"
    let descending ← keyword? "DESC"
    if ← keyword? "NULLS" then
      if !(← anyKeyword? ["FIRST", "LAST"]) then failure
    return some ⟨e, descending⟩

/-- A clause, if one stands there. -/
def clause? : Parser (Option Clause) := do
  if ← keyword? "WHERE" then return some (.condition (← required Expr.parse))
  else if ← keyword? "GROUP BY" then
    return some (.groupBy (← commaSeparated Expr.parse).reduceOption)
  else if ← keyword? "HAVING" then return some (.having (← required Expr.parse))
  else if ← keyword? "ORDER BY" then
    match (← commaSeparated orderTerm?).reduceOption with
    | [] => failure
    | terms => return some (.orderBy terms)
  else if ← keyword? "LIMIT" then
    Expr.bound Expr.parseTerm
    return some .limit
  else if ← keyword? "OFFSET" then
    Expr.bound Expr.parseTerm
    return some .offset
  else return none

/-- Whether two clauses are of the same kind. -/
def Clause.alike : Clause → Clause → Bool
  | condition _, condition _ => true
  | groupBy _, groupBy _ => true
  | having _, having _ => true
  | orderBy _, orderBy _ => true
  | limit, limit => true
  | offset, offset => true
  | _, _ => false

/-- Whether no two clauses are of the same kind. -/
def allDifferent : List Clause → Bool
  | [] => true
  | c :: cs => !cs.any c.alike && allDifferent cs

/-- A statement with one more clause. -/
def withClause (s : Select) : Clause → Select
  | .condition e => { s with condition := some e }
  | .groupBy terms => { s with groupBy := terms }
  | .orderBy terms => { s with orderBy := terms }
  | .having _ | .limit | .offset => s

/-- Joined tables and clauses. -/
def tail : Parser (List JoinedTable × List Clause) := do
  let joined ← many joinedTable?
  return (joined, ← many clause?)

/-- A statement with joined tables and clauses, none of them twice. -/
def withTail (s : Select) (joined : List JoinedTable) (clauses : List Clause) : Option Select :=
  if allDifferent clauses then
    some (clauses.foldl withClause
      { s with
        tables := s.tables ++ joined.map (·.source)
        joins := s.joins ++ joined.map (·.on) })
  else none

/-- Whether only distinct rows are selected. Before a point the keywords are names. -/
def quantifier : Parser Bool := fun ts =>
  if ts.length < 2 || ts[1]?.any (Token.isTheSymbol ".") then some (false, ts)
  else
    (do
      let all ← keyword? "ALL"
      let distinct ← keyword? "DISTINCT"
      if all && distinct then failure
      return distinct : Parser Bool) ts

/-- The first table of a statement, if it has tables. -/
def firstTable : Parser (Option TableRef) := do
  if ← keyword? "FROM" then return some (← required tableRef?)
  else return none

/-- The items and the first table of a statement, after its keyword. -/
def head : Parser Select := do
  let distinct ← quantifier
  let items ← commaSeparated Expr.parseItem
  let first ← firstTable
  return { distinct := distinct, items := items.reduceOption, tables := first.toList }

/-- A statement that selects rows, after its keyword: its items and its first table, the joined
tables, and the clauses. -/
def parts : Parser (Select × List JoinedTable × List Clause) := do
  let s ← head
  return (s, ← tail)

end QueryPlan.Sql.Select
