import QueryPlan.Sql.Reader.Select

/-!
# Reading statements

A text is one statement, or several between semicolons. Only statements that select rows are read in
full; of the others it is said what kind they are. The standard reader knows a part of the language:
a text outside it is refused, although other readers may take it. What is proved of queries is
proved for all readers.

## Main definitions

* `Statement.read?` : the statement that a text is.
* `standardReader` : the reader of the standard dialect.
-/

namespace QueryPlan.Sql

namespace Statement

open QueryPlan.Sql.Parser

/-- A query before it is known what follows it: a statement that selects rows with its joined tables
and clauses so far, or another one by its kind. -/
inductive Draft
  | select (s : Select) (joined : List Select.JoinedTable) (clauses : List Select.Clause)
  | other (kind : String)
  deriving Repr

/-- The finished statement; a clause that stands in it twice makes it unreadable. -/
def Draft.finish : Draft → Option Statement
  | select s joined clauses => (s.withTail joined clauses).map .select
  | other kind => some (.other kind)

/-- The query with the tables and clauses that follow it. -/
def Draft.extend (joined : List Select.JoinedTable) (clauses : List Select.Clause) : Draft → Draft
  | select s joined₀ clauses₀ => select s (joined₀ ++ joined) (clauses₀ ++ clauses)
  | other kind => other kind

/-- The kind of query that a keyword combines two queries into. -/
def combination? (t : Token) : Option String :=
  if t.isKeyword "UNION" then some "Union"
  else if t.isKeyword "EXCEPT" then some "Except"
  else if t.isKeyword "INTERSECT" then some "Intersect"
  else none

/-- A query is followed by others that it is combined with, at most `fuel` of them; the last
combination says what kind they are together. -/
def combineFrom (operand : Parser (Option Draft)) : (fuel : Nat) → Draft → Parser Draft
  | 0, d => return d
  | fuel + 1, d => do
    match ← take? combination? with
    | none => return d
    | some kind =>
      let _ ← anyKeyword? ["ALL", "DISTINCT"]
      match (← required operand).finish with
      | none => failure
      | some _ => combineFrom operand fuel (.other kind)

/-- A query followed by those that it is combined with. -/
def combine (operand : Parser (Option Draft)) (d : Draft) : Parser Draft := do
  combineFrom operand (← get).length d

/-- A query that stands between parentheses, or one that selects rows, if one stands there; queries
between parentheses are nested at most `depth` deep. -/
def operand? : (depth : Nat) → Parser (Option Draft)
  | 0 => failure
  | depth + 1 => do
    if ← keyword? "SELECT" then
      let (s, joined, clauses) ← Select.parts
      return some (.select s joined clauses)
    else if ← symbol? "(" then
      match ← operand? depth with
      | none => failure
      | some inner =>
        let d ← combine (operand? depth) inner
        let (joined, clauses) ← Select.tail
        symbol ")"
        match (d.extend joined clauses).finish with
        | none => failure
        | some _ => return some (.other "Subquery")
    else return none

/-- A query, with what may follow it. -/
def query? : Parser (Option Draft) := do
  let depth := (← get).length + 1
  match ← operand? depth with
  | none => return none
  | some d =>
    let d ←
      match d with
      | .other _ =>
        match ← Expr.label Expr.parseTerm Token.name? with
        | some _ => pure (.other "Alias")
        | none => pure d
      | _ => pure d
    let d ← combine (operand? depth) d
    let (joined, clauses) ← Select.tail
    return some (d.extend joined clauses)

/-- Whether a list of tokens begins with a query between parentheses. -/
def beginsQuery : List Token → Bool
  | [] => false
  | t :: ts => t.isKeyword "SELECT" || (t.isTheSymbol "(" && beginsQuery ts)

/-- Whether parentheses are balanced, when `depth` of them are open. -/
def balanced (depth : Nat) : List Token → Bool
  | [] => depth = 0
  | t :: ts =>
    if t.isTheSymbol "(" then balanced (depth + 1) ts
    else if t.isTheSymbol ")" then depth ≠ 0 && balanced (depth - 1) ts
    else balanced depth ts

/-- The kind of statement that a first keyword makes, if it makes one that selects no rows. -/
def changeKind? (t : Token) : Option String :=
  ["Create", "Delete", "Drop", "Insert", "Update"].find? fun kind =>
    t.isKeyword (Text.capitals kind)

/-- Whether something can be changed by what follows the first keyword. -/
def hasObject (ts : List Token) : Bool :=
  let ts := if ts.head?.any (["FROM", "INTO", "TABLE"].any ·.isKeyword) then ts.drop 1 else ts
  !ts.isEmpty && balanced 0 ts

/-- What a parser finds, if it takes all tokens. -/
def complete {α : Type} (p : Parser (Option α)) (ts : List Token) : Option α :=
  match p ts with
  | some (some a, []) => some a
  | _ => none

/-- The statement that the tokens are. An expression that stands alone is no statement, but it is
known by its kind. -/
def ofTokens? (ts : List Token) : Option Statement :=
  match ts.head?.bind changeKind? with
  | some kind => if hasObject (ts.drop 1) then some (.other kind) else none
  | none =>
    if beginsQuery ts then (complete query? ts).bind Draft.finish
    else (complete Expr.parseItem ts).map fun e => .other e.kind

/-- Splits tokens at the semicolons. -/
def splitStatements : List Token → List (List Token)
  | [] => [[]]
  | t :: ts =>
    if t.isTheSymbol ";" then [] :: splitStatements ts
    else
      match splitStatements ts with
      | [] => [[t]]
      | statement :: statements => (t :: statement) :: statements

/-- Whether a comment follows the last semicolon and nothing else does. -/
def hasFinalComment (ts : List Token) : Bool :=
  let tail := ts.reverse.takeWhile (!·.isTheSymbol ";")
  tail.length < ts.length && !tail.isEmpty && tail.all (· = .comment)

/-- The statements of a text, some of them empty. One semicolon may end the last one, unless a
comment follows it. -/
def splitText (ts : List Token) : List (List Token) :=
  let words := ts.filter (· ≠ .comment)
  splitStatements
    (if words.getLast?.any (Token.isTheSymbol ";") && !hasFinalComment ts then words.dropLast
      else words)

/-- The statement that the tokens of a text are. -/
def ofText? (ts : List Token) : Option Statement :=
  match splitText ts with
  | [statement] => ofTokens? statement
  | statements =>
    if statements.all fun s => s.isEmpty || (ofTokens? s).isSome then some (.other "Block")
    else none

/-- The statement that a text is. -/
def read? (text : String) : Option Statement :=
  (tokens? text.toList).bind ofText?

end Statement

/-- The reader of the standard dialect; no other one is known to it. -/
@[reducible] def standardReader : Reader where
  read? dialect text := if dialect = Sql.dialect then Statement.read? text else none
  render := Expr.render

end QueryPlan.Sql
