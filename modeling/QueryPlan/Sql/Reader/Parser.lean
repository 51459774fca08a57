import QueryPlan.Sql.Expr
import QueryPlan.Sql.Reader.Token

/-!
# Parsers over tokens

A parser takes a value off the front of a list of tokens, or fails. Most of them may also find that
nothing of their kind stands there; they then yield no value and take no token.

## Main definitions

* `Parser.take?`, `Parser.symbol?`, `Parser.keyword?` : the next token, if it is the right one.
* `Parser.chain` : operands of one kind between operators that group to the left.
* `Parser.commaSeparated` : items between commas.
-/

namespace QueryPlan.Sql

/-- Takes a value off the front of a list of tokens, or fails. -/
abbrev Parser (α : Type) := StateT (List Token) Option α

namespace Token

/-- Whether a token is the given symbol. -/
def isTheSymbol (s : String) : Token → Bool
  | symbol t => t = s
  | _ => false

/-- Whether a token is the given keyword, in any case. -/
def isKeyword (k : String) : Token → Bool
  | word w => Text.capitals w = k
  | _ => false

/-- The keywords that cannot be names. -/
def reserved : List String :=
  ["ALTER", "AND", "AS", "BETWEEN", "CREATE", "CROSS", "DISTINCT", "DROP", "ELSE", "EXCEPT",
    "FETCH", "FOR", "FROM", "GLOB", "GRANT", "GROUP BY", "HAVING", "ILIKE", "IN", "INNER",
    "INSERT", "INTERSECT", "INTO", "JOIN", "LATERAL", "LIKE", "NOT", "NOTNULL", "NULL", "ON", "OR",
    "ORDER BY", "OUTER", "QUALIFY", "RLIKE", "SELECT", "STRAIGHT_JOIN", "TABLESAMPLE", "THEN",
    "UNION", "USING", "VALUES", "WHEN", "WHERE", "WITH", "XOR"]

/-- The name that a token is where any word may stand. -/
def part? : Token → Option Identifier
  | word w => some ⟨w, false⟩
  | quoted s => some ⟨s, true⟩
  | _ => none

/-- The name that a token is; a reserved keyword is none. -/
def name? : Token → Option Identifier
  | word w => if reserved.contains (Text.capitals w) then none else some ⟨w, false⟩
  | quoted s => some ⟨s, true⟩
  | _ => none

/-- The name that a token is after the keyword `as`: anything but a symbol of one character and the
keyword `select`. -/
def label? : Token → Option Identifier
  | word w => if Text.capitals w = "SELECT" then none else some ⟨w, false⟩
  | quoted s | text s => some ⟨s, true⟩
  | number n => some ⟨n, false⟩
  | symbol s => if longSymbols.contains s then some ⟨s, false⟩ else none
  | comment => none

end Token

namespace Parser

variable {α : Type}

/-- Takes the next token if it has a value. -/
def take? (value : Token → Option α) : Parser (Option α)
  | [] => some (none, [])
  | t :: ts =>
    match value t with
    | some a => some (some a, ts)
    | none => some (none, t :: ts)

/-- Takes the next token if it satisfies a condition. -/
def accept (condition : Token → Bool) : Parser Bool
  | [] => some (false, [])
  | t :: ts => if condition t then some (true, ts) else some (false, t :: ts)

/-- Takes the next token if it is the given symbol. -/
def symbol? (s : String) : Parser Bool := accept (Token.isTheSymbol s)

/-- Takes the next token if it is the given keyword. -/
def keyword? (k : String) : Parser Bool := accept (Token.isKeyword k)

/-- Takes the next token if it is one of the given keywords. -/
def anyKeyword? (ks : List String) : Parser Bool := accept fun t => ks.any t.isKeyword

/-- Takes the given symbol. -/
def symbol (s : String) : Parser Unit := do
  if !(← symbol? s) then failure

/-- The value of a parser that has to find one. -/
def required (p : Parser (Option α)) : Parser α := do
  match ← p with
  | some a => return a
  | none => failure

/-- Whether a parser succeeds here; no token is taken. -/
def wouldSucceed (p : Parser α) : Parser Bool := fun ts => some ((p ts).isSome, ts)

/-- Takes operators with their right operands, at most `fuel` of them. -/
def chainFrom (operator? : Token → Option (α → α → α)) (operand : Parser (Option α)) :
    (fuel : Nat) → Option α → Parser (Option α)
  | 0, left => return left
  | fuel + 1, left => do
    match ← take? operator? with
    | none => return left
    | some combine =>
      match left, ← operand with
      | some l, some r => chainFrom operator? operand fuel (some (combine l r))
      | _, _ => failure

/-- Operands between operators that group to the left. -/
def chain (operator? : Token → Option (α → α → α)) (operand : Parser (Option α)) :
    Parser (Option α) := do
  let left ← operand
  chainFrom operator? operand (← get).length left

/-- Items between commas after those already read, the last one first; at most `fuel` of them. -/
def itemsFrom (item : Parser (Option α)) :
    (fuel : Nat) → List (Option α) → Parser (List (Option α))
  | 0, read => return read.reverse
  | fuel + 1, read => do
    let read := (← item) :: read
    if ← symbol? "," then itemsFrom item fuel read else return read.reverse

/-- Items between commas, some of which may be left out. -/
def commaSeparated (item : Parser (Option α)) : Parser (List (Option α)) := do
  itemsFrom item ((← get).length + 1) []

/-- Values until there is no more, at most `fuel` of them. -/
def manyFrom (p : Parser (Option α)) : (fuel : Nat) → Parser (List α)
  | 0 => return []
  | fuel + 1 => do
    match ← p with
    | none => return []
    | some a => return a :: (← manyFrom p fuel)

/-- Values until there is no more. -/
def many (p : Parser (Option α)) : Parser (List α) := do
  manyFrom p ((← get).length + 1)

end Parser

end QueryPlan.Sql
