import QueryPlan.Sql.Reader.Parser
import QueryPlan.Sql.Reader.Rendering

/-!
# Reading expressions

Operators group to the left and bind in this order, the loosest first: `or`; `and`; equality; order;
`in`, `like`, `between` and `is`; `||`; sums; products; signs. A `not` takes all that binds tighter
than `and`. A sign `+` is left out.

Every level is a function of the parser of the level below, and the parsers of operands are tied
together in `signed` and `expression`, whose first argument bounds how deep expressions are nested.
Every nesting takes a token, so `Expr.parse` bounds the depth by the number of tokens.

## Main definitions

* `Expr.parse` : an expression, if one stands there.
* `Expr.parseItem` : an expression that may be named.
* `Expr.parseTerm` : a sum.
-/

namespace QueryPlan.Sql.Expr

open QueryPlan.Sql.Parser

/-- The operator of a logical connective. -/
def connective? (k : String) (combine : Expr → Expr → Expr) (t : Token) :
    Option (Expr → Expr → Expr) :=
  if t.isKeyword k then some combine else none

/-- The comparison of an equality sign. -/
def equality? : Token → Option (Expr → Expr → Expr)
  | .symbol "=" | .symbol "==" => some (.compare .equal)
  | .symbol "!=" | .symbol "<>" => some (.compare .notEqual)
  | _ => none

/-- The comparison of an order sign. -/
def order? : Token → Option (Expr → Expr → Expr)
  | .symbol "<" => some (.compare .less)
  | .symbol "<=" => some (.compare .lessEqual)
  | .symbol ">" => some (.compare .greater)
  | .symbol ">=" => some (.compare .greaterEqual)
  | _ => none

/-- The operation of one of the given symbols. -/
def arithmetic? (symbols : List String) : Token → Option (Expr → Expr → Expr)
  | .symbol s => if symbols.contains s then some (.arithmetic s) else none
  | _ => none

/-- Sums. -/
def sums (signed : Parser (Option Expr)) : Parser (Option Expr) :=
  chain (arithmetic? ["+", "-"]) (chain (arithmetic? ["*", "/", "%"]) signed)

/-- Sums joined end to end. -/
def concatenations (signed : Parser (Option Expr)) : Parser (Option Expr) :=
  chain (arithmetic? ["||"]) (sums signed)

/-- The items of a list of values in parentheses, after its opening. -/
def valueList (expression : Parser (Option Expr)) : Parser (List Expr) := do
  let items ← commaSeparated expression
  symbol ")"
  return items.reduceOption

/-- The predicate on a value that a keyword begins, if one stands there. -/
def predicate? (expression operand : Parser (Option Expr)) (e : Option Expr) :
    Parser (Option Expr) := do
  if ← keyword? "IN" then
    match e with
    | none => failure
    | some e =>
      symbol "("
      return some (.among e (← valueList expression))
  else if ← keyword? "LIKE" then
    match e with
    | none => failure
    | some e => return some (.like e (← required operand))
  else if ← keyword? "BETWEEN" then
    match e with
    | none => failure
    | some e =>
      let low ← required operand
      let _ ← keyword? "AND"
      return some (.between e low (← required operand))
  else return none

/-- The negation of an expression, if there is one. -/
def negated (e : Option Expr) : Option Expr := e.map .not

/-- What is said of a value by `is`, if it stands there. -/
def isPredicate (operand : Parser (Option Expr)) (e : Option Expr) : Parser (Option Expr) := do
  if ← keyword? "IS" then
    match e with
    | none => failure
    | some e =>
      let opposite ← keyword? "NOT"
      let statement := Expr.equals e (← required operand)
      return some (if opposite then .not statement else statement)
  else return e

/-- Values and predicates on values. -/
def predicates (expression operand : Parser (Option Expr)) : Parser (Option Expr) := do
  let e ← operand
  let opposite ← keyword? "NOT"
  let judged ←
    match ← predicate? expression operand e with
    | some e => pure (some e)
    | none =>
      if ← (if opposite then keyword? "NULL" else keyword? "ISNULL") then
        pure (e.map (.equals · .null))
      else pure e
  let judged ←
    if ← keyword? "NOTNULL" then pure (negated (judged.map (.equals · .null))) else pure judged
  isPredicate operand (if opposite then negated judged else judged)

/-- Comparisons. -/
def comparisons (expression signed : Parser (Option Expr)) : Parser (Option Expr) :=
  chain equality? (chain order? (predicates expression (concatenations signed)))

/-- Conditions. -/
def conditions (expression signed : Parser (Option Expr)) : Parser (Option Expr) :=
  chain (connective? "OR" .disj) (chain (connective? "AND" .conj) (comparisons expression signed))

/-- The parts of a path after those already read, the last one first, and whether it ends in a
star. -/
def pathFrom (read : List Identifier) : Parser (List Identifier × Bool)
  | .symbol "." :: .symbol "*" :: ts => some ((read.reverse, true), ts)
  | .symbol "." :: t :: ts =>
    match t.part? with
    | some i => pathFrom (i :: read) ts
    | none => none
  | [.symbol "."] => none
  | ts => some ((read.reverse, false), ts)

/-- The most qualifiers that a column may have. -/
def maxQualifiers : Nat := 3

/-- The expression that a path is; it may stand for the whole of a table. -/
def ofPath (parts : List Identifier) (whole : Bool) : Expr :=
  let all := if whole then parts ++ [⟨"*", false⟩] else parts
  match all.getLast? with
  | none => .path []
  | some name =>
    let qualifiers := all.dropLast
    if maxQualifiers < qualifiers.length then .path all
    else if whole then .tableStar qualifiers
    else .column qualifiers name

/-- The name of a function as it is shown: in capitals, unless it is in quotes. -/
def functionName (parts : List Identifier) : String :=
  let capital (i : Identifier) : Identifier :=
    if i.quoted then i else ⟨Text.capitals i.text, false⟩
  renderPath (parts.dropLast ++ (parts.getLast?.map capital).toList)

/-- The arguments of a function after the opening parenthesis. -/
def arguments (expression : Parser (Option Expr)) : Parser (List Expr) := do
  if ← keyword? "DISTINCT" then return [.distinct (← valueList expression)]
  else valueList expression

/-- A path or a function call that begins with a name. -/
def named? (expression : Parser (Option Expr)) : Parser (Option Expr) := do
  match ← take? Token.name? with
  | none => return none
  | some i =>
    let (parts, whole) ← pathFrom [i]
    if whole then return some (ofPath parts true)
    else if ← symbol? "(" then
      return some (.call (functionName parts) (← arguments expression))
    else return some (ofPath parts false)

/-- The items of a list in parentheses, after its opening: a single one without a comma after it is
an expression in parentheses; all else is a tuple. -/
def parenthesised (item : Parser (Option Expr)) : Parser Expr := do
  let items ← commaSeparated item
  symbol ")"
  match items.reduceOption with
  | [] => return .tuple []
  | [e] => return if items.getLast?.any Option.isNone then .tuple [e] else .paren e
  | es => return .tuple es

/-- Texts in a row are joined end to end. -/
def textsFrom (read : List String) : Parser Expr
  | .text s :: ts => textsFrom (s :: read) ts
  | ts =>
    match read with
    | [s] => some (.text s, ts)
    | read => some (.call "CONCAT" (read.reverse.map .text), ts)

/-- The literal that a token is. -/
def literal? : Token → Option Expr
  | .number n => some (.number n)
  | .symbol "*" => some .star
  | t =>
    if t.isKeyword "NULL" then some .null
    else if t.isKeyword "TRUE" then some (.bool true)
    else if t.isKeyword "FALSE" then some (.bool false)
    else none

/-- Operands without operators. -/
def operands (expression item : Parser (Option Expr)) : Parser (Option Expr)
  | .text s :: ts => (textsFrom [s] ts).map fun (e, ts) => (some e, ts)
  | .symbol "." :: .number n :: ts => some (some (.number ("0." ++ n)), ts)
  | .symbol "(" :: ts => (parenthesised item ts).map fun (e, ts) => (some e, ts)
  | ts =>
    (do
      match ← take? literal? with
      | some e => return some e
      | none => named? expression : Parser (Option Expr)) ts

/-- The clause that bounds the number of rows, after its keyword. -/
def bound (sum : Parser (Option Expr)) : Parser Unit := do
  let _ ← required sum
  if ← symbol? "," then
    let _ ← required sum

/-- A clause that bounds the number of rows, if its keyword stands there. -/
def bound? (sum : Parser (Option Expr)) : Parser Bool := do
  if ← anyKeyword? ["LIMIT", "OFFSET"] then
    bound sum
    return true
  else return false

/-- Whether a clause that bounds the number of rows stands here. Its keyword is a name where the
clause cannot be read. -/
def boundFollows (sum : Parser (Option Expr)) : Parser Bool :=
  wouldSucceed (do if !(← bound? sum) then failure)

/-- The name given to what stands before it, if there is one: any word after `as`, or else one of
the given names. -/
def label (sum : Parser (Option Expr)) (name? : Token → Option Identifier) :
    Parser (Option Identifier) := do
  if ← boundFollows sum then return none
  else if ← keyword? "AS" then take? Token.label?
  else take? name?

/-- An expression that may be named. -/
def item (expression sum : Parser (Option Expr)) : Parser (Option Expr) := do
  let e ← expression
  match ← label sum Token.name? with
  | none => return e
  | some i =>
    match e with
    | some e => return some (.named e i)
    | none => failure

/-- Whether a token negates what follows it. -/
def isNegation (t : Token) : Bool := t.isKeyword "NOT" || t.isTheSymbol "!"

mutual

/-- Operands with signs, nested at most `depth` deep. -/
def signed : (depth : Nat) → Parser (Option Expr)
  | 0 => failure
  | depth + 1 => do
    if ← symbol? "-" then return some (.negate (← required (signed depth)))
    else if ← symbol? "+" then signed depth
    else if ← accept isNegation then
      return some (.not (← required (comparisons (expression depth) (signed depth))))
    else operands (expression depth) (item (expression depth) (sums (signed depth)))

/-- Expressions nested at most `depth` deep. -/
def expression : (depth : Nat) → Parser (Option Expr)
  | 0 => failure
  | depth + 1 => conditions (expression depth) (signed depth)

end

/-- A depth that no expression in a list of tokens exceeds. -/
def depthBound (ts : List Token) : Nat := 2 * ts.length + 2

/-- An expression, if one stands there. -/
def parse : Parser (Option Expr) := do
  expression (depthBound (← get))

/-- A sum, if one stands there. -/
def parseTerm : Parser (Option Expr) := do
  sums (signed (depthBound (← get)))

/-- An expression that may be named, if one stands there. -/
def parseItem : Parser (Option Expr) := item parse parseTerm

end QueryPlan.Sql.Expr
