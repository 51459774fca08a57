import QueryPlan.Sql.Expr

/-!
# How expressions are shown

The text that an expression is shown by, and the expressions of which nothing but this text and
their kind is kept.

## Main definitions

* `Expr.render` : the text of an expression.
* `Expr.kind` : what kind of expression stands at the top.
-/

namespace QueryPlan.Sql

/-- A text with one of its characters doubled. -/
def doubled (quote : Char) (s : String) : String :=
  String.ofList (s.toList.flatMap fun c => if c = quote then [c, c] else [c])

/-- A name as it is written. -/
def Identifier.render (i : Identifier) : String :=
  if i.quoted then "\"" ++ doubled '"' i.text ++ "\"" else i.text

/-- Names separated by points. -/
def renderPath (parts : List Identifier) : String :=
  String.intercalate "." (parts.map Identifier.render)

/-- The sign of a comparator in an expression. -/
def comparatorSign : Comparator → String
  | .notEqual => "<>"
  | c => c.symbol

namespace Expr

/-- The text of an expression. -/
def render : Expr → String
  | column qualifiers name => renderPath (qualifiers ++ [name])
  | tableStar qualifiers => renderPath qualifiers ++ ".*"
  | star => "*"
  | number digits => digits
  | text s => "'" ++ doubled '\'' s ++ "'"
  | negate e =>
    let inner := e.render
    if inner.toList.head? = some '-' then "- " ++ inner else "-" ++ inner
  | compare c left right => left.render ++ " " ++ comparatorSign c ++ " " ++ right.render
  | conj left right => left.render ++ " AND " ++ right.render
  | paren e => "(" ++ e.render ++ ")"
  | named e name => e.render ++ " AS " ++ name.render
  | other _ shown => shown

/-- What kind of expression stands at the top. -/
def kind : Expr → String
  | column .. | tableStar .. => "Column"
  | star => "Star"
  | number .. | text .. => "Literal"
  | negate .. => "Neg"
  | compare .equal .. => "EQ"
  | compare .notEqual .. => "NEQ"
  | compare .less .. => "LT"
  | compare .lessEqual .. => "LTE"
  | compare .greater .. => "GT"
  | compare .greaterEqual .. => "GTE"
  | conj .. => "And"
  | paren .. => "Paren"
  | named .. => "Alias"
  | other kind _ => kind

/-- The texts of expressions between commas. -/
def renderAll (items : List Expr) : String := String.intercalate ", " (items.map render)

/-! ### Expressions that are kept as texts -/

/-- A disjunction. -/
def disj (left right : Expr) : Expr := other "Or" (left.render ++ " OR " ++ right.render)

/-- A negation. -/
def not (e : Expr) : Expr := other "Not" ("NOT " ++ e.render)

/-- The value that is none. -/
def null : Expr := other "Null" "NULL"

/-- A truth value. -/
def bool (b : Bool) : Expr := other "Boolean" (if b then "TRUE" else "FALSE")

/-- The kind of an operation by its symbol. -/
def operationKind : String → String
  | "+" => "Add"
  | "-" => "Sub"
  | "*" => "Mul"
  | "/" => "Div"
  | "%" => "Mod"
  | _ => "DPipe"

/-- An operation on two values. -/
def arithmetic (symbol : String) (left right : Expr) : Expr :=
  other (operationKind symbol) (left.render ++ " " ++ symbol ++ " " ++ right.render)

/-- A comparison with a pattern. -/
def like (e pattern : Expr) : Expr := other "Like" (e.render ++ " LIKE " ++ pattern.render)

/-- A comparison with two bounds. -/
def between (e low high : Expr) : Expr :=
  other "Between" (e.render ++ " BETWEEN " ++ low.render ++ " AND " ++ high.render)

/-- A comparison with several values. -/
def among (e : Expr) (items : List Expr) : Expr :=
  other "In" (e.render ++ " IN (" ++ renderAll items ++ ")")

/-- What is said of a value by `is`. -/
def equals (e value : Expr) : Expr := other "Is" (e.render ++ " IS " ++ value.render)

/-- Several values, or one with a comma after it. -/
def tuple (items : List Expr) : Expr := other "Tuple" ("(" ++ renderAll items ++ ")")

/-- A function call. -/
def call (function : String) (arguments : List Expr) : Expr :=
  other "Anonymous" (function ++ "(" ++ renderAll arguments ++ ")")

/-- The different ones among values, as the argument of a function. -/
def distinct (items : List Expr) : Expr := other "Distinct" ("DISTINCT " ++ renderAll items)

/-- A path that is too long for a column. -/
def path (parts : List Identifier) : Expr := other "Dot" (renderPath parts)

end Expr

end QueryPlan.Sql
