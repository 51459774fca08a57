import QueryPlan.Number.Numeral
import QueryPlan.Predicate.Condition
import QueryPlan.Sql.Scope

/-!
# From statements to queries

A statement that selects rows becomes a `Query`: its columns are attributed to tables, and its
conditions, which are a conjunction of comparisons with a column on the left, are sorted by what
they are used for. A comparison with its column on the right is turned round.

Faults are reported in this order: of the tables, of the conditions, of the order, of the groups,
and of the items.

## Main definitions

* `Select.resolve` : the query of a statement.
* `Query.ofText` : the query that a text is.
-/

namespace QueryPlan.Sql

namespace Expr

/-- The number that a numeral writes: an integer if it can be read as one, and else a double. -/
def numeral (digits : String) : Except QueryFault Operand :=
  match readInteger? digits with
  | some n => .ok (.integer n)
  | none =>
    match readReal? digits with
    | some x => .ok (.real x)
    | none => .error (.badNumber digits)

/-- The value of a literal with any number of signs before it. -/
def literalValue [Reader] : Expr → Except QueryFault Operand
  | negate e => do
    match ← e.literalValue with
    | .integer n => return .integer (-n)
    | .real x => return .real x.negate
    | .text _ | .column _ => throw (.negatedText (Reader.render (negate e)))
  | number digits => numeral digits
  | text s => .ok (.text s)
  | e => .error (.unsupportedOperand (Reader.render e))

end Expr

namespace Scope

/-- The attribute that an expression means, if it is a column. -/
def column? [Reader] (s : Scope) (e : Expr) : Option (Except QueryFault Attribute) :=
  e.column?.map fun (qualifiers, name) => s.attributeOf qualifiers name

/-- The operand that an expression means. -/
def operand [Reader] (s : Scope) (e : Expr) : Except QueryFault Operand :=
  match s.column? e with
  | some a => a.map .column
  | none => e.literalValue

/-- The condition that a comparison means. -/
def comparison [Reader] (s : Scope) (c : Comparator) (left right : Expr) :
    Except QueryFault Condition := do
  match s.column? left, s.column? right with
  | some lhs, _ => return { lhs := ← lhs, rhs := ← s.operand right, comparator := c }
  | none, some lhs =>
    return { lhs := ← lhs, rhs := ← s.operand left, comparator := c.converse }
  | none, none => throw (.noColumnCompared (Reader.render (.compare c left right)))

/-- The condition that an expression means. -/
def condition [Reader] (s : Scope) : Expr → Except QueryFault Condition
  | .compare c left right => s.comparison c left right
  | e => .error (.unsupportedPredicate (Reader.render e))

/-- The attribute that an item means, whatever name it is given. -/
def item [Reader] (s : Scope) (e : Expr) : Except QueryFault Attribute :=
  (s.column? e.unnamed).getD (.error (.notAColumn (Reader.render e.unnamed)))

end Scope

/-- The query of a statement that selects rows. -/
def Select.resolve [Reader] (s : Select) : Except QueryFault Query := do
  let scope ← Scope.ofSources s.tables
  let conditions ← s.predicates.mapM scope.condition
  let (selections, joins) := Condition.classify conditions
  let orderBy ← s.orderBy.mapM fun term => scope.item term.expr
  let groupBy ← s.groupBy.mapM scope.item
  let projection ← if s.selectsAll then .ok [] else s.items.mapM scope.item
  return {
    tables := scope.tables, selections := selections, joins := joins, groupBy := groupBy,
    orderBy := orderBy, projection := projection, distinct := s.distinct,
    ascending := s.orderBy.isEmpty || s.orderBy.any (!·.descending) }

/-- The query that a statement asks. -/
def Statement.resolve [Reader] : Statement → Except QueryFault Query
  | select s => s.resolve
  | other kind => .error (.notSelect kind)

end QueryPlan.Sql

namespace QueryPlan

/-- The query that a text is in a dialect. -/
def Query.ofText [Sql.Reader] (dialect text : String) : Except QueryFault Query :=
  match Sql.Reader.read? dialect text with
  | none => .error .unparsable
  | some statement => statement.resolve

end QueryPlan
