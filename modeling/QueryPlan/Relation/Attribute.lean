/-!
# Attributes

An attribute is a column of a relation. It is identified by its table and its name; type and size
describe it and play no part in identity.
-/

namespace QueryPlan

/-- A column of a relation; a column without a table is unqualified. -/
structure Attribute where
  table : Option String
  name : String
  type : String := "INTEGER"
  size : Int := 4
  deriving Repr, DecidableEq, Inhabited

/-- What identifies an attribute. -/
structure AttributeKey where
  table : Option String
  name : String
  deriving Repr, DecidableEq

namespace Attribute

/-- The identity of an attribute. -/
def key (a : Attribute) : AttributeKey := ⟨a.table, a.name⟩

/-- Whether two attributes are the same column. -/
def same (a b : Attribute) : Bool := a.key = b.key

/-- The table that an attribute names; an empty table name names none. -/
def owner? (a : Attribute) : Option String :=
  match a.table with
  | some t => if t = "" then none else some t
  | none => none

/-- The attribute as it is written in a query. -/
def render (a : Attribute) : String :=
  match a.owner? with
  | some t => t ++ "." ++ a.name
  | none => a.name

/-- Attributes separated by commas. -/
def renderList (attributes : List Attribute) : String :=
  String.intercalate ", " (attributes.map render)

@[simp] theorem same_self (a : Attribute) : a.same a = true := by simp [same]

theorem same_iff (a b : Attribute) : a.same b = true ↔ a.key = b.key := by simp [same]

end Attribute

end QueryPlan
