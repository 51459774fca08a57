import QueryPlan.Relation.Attribute

/-!
# Schemas

A schema lists the attributes of a relation in storage order and the bytes a tuple takes. A
reference to a column is resolved against it: an unqualified one by the column name alone, any
other by identity; in both cases the first match counts. A place in a list is an integer: places
from zero on count from the beginning, and negative ones from the end, the last element being at
`-1`.
-/

namespace QueryPlan

/-- The position, counted from the beginning, of a place in a list of the given length. -/
def position? (length : Nat) (place : Int) : Option Nat :=
  if 0 ≤ place then (if place.toNat < length then some place.toNat else none)
  else if -place ≤ length then some (length - (-place).toNat)
  else none

theorem position?_lt {length : Nat} {place : Int} {n : Nat} (h : position? length place = some n) :
    n < length := by
  unfold position? at h
  grind

/-- The attributes of a relation in storage order, and the bytes per tuple. -/
structure Schema where
  attributes : List Attribute
  tupleSize : Int
  deriving Repr, DecidableEq, Inhabited

namespace Schema

/-- Whether a reference to a column means the given attribute of a schema. -/
def means (reference candidate : Attribute) : Bool :=
  match reference.table with
  | none => candidate.name = reference.name
  | some _ => candidate.same reference

/-- The number of columns. -/
def width (s : Schema) : Nat := s.attributes.length

/-- The place of the attribute that a reference means. -/
def position? (s : Schema) (reference : Attribute) : Option Nat :=
  s.attributes.findIdx? (means reference)

/-- The attribute that a reference means. -/
def resolve? (s : Schema) (reference : Attribute) : Option Attribute :=
  s.attributes.find? (means reference)

/-- Whether a reference means an attribute of the schema. -/
def contains (s : Schema) (reference : Attribute) : Bool :=
  (s.resolve? reference).isSome

/-- The attribute at a place; negative places count from the end. -/
def at? (s : Schema) (place : Int) : Option Attribute :=
  (QueryPlan.position? s.width place).bind fun n => s.attributes[n]?

/-- The schema of a join: all attributes of the left side, then those of the right side. -/
def join (s t : Schema) : Schema :=
  ⟨s.attributes ++ t.attributes, s.tupleSize + t.tupleSize⟩

/-- The sum of the sizes of attributes. -/
def totalSize (attributes : List Attribute) : Int :=
  attributes.foldr (fun a total => a.size + total) 0

/-- The schema of the given attributes; its tuples take the sum of their sizes. -/
def ofAttributes (attributes : List Attribute) : Schema :=
  ⟨attributes, totalSize attributes⟩

/-- The attributes that the references mean, in their order; the first reference that means none is
reported. -/
def resolveAll (s : Schema) : List Attribute → Except Attribute (List Attribute)
  | [] => .ok []
  | reference :: references =>
    match s.resolve? reference with
    | none => .error reference
    | some a => (s.resolveAll references).map (a :: ·)

/-- The schema restricted to the given columns, in their order; the first column that is not there
is reported. -/
def restrict (s : Schema) (columns : List Attribute) : Except Attribute Schema :=
  (s.resolveAll columns).map ofAttributes

end Schema

end QueryPlan
