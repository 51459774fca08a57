/-!
# Join algorithms

The algorithms a join may be carried out with, and their codes. A plan stores a code, which may be
one that no algorithm has.
-/

namespace QueryPlan

/-- How a join is carried out. -/
inductive JoinAlgorithm
  | nestedLoop
  | blockNested
  | sortMerge
  deriving Repr, DecidableEq, Inhabited

namespace JoinAlgorithm

/-- The code of an algorithm. -/
def code : JoinAlgorithm → Int
  | nestedLoop => 0
  | blockNested => 1
  | sortMerge => 2

/-- The name of an algorithm. -/
def name : JoinAlgorithm → String
  | nestedLoop => "NESTED_LOOP"
  | blockNested => "BLOCK_NESTED"
  | sortMerge => "SORT_MERGE"

/-- All algorithms, in the order of their codes. -/
def all : List JoinAlgorithm := [nestedLoop, blockNested, sortMerge]

/-- The algorithm with a given code. -/
def ofCode? (c : Int) : Option JoinAlgorithm := all.find? (·.code = c)

/-- The name that a code is shown by. -/
def nameOfCode (c : Int) : String :=
  match ofCode? c with
  | some a => a.name
  | none => "UNKNOWN(" ++ toString c ++ ")"

@[simp] theorem ofCode?_code (a : JoinAlgorithm) : ofCode? a.code = some a := by
  cases a <;> rfl

end JoinAlgorithm

end QueryPlan
