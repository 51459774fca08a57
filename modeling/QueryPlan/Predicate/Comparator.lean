/-!
# Comparators

The six comparators and their converses: `x < y` says the same as `y > x`.
-/

namespace QueryPlan

/-- How two values are compared. -/
inductive Comparator
  | equal
  | notEqual
  | less
  | lessEqual
  | greater
  | greaterEqual
  deriving Repr, DecidableEq, Inhabited

namespace Comparator

/-- The comparator that holds after both sides are swapped. -/
def converse : Comparator → Comparator
  | less => greater
  | greater => less
  | lessEqual => greaterEqual
  | greaterEqual => lessEqual
  | c => c

/-- The sign of a comparator. -/
def symbol : Comparator → String
  | equal => "="
  | notEqual => "!="
  | less => "<"
  | lessEqual => "<="
  | greater => ">"
  | greaterEqual => ">="

/-- All comparators. -/
def all : List Comparator := [equal, notEqual, less, lessEqual, greater, greaterEqual]

/-- The comparator with the given sign. -/
def ofSymbol? (s : String) : Option Comparator := all.find? (·.symbol = s)

@[simp] theorem converse_converse (c : Comparator) : c.converse.converse = c := by
  cases c <;> rfl

end Comparator

end QueryPlan
