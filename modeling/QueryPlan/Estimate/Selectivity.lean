import QueryPlan.Failure

/-!
# Cardinalities of selections and joins

Values are taken to be distributed evenly and columns to be independent. A selection on equality
keeps one in `d` tuples, where `d` is the number of distinct values of the column, one on
inequality keeps the others, and any other comparison keeps half. A join keeps, for every condition,
one in so many pairs as the larger of both distinct counts.

Quotients and products are doubles, rounded once for every operation, and the result is rounded up.
-/

namespace QueryPlan

/-- The double nearest to an integer, failing if there is no finite one. -/
def toReal (n : Int) : Except Failure Binary64 :=
  (Binary64.ofInt? n).elim (.error .overflow) .ok

/-- The double nearest to a quotient of integers, failing if there is no finite one. -/
def quotientReal (a b : Int) : Except Failure Binary64 :=
  if b = 0 then .error .divisionByZero
  else (Binary64.ofQuotient? a b).elim (.error .overflow) .ok

/-- The least integer not below a double. -/
def ceilReal (x : Binary64) : Except Failure Int :=
  match x.ceil with
  | .ok n => .ok n
  | .error .infinite => .error .overflow
  | .error .notNumber => .error .notANumber

/-- The tuples that a selection keeps of `tuples`, when the column has `distinct` values. -/
def selectedTuples (comparator : Comparator) (tuples distinct : Int) : Except Failure Int :=
  if distinct = 0 then .ok 0
  else
    match comparator with
    | .equal => do
      ceilReal (← quotientReal tuples distinct)
    | .notEqual => do
      let share ← quotientReal tuples distinct
      let all ← toReal tuples
      ceilReal (all.sub share)
    | _ => do
      let all ← toReal tuples
      ceilReal (Binary64.half.mul all)

/-- The number of pairs of two inputs, as a double that may be infinite. -/
def crossProduct (left right : Int) : Except Failure Binary64 := do
  let l ← toReal left
  let r ← toReal right
  return l.mul r

/-- The pairs that one more condition keeps, when the two columns have the given distinct
counts. -/
def matchingPairs (pairs : Binary64) (left right : Int) : Except Failure Binary64 :=
  let largest := max left right
  if largest = 0 then .ok Binary64.zero
  else do
    let divisor ← toReal largest
    return pairs.div divisor

end QueryPlan
