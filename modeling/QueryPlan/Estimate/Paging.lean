import QueryPlan.Catalog.Settings
import QueryPlan.Number.Logarithm

/-!
# Pages and the cost of sorting them

How many tuples fit on a page and how many pages a number of tuples takes. Divisions round away
from the floor: `ceilDiv a b` is the least integer that is not below `a / b`.

An external merge sort with `B` buffers makes sorted runs of `B` pages and then merges `B - 1` runs
at a time until one is left. Every pass reads and writes all pages.

## Main definitions

* `pageCapacity`, `pagesOf` : the tuples on a page, and the pages of a number of tuples.
* `externalSortCost` : the cost with the number of passes counted by merging.
* `sortMergeSortCost` : the cost with the number of passes taken from a natural logarithm.
-/

namespace QueryPlan

/-! ### Pages -/

/-- The least integer that is not below the quotient of two integers; the divisor is not zero. -/
def ceilDiv (a b : Int) : Int := -Int.fdiv (-a) b

/-- `ceilDiv`, failing on a divisor of zero. -/
def ceilDivChecked (a b : Int) : Except Failure Int :=
  if b = 0 then .error .divisionByZero else .ok (ceilDiv a b)

/-- Tuples of a given size per page: at least one, however large a tuple is. -/
def pageCapacity (pageSize : Nat) (tupleSize : Int) : Except Failure Int :=
  if tupleSize = 0 then .error .divisionByZero
  else .ok (max 1 (Int.fdiv pageSize tupleSize))

/-- The pages that tuples of a given size take. -/
def pagesOf (pageSize : Nat) (tuples tupleSize : Int) : Except Failure Int := do
  let capacity ← pageCapacity pageSize tupleSize
  ceilDivChecked tuples capacity

theorem one_le_of_pageCapacity {pageSize : Nat} {tupleSize capacity : Int}
    (h : pageCapacity pageSize tupleSize = .ok capacity) : 1 ≤ capacity := by
  unfold pageCapacity at h
  split at h
  · simp at h
  · simp only [Except.ok.injEq] at h
    omega

/-! ### Sorting -/

/-- The number of runs left after one merge pass. -/
def runsAfterMerge (fanIn runs : Nat) : Nat := (runs + (fanIn - 1)) / fanIn

theorem runsAfterMerge_lt {fanIn runs : Nat} (hf : 2 ≤ fanIn) (hr : 1 < runs) :
    runsAfterMerge fanIn runs < runs := by
  unfold runsAfterMerge
  rw [Nat.div_lt_iff_lt_mul (by omega)]
  calc runs + (fanIn - 1) < runs + (runs * (fanIn - 1)) := by
        have := Nat.mul_lt_mul_of_pos_right hr (show 0 < fanIn - 1 by omega)
        omega
    _ = runs * fanIn := by
        conv => rhs; rw [show fanIn = 1 + (fanIn - 1) by omega, Nat.mul_add, Nat.mul_one]

/-- The number of merge passes until at most one run is left, merging at least two at a time. -/
def mergePasses (fanIn runs : Nat) : Nat :=
  if h : 2 ≤ fanIn ∧ 1 < runs then mergePasses fanIn (runsAfterMerge fanIn runs) + 1 else 0
  termination_by runs
  decreasing_by exact runsAfterMerge_lt h.1 h.2

/-- The number of merge passes for any number of runs and any number of runs merged at a time. A
negative number of runs merged at a time leaves no run after one pass. -/
def mergePassesChecked (fanIn runs : Int) : Except Failure Nat :=
  if runs ≤ 1 then .ok 0
  else if fanIn = 0 then .error .divisionByZero
  else if fanIn = 1 then .error .endlessMerge
  else if fanIn < 0 then .ok 1
  else .ok (mergePasses fanIn.toNat runs.toNat)

/-- The page reads and writes of an external merge sort. -/
def externalSortCost (pages buffers : Int) : Except Failure Int := do
  let runs ← ceilDivChecked pages buffers
  let merges ← mergePassesChecked (buffers - 1) runs
  return 2 * pages * (1 + merges)

/-- The least integer not below the natural logarithm of a number of runs, zero for a single
run. -/
def logPasses (runs : Int) : Int :=
  if runs ≤ 1 then 0
  else
    match (Logarithm.ofNat runs.toNat).ceil with
    | .ok n => n
    | .error _ => 0

/-- The page reads and writes for sorting one side of a sort-merge join. -/
def sortMergeSortCost (pages buffers : Int) : Except Failure Int := do
  let runs ← ceilDivChecked pages buffers
  return 2 * pages * (1 + logPasses runs)

end QueryPlan
