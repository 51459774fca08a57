import QueryPlan.Catalog.Basic
import QueryPlan.Catalog.Settings
import QueryPlan.Event
import QueryPlan.Plan.Rendering
import QueryPlan.Estimate.Paging
import QueryPlan.Estimate.Selectivity

/-!
# Estimating a plan

A pass over a plan goes from the leaves to the root. It adds up the page reads and writes of the
operators and computes how many tuples each of them puts out. The number of distinct values of every
column is kept in one map for the whole pass: a scan sets the counts of its table, a selection sets
the counts of all columns of its input to the number of tuples that it keeps, and a join sets both
columns of a condition to the smaller of their counts.

A plan is infeasible if it has an operator or an algorithm that is not known, or if an operation has
fewer buffers than it needs. From then on the pass computes no further cardinalities, but it still
visits what is left of the plan.

The state of a pass is kept when it fails. An estimator remembers the outcome of its last pass; one
that fails leaves the number of tuples of the pass before it, together with its own mark of
feasibility and its own distinct counts.

## Main definitions

* `PassState`, `PassM` : the state of a pass, and steps that change it and may fail.
* `Plan.evaluate` : the pass over a plan; its result is the number of tuples of the root.
* `Plan.estimate` : a pass from the initial state, and the estimate that it ends in.
* `Estimator.run` : a pass, and what is remembered of it.
-/

namespace QueryPlan

/-- The state of a pass: the cost so far, whether the plan is feasible as far as it was visited, the
distinct counts of the columns, and the events recorded. -/
structure PassState where
  cost : Int := 0
  feasible : Bool := true
  distinct : OrderedMap AttributeKey Int := {}
  events : List Event := []
  deriving Repr, Inhabited

/-- A step of a pass. -/
abbrev PassM := ExceptT Failure (StateM PassState)

namespace PassM

/-- Records an event. -/
def record (e : Event) : PassM Unit :=
  modify fun s => { s with events := s.events ++ [e] }

/-- Adds to the cost. -/
def charge (cost : Int) : PassM Unit :=
  modify fun s => { s with cost := s.cost + cost }

/-- Marks the plan as infeasible. -/
def giveUp : PassM Unit :=
  modify fun s => { s with feasible := false }

/-- Whether the plan is feasible as far as it was visited. -/
def isFeasible : PassM Bool := return (← get).feasible

/-- Sets the distinct count of a column. -/
def setDistinct (a : Attribute) (count : Int) : PassM Unit :=
  modify fun s => { s with distinct := s.distinct.insert a.key count }

/-- Sets the distinct counts of columns to those beside them. -/
def setDistincts : List (Attribute × Int) → PassM Unit
  | [] => pure ()
  | (a, count) :: counts => do
    setDistinct a count
    setDistincts counts

/-- The distinct count of a column. -/
def distinctOf (a : Attribute) : PassM Int := do
  match (← get).distinct.get? a.key with
  | some count => return count
  | none => throw (.unmeasuredAttribute a)

/-- The attribute of a schema that a reference means. -/
def resolve (s : Schema) (reference : Attribute) : PassM Attribute :=
  match s.resolve? reference with
  | some a => return a
  | none => throw (.attributeNotFound reference)

end PassM

open PassM

/-- The fewest buffers that sorting and joining by blocks need. -/
def minBuffers : Nat := 3

/-- Whether an operation has enough buffers; if not, the plan is infeasible. -/
def enoughBuffers (buffers : Nat) (operation : String) : PassM Bool := do
  if buffers < minBuffers then
    record (.insufficientBuffers operation buffers minBuffers)
    giveUp
    return false
  else return true

/-- Reads the statistics of a scanned table. -/
def evaluateScan (catalog : Catalog) (settings : Settings) (table : String) (s : Schema) :
    PassM Int := do
  let statistics ← catalog.loadStatistics table s.width
  setDistincts (s.attributes.zip (statistics.distinctCounts.map Int.ofNat))
  let pages ← pagesOf settings.pageSize statistics.tupleCount s.tupleSize
  charge pages
  return statistics.tupleCount

/-- Filters an input of `tuples` tuples with the given schema. Filtering is free of charge. -/
def evaluateSelect (s : Schema) (condition : Condition) (tuples : Int) : PassM Int := do
  if !(← isFeasible) then return 0
  let a ← resolve s condition.lhs
  let distinct ← distinctOf a
  let kept ← selectedTuples condition.comparator tuples distinct
  setDistincts (s.attributes.map fun column => (column, kept))
  return kept

/-- Applies the conditions of a join to a number of pairs. -/
def applyConditions (left right : Schema) : List Condition → Binary64 → PassM Binary64
  | [], pairs => return pairs
  | c :: conditions, pairs => do
    let l ← resolve left c.lhs
    let reference ←
      match c.rhs with
      | .column a => pure a
      | _ => throw (.literalWithoutTable c)
    let r ← resolve right reference
    let dl ← distinctOf l
    let dr ← distinctOf r
    let kept ← matchingPairs pairs dl dr
    setDistinct l (min dl dr)
    setDistinct r (min dl dr)
    applyConditions left right conditions kept

/-- The cost of joining `left` with `right` pages by an algorithm, with at least three buffers where
blocks are used. A sort-merge join is not charged. -/
def joinCharge (algorithm : JoinAlgorithm) (left right : Int) (buffers : Nat) :
    Except Failure Int :=
  match algorithm with
  | .nestedLoop => .ok (left * right)
  | .blockNested => do
    let blocks ← ceilDivChecked left ((buffers : Int) - 2)
    return left + blocks * right
  | .sortMerge => .ok 0

/-- Charges a join with the given code of `left` with `right` pages, and returns `tuples`, the
number of tuples it puts out. -/
def chargeJoin (settings : Settings) (code : Int) (left right tuples : Int) : PassM Int := do
  let buffers := settings.buffersPerJoin
  match JoinAlgorithm.ofCode? code with
  | none =>
    record (.unsupportedAlgorithm code)
    giveUp
    return 0
  | some .nestedLoop =>
    charge (← joinCharge .nestedLoop left right buffers)
    return tuples
  | some .blockNested =>
    if !(← enoughBuffers buffers "block-nested-loop join") then return 0
    charge (← joinCharge .blockNested left right buffers)
    return tuples
  | some .sortMerge =>
    if !(← enoughBuffers buffers "sort-merge join") then return 0
    let sortLeft ← sortMergeSortCost left buffers
    let sortRight ← sortMergeSortCost right buffers
    record (.notCharged (sortLeft + sortRight) (left + right))
    charge (← joinCharge .sortMerge left right buffers)
    return tuples

/-- Joins inputs of `leftTuples` and `rightTuples` tuples with the given schemas. -/
def evaluateJoin (settings : Settings) (left right : Schema) (conditions : List Condition)
    (code : Int) (leftTuples rightTuples : Int) : PassM Int := do
  if !(← isFeasible) then return 0
  let leftPages ← pagesOf settings.pageSize leftTuples left.tupleSize
  let rightPages ← pagesOf settings.pageSize rightTuples right.tupleSize
  let pairs ← crossProduct leftTuples rightTuples
  let kept ← applyConditions left right conditions pairs
  let tuples ← ceilReal kept
  chargeJoin settings code leftPages rightPages tuples

/-- Sorts an input of `tuples` tuples of a given size. -/
def evaluateSorting (settings : Settings) (operator : String) (tupleSize tuples : Int) :
    PassM Int := do
  if !(← isFeasible) then return 0
  if !(← enoughBuffers settings.numBuffers (operator ++ " sort")) then return tuples
  let pages ← pagesOf settings.pageSize tuples tupleSize
  charge (← externalSortCost pages settings.numBuffers)
  return tuples

/-- Records what an operator was estimated to put out. -/
def recordEstimate (operator : String) (tuples : Int) : PassM Int := do
  record (.estimated operator tuples (← get).cost)
  return tuples

/-- Marks a plan with an operator that is not known. -/
def evaluateForeign (name : String) : PassM Int := do
  record (.unsupportedOperator name)
  giveUp
  return 0

/-- The pass over a plan. What lies below an operator that is not known is not visited. -/
def Plan.evaluate (catalog : Catalog) (settings : Settings) : Plan → PassM Int
  | p@(.scan table s) => do
    recordEstimate p.operatorName (← evaluateScan catalog settings table s)
  | p@(.select base condition) => do
    let tuples ← base.evaluate catalog settings
    recordEstimate p.operatorName (← evaluateSelect base.schema condition tuples)
  | p@(.project base _) => do
    recordEstimate p.operatorName (← base.evaluate catalog settings)
  | p@(.join left right conditions code _) => do
    let leftTuples ← left.evaluate catalog settings
    let rightTuples ← right.evaluate catalog settings
    recordEstimate p.operatorName
      (← evaluateJoin settings left.schema right.schema conditions code leftTuples rightTuples)
  | p@(.sorting base _ _) => do
    let tuples ← base.evaluate catalog settings
    recordEstimate p.operatorName
      (← evaluateSorting settings p.operatorName p.schema.tupleSize tuples)
  | .foreign _ name _ => evaluateForeign name
  | .foreignLeaf name _ => evaluateForeign name

/-- The cost that stands for a plan that cannot be carried out. -/
def maxCost : Int := 9223372036854775807

/-- The outcome of a pass: the cost of the plan, the number of tuples that it puts out, and whether
it can be carried out. -/
structure Estimate where
  cost : Int
  cardinality : Int
  feasible : Bool
  deriving Repr, DecidableEq, Inhabited

/-- The estimate at the end of a pass. -/
def estimateOf (tuples : Int) (s : PassState) : Estimate :=
  if s.feasible then ⟨s.cost, tuples, true⟩ else ⟨maxCost, tuples, false⟩

/-- A pass over a plan from the initial state: the number of tuples of the root or a failure, and
the state at its end. -/
def Plan.pass (catalog : Catalog) (settings : Settings) (p : Plan) :
    Except Failure Int × PassState :=
  (p.evaluate catalog settings).run.run {}

/-- The estimate of a plan. -/
def Plan.estimate (catalog : Catalog) (settings : Settings) (p : Plan) : Except Failure Estimate :=
  let (result, s) := p.pass catalog settings
  result.map fun tuples => estimateOf tuples s

/-- The cost as it is shown. -/
def costText (cost : Int) : String := if cost = maxCost then "infeasible" else toString cost

/-! ### Estimators -/

/-- What is remembered of the last pass. -/
structure Estimator where
  lastCardinality : Int := 0
  feasible : Bool := true
  distinct : OrderedMap AttributeKey Int := {}
  deriving Repr, Inhabited

namespace Estimator

/-- Estimates a plan: the estimate or a failure, the estimator afterwards, and the events
recorded. -/
def run (catalog : Catalog) (settings : Settings) (e : Estimator) (p : Plan) :
    Except Failure Estimate × Estimator × List Event :=
  match p.pass catalog settings with
  | (.error f, s) => (.error f, ⟨e.lastCardinality, s.feasible, s.distinct⟩, s.events)
  | (.ok tuples, s) =>
    let events := if s.feasible then s.events else s.events ++ [.infeasible]
    (.ok (estimateOf tuples s), ⟨tuples, s.feasible, s.distinct⟩, events)

/-- An estimator gives the estimate of the plan, whatever it has estimated before. -/
theorem run_fst (catalog : Catalog) (settings : Settings) (e : Estimator) (p : Plan) :
    (e.run catalog settings p).1 = p.estimate catalog settings := by
  unfold run Plan.estimate
  cases h : p.pass catalog settings with
  | mk result s => cases result <;> rfl

end Estimator

end QueryPlan
