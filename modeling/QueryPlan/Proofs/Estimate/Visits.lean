import Mathlib
import QueryPlan.Proofs.Estimate.Yields

/-!
# The visits of a pass

A pass visits an operator after those below it, left before right, and goes on from the state in
which the last visit ended. What it did at each operator is listed here in the order in which the
visits end. Nothing below an operator that is not known is visited, and nothing after a failure.

The output schema of an operator follows from those below it. A pass reads no more of a plan than
its operators and these schemas, so it makes sense for schemas of any origin, and is the pass over
the plan where they are those that follow.

## Main definitions

* `Outputs`, `Plan.outputs` : output schemas for the operators of a plan, and those that follow.
* `Plan.evaluateAs` : the pass over a plan with given output schemas.
* `Visit`, `Plan.visitsAs`, `Plan.visits` : what a pass does at the operators.

## Main results

* `Plan.evaluateAs_outputs`, `Plan.estimateAs_outputs` : with the schemas that follow, it is the
  pass over the plan.
* `Plan.visits_of_input`, `Plan.visits_join` : the visits of a pass that returns.
-/

namespace QueryPlan

/-- Output schemas for the operators of a plan, by the way from the root to an operator: `0` leads
to the base or the left side, `1` to the right side. -/
abbrev Outputs := List ℕ → Schema

/-- The output schemas of what lies below on one side. -/
def Outputs.below (outputs : Outputs) (side : ℕ) : Outputs := fun way => outputs (side :: way)

/-- What a pass did at an operator: how many tuples came from directly below it, the state before
anything below it was visited, what was returned and the state at the end. -/
structure Visit where
  operator : Plan
  inputs : List ℤ
  before : PassState
  result : Except Failure ℤ
  after : PassState

namespace Plan

open PassM

/-- The output schemas that follow from the scans. -/
def outputs : Plan → Outputs
  | p, [] => p.schema
  | p, side :: way => (p.children[side]?.getD p).outputs way

/-- What an operator with one input reads. Nothing below an operator that is not known is read. -/
def input? : Plan → Option Plan
  | select base _ | project base _ | sorting base _ _ => some base
  | scan _ _ | join _ _ _ _ _ | foreign _ _ _ | foreignLeaf _ _ => none

theorem outputs_below_of_input {p base : Plan} (hp : p.input? = some base) :
    p.outputs.below 0 = base.outputs := by
  cases p with
  | select | project | sorting =>
    obtain rfl := Option.some.inj hp
    rfl
  | scan | join | foreign | foreignLeaf => cases hp

/-- The pass over a plan with given output schemas. -/
def evaluateAs (catalog : Catalog) (settings : Settings) : Plan → Outputs → PassM ℤ
  | p@(.scan table _), outputs => do
    recordEstimate p.operatorName (← evaluateScan catalog settings table (outputs []))
  | p@(.select base condition), outputs => do
    let tuples ← base.evaluateAs catalog settings (outputs.below 0)
    recordEstimate p.operatorName (← evaluateSelect (outputs []) condition tuples)
  | p@(.project base _), outputs => do
    recordEstimate p.operatorName (← base.evaluateAs catalog settings (outputs.below 0))
  | p@(.join left right conditions code _), outputs => do
    let leftTuples ← left.evaluateAs catalog settings (outputs.below 0)
    let rightTuples ← right.evaluateAs catalog settings (outputs.below 1)
    recordEstimate p.operatorName
      (← evaluateJoin settings (outputs [0]) (outputs [1]) conditions code leftTuples rightTuples)
  | p@(.sorting base _ _), outputs => do
    let tuples ← base.evaluateAs catalog settings (outputs.below 0)
    recordEstimate p.operatorName
      (← evaluateSorting settings p.operatorName (outputs []).tupleSize tuples)
  | .foreign _ name _, _ => evaluateForeign name
  | .foreignLeaf name _, _ => evaluateForeign name

/-- With the schemas that follow from the scans, it is the pass over the plan. -/
theorem evaluateAs_outputs (catalog : Catalog) (settings : Settings) (p : Plan) :
    p.evaluateAs catalog settings p.outputs = p.evaluate catalog settings := by
  induction p with
  | select base _ ih | project base _ ih | sorting base _ _ ih =>
    exact congrArg (· >>= _) ih
  | join left right cs code place ihl ihr =>
    have hl : left.evaluateAs catalog settings ((join left right cs code place).outputs.below 0) =
        left.evaluate catalog settings := ihl
    have hr : right.evaluateAs catalog settings ((join left right cs code place).outputs.below 1) =
        right.evaluate catalog settings := ihr
    rw [evaluateAs, hl, hr]
    rfl
  | scan | foreign | foreignLeaf => rfl

/-- The estimate of a plan with given output schemas. -/
def estimateAs (catalog : Catalog) (settings : Settings) (p : Plan) (outputs : Outputs) :
    Except Failure Estimate :=
  let (result, s) := (p.evaluateAs catalog settings outputs).outcome {}
  result.map fun tuples => estimateOf tuples s

/-- With the schemas that follow from the scans, it is the estimate of the plan. -/
theorem estimateAs_outputs (catalog : Catalog) (settings : Settings) (p : Plan) :
    p.estimateAs catalog settings p.outputs = p.estimate catalog settings := by
  unfold estimateAs
  rw [evaluateAs_outputs]
  rfl

/-- The visit of an operator that got some numbers of tuples from directly below it. -/
def visitAs (catalog : Catalog) (settings : Settings) (p : Plan) (outputs : Outputs) (s : PassState)
    (inputs : List ℤ) : Visit :=
  ⟨p, inputs, s, ((p.evaluateAs catalog settings outputs).outcome s).1,
    ((p.evaluateAs catalog settings outputs).outcome s).2⟩

/-- The visits of a pass over a plan with given output schemas, in the order in which they end. -/
def visitsAs (catalog : Catalog) (settings : Settings) : Plan → Outputs → PassState → List Visit
  | p@(.scan _ _), outputs, s => [p.visitAs catalog settings outputs s []]
  | p@(.select base _), outputs, s | p@(.project base _), outputs, s
  | p@(.sorting base _ _), outputs, s =>
    let result := ((base.evaluateAs catalog settings (outputs.below 0)).outcome s).1
    base.visitsAs catalog settings (outputs.below 0) s ++
      [p.visitAs catalog settings outputs s result.toOption.toList]
  | p@(.join left right _ _ _), outputs, s =>
    let leftVisits := left.visitsAs catalog settings (outputs.below 0) s
    match (left.evaluateAs catalog settings (outputs.below 0)).outcome s with
    | (.error _, _) => leftVisits ++ [p.visitAs catalog settings outputs s []]
    | (.ok l, t) =>
      let result := ((right.evaluateAs catalog settings (outputs.below 1)).outcome t).1
      leftVisits ++ right.visitsAs catalog settings (outputs.below 1) t ++
        [p.visitAs catalog settings outputs s (l :: result.toOption.toList)]
  | p@(.foreign _ _ _), outputs, s => [p.visitAs catalog settings outputs s []]
  | p@(.foreignLeaf _ _), outputs, s => [p.visitAs catalog settings outputs s []]

variable {catalog : Catalog} {settings : Settings} {outputs : Outputs} {p base left right : Plan}
  {s t u v : PassState} {n tuples l r : ℤ} {inputs : List ℤ}

/-- An estimate is what a pass from the initial state returns and ends in. -/
theorem estimateAs_eq_ok_iff {e : Estimate} : p.estimateAs catalog settings outputs = .ok e ↔
    ∃ n t, (p.evaluateAs catalog settings outputs).Returns {} n t ∧ e = estimateOf n t :=
  map_outcome_eq_ok_iff

theorem visitAs_of_returns (h : (p.evaluateAs catalog settings outputs).Returns s n t) :
    p.visitAs catalog settings outputs s inputs = ⟨p, inputs, s, .ok n, t⟩ := by
  unfold visitAs
  rw [h]

theorem returns_input (hp : p.input? = some base)
    (h : (p.evaluateAs catalog settings outputs).Returns s n t) :
    ∃ tuples u, (base.evaluateAs catalog settings (outputs.below 0)).Returns s tuples u := by
  cases p with
  | select | project | sorting =>
    obtain rfl := Option.some.inj hp
    obtain ⟨tuples, u, hbase, -⟩ := returns_bind_iff.1 h
    exact ⟨tuples, u, hbase⟩
  | scan | join | foreign | foreignLeaf => cases hp

theorem visitsAs_of_input (hp : p.input? = some base)
    (hbase : (base.evaluateAs catalog settings (outputs.below 0)).Returns s tuples u)
    (h : (p.evaluateAs catalog settings outputs).Returns s n t) :
    p.visitsAs catalog settings outputs s =
      base.visitsAs catalog settings (outputs.below 0) s ++ [⟨p, [tuples], s, .ok n, t⟩] := by
  cases p with
  | select | project | sorting =>
    obtain rfl := Option.some.inj hp
    rw [visitsAs, visitAs_of_returns h, hbase]
    rfl
  | scan | join | foreign | foreignLeaf => cases hp

theorem visitsAs_join {cs : List Condition} {code place : ℤ}
    (hleft : (left.evaluateAs catalog settings (outputs.below 0)).Returns s l u)
    (hright : (right.evaluateAs catalog settings (outputs.below 1)).Returns u r v)
    (h : ((join left right cs code place).evaluateAs catalog settings outputs).Returns s n t) :
    (join left right cs code place).visitsAs catalog settings outputs s =
      left.visitsAs catalog settings (outputs.below 0) s ++
        right.visitsAs catalog settings (outputs.below 1) u ++
          [⟨join left right cs code place, [l, r], s, .ok n, t⟩] := by
  simp only [visitsAs, visitAs_of_returns h]
  rw [hleft]
  dsimp only
  rw [hright]
  rfl

/-! ### Visits of a pass over a plan -/

/-- The visits of a pass over a plan, in the order in which they end. -/
def visits (catalog : Catalog) (settings : Settings) (p : Plan) (s : PassState) : List Visit :=
  p.visitsAs catalog settings p.outputs s

theorem returns_evaluateAs_outputs_iff :
    (p.evaluateAs catalog settings p.outputs).Returns s n t ↔
      (p.evaluate catalog settings).Returns s n t := by
  rw [evaluateAs_outputs]

theorem visits_scan {table : String} {schema : Schema}
    (h : ((scan table schema).evaluate catalog settings).Returns s n t) :
    (scan table schema).visits catalog settings s = [⟨scan table schema, [], s, .ok n, t⟩] :=
  congrArg (fun v => [v]) (visitAs_of_returns (returns_evaluateAs_outputs_iff.2 h))

theorem visits_of_input (hp : p.input? = some base)
    (hbase : (base.evaluate catalog settings).Returns s tuples u)
    (h : (p.evaluate catalog settings).Returns s n t) :
    p.visits catalog settings s =
      base.visits catalog settings s ++ [⟨p, [tuples], s, .ok n, t⟩] := by
  have hbelow := outputs_below_of_input hp
  rw [visits, visits, ← hbelow]
  exact visitsAs_of_input hp (hbelow ▸ returns_evaluateAs_outputs_iff.2 hbase)
    (returns_evaluateAs_outputs_iff.2 h)

theorem visits_join {cs : List Condition} {code place : ℤ}
    (hleft : (left.evaluate catalog settings).Returns s l u)
    (hright : (right.evaluate catalog settings).Returns u r v)
    (h : ((join left right cs code place).evaluate catalog settings).Returns s n t) :
    (join left right cs code place).visits catalog settings s =
      left.visits catalog settings s ++ right.visits catalog settings u ++
        [⟨join left right cs code place, [l, r], s, .ok n, t⟩] :=
  visitsAs_join (returns_evaluateAs_outputs_iff.2 hleft) (returns_evaluateAs_outputs_iff.2 hright)
    (returns_evaluateAs_outputs_iff.2 h)

end Plan

end QueryPlan
