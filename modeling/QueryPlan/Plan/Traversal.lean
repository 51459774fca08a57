import QueryPlan.Plan.Basic

/-!
# Walks through plans

`Plan.walk` visits the operators of a plan with a stack of trees still to be visited, and
`Plan.preorder` lists them by recursion on the tree; both go to an operator before those below it,
and left before right.

## Main results

* `Plan.walk_eq_preorder` : the two agree.
-/

namespace QueryPlan.Plan

/-- The operators of a plan, each before those below it, left before right. -/
def preorder : Plan → List Plan
  | p@(scan _ _) => [p]
  | p@(select base _) => p :: base.preorder
  | p@(project base _) => p :: base.preorder
  | p@(join left right _ _ _) => p :: (left.preorder ++ right.preorder)
  | p@(sorting base _ _) => p :: base.preorder
  | p@(foreign base _ _) => p :: base.preorder
  | p@(foreignLeaf _ _) => [p]

/-- The number of operators in a list of plans. -/
def stackSize : List Plan → Nat
  | [] => 0
  | p :: stack => p.size + stackSize stack

theorem stackSize_children_append (p : Plan) (stack : List Plan) :
    stackSize (p.children ++ stack) < stackSize (p :: stack) := by
  cases p <;> simp only [stackSize, children, size, List.nil_append, List.cons_append] <;> omega

/-- Visits the operators of the plans on a stack, the top of the stack first. -/
def walkStack : List Plan → List Plan
  | [] => []
  | p :: stack => p :: walkStack (p.children ++ stack)
  termination_by stack => stackSize stack
  decreasing_by exact stackSize_children_append p stack

/-- The operators of a plan in the order in which a walk with a stack visits them. -/
def walk (p : Plan) : List Plan := walkStack [p]

/-- The base tables that are scanned, in the order of their scans. -/
def scannedTables (p : Plan) : List String :=
  p.walk.filterMap fun
    | scan table _ => some table
    | _ => none

/-- Whether an operator is a join. -/
def isJoin : Plan → Bool
  | join .. => true
  | _ => false

/-- The joins of a plan, in the order of a walk. -/
def joins (p : Plan) : List Plan := p.walk.filter isJoin

/-- The conditions in a plan, in the order of a walk. -/
def conditions (p : Plan) : List Condition :=
  p.walk.flatMap fun
    | select _ c => [c]
    | join _ _ cs _ _ => cs
    | _ => []

/-- The plan in which the join with the given rank in the order of a walk has another algorithm, and
the number of joins passed over before it. -/
def setAlgorithmFrom (rank : Nat) (algorithm : Int) : Plan → Nat → Plan × Nat
  | scan t s, k => (scan t s, k)
  | select base c, k =>
    let (base, k) := base.setAlgorithmFrom rank algorithm k
    (select base c, k)
  | project base cs, k =>
    let (base, k) := base.setAlgorithmFrom rank algorithm k
    (project base cs, k)
  | join left right cs a n, k =>
    let here := if k = rank then algorithm else a
    let (left, k) := left.setAlgorithmFrom rank algorithm (k + 1)
    let (right, k) := right.setAlgorithmFrom rank algorithm k
    (join left right cs here n, k)
  | sorting base task b, k =>
    let (base, k) := base.setAlgorithmFrom rank algorithm k
    (sorting base task b, k)
  | foreign base name s, k =>
    let (base, k) := base.setAlgorithmFrom rank algorithm k
    (foreign base name s, k)
  | foreignLeaf name s, k => (foreignLeaf name s, k)

/-- The plan in which the join with the given rank in the order of a walk has another algorithm. -/
def setAlgorithm (p : Plan) (rank : Nat) (algorithm : Int) : Plan :=
  (p.setAlgorithmFrom rank algorithm 0).1

theorem preorder_eq_cons (p : Plan) : p.preorder = p :: p.children.flatMap preorder := by
  cases p <;> simp [preorder, children]

/-- A walk from a stack visits the plans on it one after the other. -/
theorem walkStack_eq_flatMap (stack : List Plan) :
    walkStack stack = stack.flatMap preorder := by
  fun_induction walkStack stack with
  | case1 => rfl
  | case2 p stack ih => rw [ih, List.flatMap_cons, preorder_eq_cons p, List.flatMap_append]; rfl

/-- The walk with a stack visits every operator once, in the order of the recursion. -/
theorem walk_eq_preorder (p : Plan) : p.walk = p.preorder := by
  simp [walk, walkStack_eq_flatMap]

end QueryPlan.Plan
