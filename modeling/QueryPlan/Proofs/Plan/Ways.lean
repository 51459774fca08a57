import Mathlib
import QueryPlan.Proofs.Plan.Parts

/-!
# Ways to the operators of a plan

An operator may occur in a plan several times. What tells its occurrences apart is the way from the
root: the sides that are taken, where `0` leads to the base or the left side and `1` to the right
side. There are as many operators above an occurrence as its way takes sides.

A walk with a stack takes every way to an operator once, in lexicographic order: first the empty
one, then those to the left and at last those to the right. It ends after as many rounds as there
are operators, since every round puts operators on the stack of which there is one less.

## Main definitions

* `Plan.operatorAt?` : the operator at the end of a way, with all that lies below it.
* `Plan.ways` : the ways to the operators of a plan.
* `Plan.visitTop` : one round of a walk.

## Main results

* `Plan.pairwise_ways`, `Plan.mem_ways_iff` : the ways to operators are listed once each, in order.
* `Plan.map_operatorAt?_ways` : the operators at their ends are the operators in preorder.
* `Plan.iterate_visitTop_eq_nil_iff`, `Plan.head?_iterate_visitTop` : how many rounds a walk goes
  through, and what it visits in each.
-/

namespace QueryPlan.Plan

variable {p : Plan} {way : List ℕ} {stack : List Plan}

/-! ### Ways -/

/-- The operator, with all that lies below it, at the end of a way. -/
def operatorAt? : Plan → List ℕ → Option Plan
  | p, [] => some p
  | p, side :: way => p.children[side]?.bind fun c => c.operatorAt? way

/-- The ways to the operators of a plan. -/
def ways : Plan → List (List ℕ)
  | scan _ _ | foreignLeaf _ _ => [[]]
  | select base _ | project base _ | sorting base _ _ | foreign base _ _ =>
    [] :: base.ways.map (0 :: ·)
  | join left right _ _ _ => [] :: (left.ways.map (0 :: ·) ++ right.ways.map (1 :: ·))

@[simp] theorem operatorAt?_nil (p : Plan) : p.operatorAt? [] = some p := rfl

theorem operatorAt?_cons (p : Plan) (side : ℕ) (way : List ℕ) :
    p.operatorAt? (side :: way) = p.children[side]?.bind fun c => c.operatorAt? way := rfl

/-- A way is listed before the ways that it begins, and those to the left before those to the
right. -/
theorem pairwise_ways (p : Plan) : p.ways.Pairwise (· < ·) := by
  induction p with
  | scan | foreignLeaf => exact List.pairwise_singleton _ _
  | select base _ ih | project base _ ih | sorting base _ _ ih | foreign base _ _ ih =>
    simpa [ways, List.pairwise_map, List.cons_lt_cons_iff] using ih
  | join left right _ _ _ ihl ihr =>
    refine List.pairwise_cons.2 ⟨?_, List.pairwise_append.2 ⟨?_, ?_, ?_⟩⟩
    · simp +contextual [or_imp, forall_and]
    · simpa [List.pairwise_map, List.cons_lt_cons_iff] using ihl
    · simpa [List.pairwise_map, List.cons_lt_cons_iff] using ihr
    · simp [List.cons_lt_cons_iff]

/-- The ways to operators are all listed, and no others. -/
theorem mem_ways_iff : way ∈ p.ways ↔ (p.operatorAt? way).isSome = true := by
  induction p generalizing way with
  | scan | foreignLeaf => cases way <;> simp [ways, operatorAt?, children]
  | select base _ ih | project base _ ih | sorting base _ _ ih | foreign base _ _ ih =>
    rcases way with _ | ⟨_ | side, way⟩ <;> simp [ways, operatorAt?, children, ih]
  | join left right _ _ _ ihl ihr =>
    rcases way with _ | ⟨_ | _ | side, way⟩ <;> simp [ways, operatorAt?, children, ihl, ihr]

/-- The ways end at the operators of a plan, each before those below it, left before right. -/
theorem map_operatorAt?_ways (p : Plan) : p.ways.map p.operatorAt? = p.preorder.map some := by
  induction p with
  | scan | foreignLeaf => rfl
  | select base _ ih | project base _ ih | sorting base _ _ ih | foreign base _ _ ih =>
    rw [ways, preorder, List.map_cons, List.map_cons, ← ih, List.map_map]
    rfl
  | join left right _ _ _ ihl ihr =>
    rw [ways, preorder, List.map_cons, List.map_cons, List.map_append, List.map_append, ← ihl,
      ← ihr, List.map_map, List.map_map]
    rfl

theorem length_ways (p : Plan) : p.ways.length = p.preorder.length := by
  simpa using congrArg List.length (map_operatorAt?_ways p)

/-- The parts of a plan are what the ways through it lead to. -/
theorem isPart_iff_exists_way {q : Plan} : q.IsPart p ↔ ∃ way, p.operatorAt? way = some q := by
  rw [IsPart, ← List.mem_map_of_injective (Option.some_injective _), ← map_operatorAt?_ways,
    List.mem_map]
  refine exists_congr fun way => ⟨And.right, fun h => ⟨?_, h⟩⟩
  rw [mem_ways_iff, h]
  rfl

/-! ### The rounds of a walk -/

/-- The stack of a walk after the visit of its top: what lies directly below takes its place. -/
def visitTop : List Plan → List Plan
  | [] => []
  | p :: stack => p.children ++ stack

theorem stackSize_visitTop (stack : List Plan) :
    stackSize (visitTop stack) = stackSize stack - 1 := by
  cases stack with
  | nil => rfl
  | cons p stack =>
    cases p <;>
      simp only [visitTop, stackSize, children, size, List.nil_append, List.cons_append] <;> omega

theorem stackSize_iterate_visitTop (n : ℕ) (stack : List Plan) :
    stackSize (visitTop^[n] stack) = stackSize stack - n := by
  induction n with
  | zero => rfl
  | succ n ih => rw [Function.iterate_succ_apply', stackSize_visitTop, ih, Nat.sub_sub]

theorem stackSize_eq_zero_iff : stackSize stack = 0 ↔ stack = [] := by
  cases stack with
  | nil => simp [stackSize]
  | cons p stack =>
    have := p.size_pos
    simp only [stackSize, reduceCtorEq, iff_false]
    omega

/-- A walk ends after as many rounds as there are operators on its stack. -/
theorem iterate_visitTop_eq_nil_iff {n : ℕ} : visitTop^[n] stack = [] ↔ stackSize stack ≤ n := by
  rw [← stackSize_eq_zero_iff, stackSize_iterate_visitTop, Nat.sub_eq_zero_iff_le]

/-- A walk visits the plan on top of its stack in each round. -/
theorem head?_iterate_visitTop (n : ℕ) (stack : List Plan) :
    (visitTop^[n] stack).head? = (walkStack stack)[n]? := by
  induction n generalizing stack with
  | zero => cases stack <;> simp [walkStack]
  | succ n ih =>
    rw [Function.iterate_succ_apply, ih]
    cases stack <;> simp [visitTop, walkStack]

end QueryPlan.Plan
