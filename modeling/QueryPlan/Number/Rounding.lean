/-!
# Rounding to nearest, ties to even

`roundHalfEven num den` is the natural number nearest to the quotient `num / den`, the even one of
two that are equally near. `roundSignificant p num den` does the same on the grid of the numbers
that have at most `p` significant bits. Both work on the exact quotient, so nothing is rounded
twice. Powers of two and ten, the bases in which numbers are kept and written, come first.
-/

namespace QueryPlan

/-- A power of two. -/
def twoPow (n : Nat) : Nat := Nat.pow 2 n

/-- A power of ten. -/
def tenPow (n : Nat) : Nat := Nat.pow 10 n

@[simp] theorem twoPow_zero : twoPow 0 = 1 := rfl

theorem twoPow_succ (n : Nat) : twoPow (n + 1) = twoPow n * 2 := rfl

@[simp] theorem tenPow_zero : tenPow 0 = 1 := rfl

theorem twoPow_pos (n : Nat) : 0 < twoPow n := Nat.pow_pos (by decide)

theorem tenPow_pos (n : Nat) : 0 < tenPow n := Nat.pow_pos (by decide)

/-- The natural number nearest to `num / den`; of two equally near, the even one. -/
def roundHalfEven (num den : Nat) : Nat :=
  let whole := num / den
  let twice := 2 * (num % den)
  if twice < den then whole
  else if den < twice then whole + 1
  else if whole % 2 = 0 then whole else whole + 1

/-- The weight of the last significant bit of `num / den` when `p` bits are kept. -/
def significantStep (p num den : Nat) : Nat :=
  twoPow ((num / den).log2 + 1 - p)

/-- The number with at most `p` significant bits nearest to `num / den`, ties to even. -/
def roundSignificant (p num den : Nat) : Nat :=
  roundHalfEven num (den * significantStep p num den) * significantStep p num den

/-- Rounding moves down by less than one. -/
theorem div_le_roundHalfEven (num den : Nat) : num / den ≤ roundHalfEven num den := by
  unfold roundHalfEven
  dsimp only
  split <;> try split <;> try split
  all_goals omega

/-- Rounding moves up by at most one. -/
theorem roundHalfEven_le_div_add_one (num den : Nat) :
    roundHalfEven num den ≤ num / den + 1 := by
  unfold roundHalfEven
  dsimp only
  split <;> try split <;> try split
  all_goals omega

/-- A quotient that is already a natural number is kept. -/
theorem roundHalfEven_mul_right (n : Nat) {den : Nat} (h : 0 < den) :
    roundHalfEven (n * den) den = n := by
  simp [roundHalfEven, Nat.mul_div_cancel _ h, h]

/-- Zero is rounded to itself. -/
@[simp] theorem roundSignificant_zero (p den : Nat) : roundSignificant p 0 den = 0 := by
  simp [roundSignificant, roundHalfEven]

end QueryPlan
