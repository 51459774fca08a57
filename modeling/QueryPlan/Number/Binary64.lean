import QueryPlan.Number.Rounding

/-!
# Double-precision numbers

A finite double is a whole multiple of `2 ^ (-1074)`, so its magnitude is kept as that natural
number of units. Every operation computes the exact result as a quotient of natural numbers and
rounds it once to 53 significant bits, to nearest with ties to even; a magnitude above the largest
finite one becomes infinite.
-/

namespace QueryPlan

/-- A double-precision number; the magnitude of a finite one counts units of `2 ^ (-1074)`. -/
inductive Binary64
  | finite (negative : Bool) (units : Nat)
  | infinite (negative : Bool)
  | notNumber
  deriving Repr, DecidableEq, Inhabited

namespace Binary64

/-- Why a number has no integer part. -/
inductive NotIntegral
  | infinite
  | notNumber
  deriving Repr, DecidableEq

/-- The number one, in units of `2 ^ (-1074)`. -/
def unitsPerOne : Nat := twoPow 1074

/-- Significant bits of a double. -/
def precision : Nat := 53

/-- The magnitude of the largest finite double. -/
def maxUnits : Nat := (twoPow 53 - 1) * twoPow 2045

/-- The double nearest to `num / den` units. -/
def ofUnitsRatio (negative : Bool) (num den : Nat) : Binary64 :=
  let units := roundSignificant precision num den
  if units ≤ maxUnits then .finite negative units else .infinite negative

/-- The double nearest to `num / den`. -/
def ofRatio (negative : Bool) (num den : Nat) : Binary64 :=
  ofUnitsRatio negative (num * unitsPerOne) den

/-- The double nearest to an integer. -/
def ofInt (n : Int) : Binary64 :=
  ofRatio (n < 0) n.natAbs 1

/-- The number itself, if it is finite. -/
def finite? : Binary64 → Option Binary64
  | .finite s u => some (.finite s u)
  | _ => none

/-- The double nearest to an integer, if that is finite. -/
def ofInt? (n : Int) : Option Binary64 := (ofInt n).finite?

/-- The double nearest to the exact quotient of two integers, if that is finite. The divisor is
not zero. -/
def ofQuotient? (a b : Int) : Option Binary64 :=
  (ofRatio (decide (a < 0) != decide (b < 0)) a.natAbs b.natAbs).finite?

/-- Positive zero. -/
def zero : Binary64 := .finite false 0

/-- One half. -/
def half : Binary64 := .finite false (twoPow 1073)

/-- The number with its sign turned. -/
def negate : Binary64 → Binary64
  | .finite s u => .finite (!s) u
  | .infinite s => .infinite (!s)
  | .notNumber => .notNumber

/-- The product of two numbers, rounded once. -/
def mul : Binary64 → Binary64 → Binary64
  | .finite s u, .finite t v => ofUnitsRatio (s != t) (u * v) unitsPerOne
  | .infinite s, .infinite t => .infinite (s != t)
  | .infinite s, .finite t v => if v = 0 then .notNumber else .infinite (s != t)
  | .finite s u, .infinite t => if u = 0 then .notNumber else .infinite (s != t)
  | _, _ => .notNumber

/-- The quotient of two numbers, rounded once; a quotient by zero is infinite. -/
def div : Binary64 → Binary64 → Binary64
  | .finite s u, .finite t v =>
    if v = 0 then (if u = 0 then .notNumber else .infinite (s != t))
    else ofUnitsRatio (s != t) (u * unitsPerOne) v
  | .infinite s, .finite t _ => .infinite (s != t)
  | .finite s _, .infinite t => .finite (s != t) 0
  | _, _ => .notNumber

/-- The signed magnitude of a finite number. -/
def signed (negative : Bool) (units : Nat) : Int :=
  if negative then -(units : Int) else units

/-- The difference of two numbers, rounded once; a difference of zero is positive unless both
sides say otherwise. -/
def sub : Binary64 → Binary64 → Binary64
  | .finite s u, .finite t v =>
    let d := signed s u - signed t v
    if d = 0 then .finite (s && !t) 0 else ofUnitsRatio (d < 0) d.natAbs 1
  | .infinite s, .infinite t => if s = t then .notNumber else .infinite s
  | .infinite s, .finite _ _ => .infinite s
  | .finite _ _, .infinite t => .infinite (!t)
  | _, _ => .notNumber

/-- The sum of two numbers, rounded once. -/
def add (x y : Binary64) : Binary64 :=
  sub x (negate y)

/-- The least integer that is not below the number. -/
def ceil : Binary64 → Except NotIntegral Int
  | .finite s u => .ok (-((-signed s u) / (unitsPerOne : Int)))
  | .infinite _ => .error .infinite
  | .notNumber => .error .notNumber

/-- The integer that is left when the fraction is cut off. -/
def truncate : Binary64 → Except NotIntegral Int
  | .finite s u => .ok (signed s (u / unitsPerOne))
  | .infinite _ => .error .infinite
  | .notNumber => .error .notNumber

/-- Equality of values: the two zeros agree, and what is not a number agrees with nothing. -/
def same : Binary64 → Binary64 → Bool
  | .finite s u, .finite t v => u == v && (s == t || u == 0)
  | .infinite s, .infinite t => s == t
  | _, _ => false

/-- The nearest double of `digits * 10 ^ exponent`. Exponents far outside the range of doubles are
decided without computing the power. -/
def ofDecimal (negative : Bool) (digits : Nat) (exponent : Int) : Binary64 :=
  if digits = 0 then .finite negative 0
  else if 400 < exponent then .infinite negative
  else if exponent + (digits.log2 : Int) < -400 then .finite negative 0
  else if 0 ≤ exponent then ofRatio negative (digits * tenPow exponent.toNat) 1
  else ofRatio negative digits (tenPow (-exponent).toNat)

theorem unitsPerOne_pos : 0 < unitsPerOne := by
  unfold unitsPerOne
  generalize 1074 = k
  exact Nat.two_pow_pos k

theorem finite?_eq_some_iff {x y : Binary64} :
    x.finite? = some y ↔ ∃ s u, x = finite s u ∧ finite s u = y := by
  cases x with
  | finite s u =>
    simp only [finite?, Option.some.injEq]
    refine ⟨fun h => ⟨s, u, rfl, h⟩, ?_⟩
    rintro ⟨_, _, hx, h⟩
    exact hx.trans h
  | infinite | notNumber => simp [finite?]

end Binary64

end QueryPlan
