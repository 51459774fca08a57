import QueryPlan.Number.Binary64

/-!
# Shortest decimal digits of a double

Among the decimals that read back as a given finite double, `Decimal.shortest` picks one with the
fewest digits, and of those the nearest. The reals that round to a double form an interval around
it, which holds its ends exactly when the significand is even. On the grid of the decimals with a
given number of digits, only the two neighbours of the value have to be tried: if any point of the
grid lies in the interval, one of them does.
-/

namespace QueryPlan

/-- The decimal `digits * 10 ^ exponent`. -/
structure Decimal where
  digits : Nat
  exponent : Int
  deriving Repr, DecidableEq

namespace Decimal

/-- Number of decimal digits of a natural number; `0` has one. -/
def length (n : Nat) : Nat := (Nat.toDigits 10 n).length

/-- The exponent of the leading decimal digit of a magnitude that is not zero. -/
def leadingExponent (units : Nat) : Int :=
  (length (units * tenPow 400 / Binary64.unitsPerOne) : Int) - 401

/-- The gap between a finite double and the next larger one, in units. -/
def gapAbove (units : Nat) : Nat := twoPow (units.log2 + 1 - Binary64.precision)

/-- The gap between a finite double and the next smaller one, in units: half as wide below a power
of two. -/
def gapBelow (units : Nat) : Nat :=
  if units = twoPow units.log2 ∧ 1 < gapAbove units then gapAbove units / 2 else gapAbove units

/-- Whether `c * 10 ^ e` reads back as the double with the given magnitude. -/
def readsBack (units : Nat) (c : Nat) (e : Int) : Bool :=
  let num := if 0 ≤ e then c * tenPow e.toNat * Binary64.unitsPerOne else c * Binary64.unitsPerOne
  let den := if 0 ≤ e then 1 else tenPow (-e).toNat
  let low := (2 * units - gapBelow units) * den
  let high := (2 * units + gapAbove units) * den
  let even := units / gapAbove units % 2 == 0
  if even then low ≤ 2 * num && 2 * num ≤ high else low < 2 * num && 2 * num < high

/-- The decimal on the grid of step `10 ^ e` that reads back and is nearest to the magnitude, the
one with an even last digit when two are equally near. -/
def onGrid? (units : Nat) (e : Int) : Option Decimal :=
  let num := if 0 ≤ e then units else units * tenPow (-e).toNat
  let den := if 0 ≤ e then Binary64.unitsPerOne * tenPow e.toNat else Binary64.unitsPerOne
  let below := num / den
  let nearest := roundHalfEven num den
  let other := if nearest = below then below + 1 else below
  if readsBack units nearest e then some ⟨nearest, e⟩
  else if readsBack units other e then some ⟨other, e⟩
  else none

/-- The first grid with a decimal that reads back, trying `fuel` grids from `count` digits on. -/
def search (units : Nat) : Nat → Nat → Decimal
  | 0, _ => ⟨units, 0⟩
  | fuel + 1, count =>
    match onGrid? units (leadingExponent units - (count : Int) + 1) with
    | some d => d
    | none => search units fuel (count + 1)

/-- The shortest decimal that reads back as the finite double of the given magnitude. Seventeen
digits are always enough. -/
def shortest (units : Nat) : Decimal :=
  if units = 0 then ⟨0, 0⟩ else search units 17 1

end Decimal

end QueryPlan
