import QueryPlan.Number.Binary64

/-!
# Natural logarithms of whole numbers

Logarithms are computed in fixed point, as whole multiples of `2 ^ (-fixedBits)`, from the series
of the inverse hyperbolic tangent, and rounded once to a double. The fixed-point error is many bits
below the last bit of a double.
-/

namespace QueryPlan.Logarithm

/-- Fractional bits of the fixed-point numbers. -/
def fixedBits : Nat := 256

/-- The terms `t ^ (2 i + 1) / (2 i + 1)` of the series, `fuel` of them from the power `power` and
the odd index `index` on; `square` is the square of `t`. -/
def seriesFrom (square : Nat) : Nat → Nat → Nat → Nat
  | 0, _, _ => 0
  | fuel + 1, index, power =>
    power / index + seriesFrom square fuel (index + 2) ((power * square) >>> fixedBits)

/-- Twice the inverse hyperbolic tangent of `num / den`, which is the logarithm of
`(den + num) / (den - num)`. The quotient is at most one third. -/
def twiceArtanh (num den : Nat) : Nat :=
  let t := (num <<< fixedBits) / den
  2 * seriesFrom ((t * t) >>> fixedBits) (fixedBits / 3 + 2) 1 t

/-- The logarithm of two. -/
def two : Nat := twiceArtanh 1 3

/-- The logarithm of a positive number: that of its leading power of two plus that of the rest,
which lies between one and two. -/
def fixed (n : Nat) : Nat :=
  let exponent := n.log2
  let power := twoPow exponent
  exponent * two + twiceArtanh (n - power) (n + power)

/-- The double nearest to a fixed-point number. -/
def toDouble (negative : Bool) (x : Nat) : Binary64 :=
  Binary64.ofRatio negative x (twoPow fixedBits)

/-- The logarithm of a positive whole number as a double.

A number that is itself rounded to a finite double is rounded first. A larger one is split into a
significand between one half and one and a power of two, and the logarithms of the two parts are
added as doubles. -/
def ofNat (n : Nat) : Binary64 :=
  match Binary64.ofInt n with
  | .finite _ units => toDouble false (fixed (units / Binary64.unitsPerOne))
  | _ =>
    let rounded := roundSignificant Binary64.precision n 1
    let exponent := rounded.log2 + 1
    let significand := toDouble true (exponent * two - fixed rounded)
    let power := Binary64.mul (toDouble false two) (Binary64.ofInt exponent)
    Binary64.add significand power

end QueryPlan.Logarithm
