import QueryPlan.Number.Shortest

/-!
# Text of a double

`Binary64.render` writes a double with the digits of `Decimal.shortest`. Where the point goes and
how exponents look is a `RealLayout`; `RealLayout.standard` is the layout this library writes
everywhere.
-/

namespace QueryPlan

/-- How the decimal digits of a double are laid out. -/
structure RealLayout where
  /-- The least exponent of the leading digit that is written without an exponent. -/
  positionalFrom : Int
  /-- The least exponent of the leading digit from which on an exponent is written. -/
  scientificFrom : Int
  /-- What is written after the point of a whole number. -/
  wholeFraction : String
  /-- The least number of digits of an exponent. -/
  exponentWidth : Nat

namespace RealLayout

/-- Positional from `0.0001` up to below `10 ^ 16`, with a digit after the point; exponents have a
sign and two digits. -/
def standard : RealLayout :=
  { positionalFrom := -4, scientificFrom := 16, wholeFraction := "0", exponentWidth := 2 }

/-- A text of zeros. -/
def zeros (n : Nat) : String := String.ofList (List.replicate n '0')

/-- Digits with a point after `point` of them; `point` may lie outside of the digits. -/
def positional (layout : RealLayout) (digits : List Char) (point : Int) : String :=
  if point ≤ 0 then
    "0." ++ zeros (-point).toNat ++ String.ofList digits
  else if digits.length ≤ point.toNat then
    String.ofList digits ++ zeros (point.toNat - digits.length) ++ "." ++ layout.wholeFraction
  else
    String.ofList (digits.take point.toNat) ++ "." ++ String.ofList (digits.drop point.toNat)

/-- One digit before the point, if there is more than one digit, and an exponent. -/
def scientific (layout : RealLayout) (digits : List Char) (exponent : Int) : String :=
  let magnitude := toString exponent.natAbs
  let significand :=
    if digits.length ≤ 1 then String.ofList digits
    else String.ofList (digits.take 1) ++ "." ++ String.ofList (digits.drop 1)
  significand ++ (if exponent < 0 then "e-" else "e+") ++
    zeros (layout.exponentWidth - magnitude.length) ++ magnitude

/-- The text of a decimal without a sign. -/
def decimal (layout : RealLayout) (d : Decimal) : String :=
  let digits := Nat.toDigits 10 d.digits
  let leading := d.exponent + (digits.length : Int) - 1
  if d.digits = 0 then layout.positional ['0'] 1
  else if layout.positionalFrom ≤ leading ∧ leading < layout.scientificFrom then
    layout.positional digits (leading + 1)
  else layout.scientific digits leading

end RealLayout

/-- The text of a double: the fewest digits that read back. -/
def Binary64.render : Binary64 → String
  | .finite negative units =>
    (if negative then "-" else "") ++ RealLayout.standard.decimal (Decimal.shortest units)
  | .infinite negative => if negative then "-inf" else "inf"
  | .notNumber => "nan"

end QueryPlan
