import QueryPlan.Number.Binary64
import QueryPlan.Text.Characters

/-!
# Numerals

`readInteger?` and `readReal?` read numbers as people type them: blanks around them are ignored, but
not the information separators; a sign may stand in front, the digits may be those of any script,
and single underscores may separate digits. A real number may further have a point, an exponent, or
be one of the words for infinity and for what is not a number. A numeral may have any number of
digits.
-/

namespace QueryPlan

open Text

/-- Whether a character is ignored around a number: a blank that is no information separator. -/
def isPadding (c : Char) : Bool := isBlank c && (c.toNat < 0x1c || 0x1f < c.toNat)

/-- The number whose decimal digits follow those of `value`; `afterDigit` says whether an
underscore may come next or the numeral may end. -/
def readDigits? (value : Nat) (afterDigit : Bool) : List Char → Option Nat
  | [] => if afterDigit then some value else none
  | c :: cs =>
    if c = '_' then
      if afterDigit then readDigits? value false cs else none
    else
      match digitValue? c with
      | some d => readDigits? (10 * value + d) true cs
      | none => none

/-- A sign, positive when there is none, and what follows it. -/
def takeSign : List Char → Bool × List Char
  | '-' :: cs => (true, cs)
  | '+' :: cs => (false, cs)
  | cs => (false, cs)

/-- The integer that a text writes. -/
def readInteger? (s : String) : Option Int :=
  let (negative, digits) := takeSign (trim isPadding s.toList)
  (readDigits? 0 false digits).map fun n => if negative then -(n : Int) else n

/-- The leading digits of a text and what follows them. -/
def takeDigits (cs : List Char) : List Nat × List Char :=
  ((cs.takeWhile isDigit).filterMap digitValue?, cs.dropWhile isDigit)

/-- The number written by a list of decimal digits. -/
def ofDigitList (ds : List Nat) : Nat :=
  ds.foldl (fun value d => 10 * value + d) 0

/-- A text without the underscores between its digits; none if an underscore stands elsewhere. -/
def dropUnderscores (afterDigit : Bool) : List Char → Option (List Char)
  | [] => some []
  | '_' :: c :: cs =>
    if afterDigit && isDigit c then (dropUnderscores true cs).map (c :: ·) else none
  | c :: cs => if c = '_' then none else (dropUnderscores (isDigit c) cs).map (c :: ·)

/-- The exponent at the end of a numeral; zero if there is none. -/
def readExponent? : List Char → Option Int
  | [] => some 0
  | c :: cs =>
    if c = 'e' || c = 'E' then
      let (negative, digits) := takeSign cs
      match takeDigits digits with
      | ([], _) => none
      | (ds, []) => some (if negative then -(ofDigitList ds : Int) else ofDigitList ds)
      | _ => none
    else none

/-- The double nearest to a numeral of digits with an optional point and exponent. -/
def readUnsignedReal? (negative : Bool) (cs : List Char) : Option Binary64 :=
  let (whole, rest) := takeDigits cs
  let (fraction, rest) :=
    match rest with
    | '.' :: more => takeDigits more
    | _ => ([], rest)
  if whole.isEmpty && fraction.isEmpty then none
  else
    (readExponent? rest).map fun exponent =>
      Binary64.ofDecimal negative (ofDigitList (whole ++ fraction)) (exponent - fraction.length)

/-- The double that a text writes. -/
def readReal? (s : String) : Option Binary64 :=
  let (negative, rest) := takeSign (trim isPadding s.toList)
  let word := String.ofList (rest.map Char.toLower)
  if word = "inf" || word = "infinity" then some (.infinite negative)
  else if word = "nan" then some .notNumber
  else (dropUnderscores false rest).bind (readUnsignedReal? negative)

end QueryPlan
