/-!
# Characters

The kinds of characters that texts are taken apart by. A set of code points is kept as the strictly
increasing list of the points where membership changes: the first bound opens a range, the next one
closes it, and so on. A code point is in the set exactly when the number of bounds not above it is
odd.

## Main definitions

* `inRanges` : whether a code point is in a set.
* `isBlank`, `trim`, `fields` : the blanks that separate words and are trimmed off texts.
* `isLineBreak`, `lines` : the line breaks of a text, and its lines.
* `digitValue?` : the decimal digits of all scripts.
* `capitals` : a text in the capitals of the Latin alphabet.
-/

namespace QueryPlan.Text

/-! ### Sets of characters -/

/-- The number of bounds among `bounds[low:high]` that are not above `code`, plus `low`, by
bisection. -/
def boundsUpTo (bounds : Array Nat) (code : Nat) (low high : Nat) : Nat :=
  if h : low < high then
    let middle := (low + high) / 2
    if bounds.getD middle 0 ≤ code then boundsUpTo bounds code (middle + 1) high
    else boundsUpTo bounds code low middle
  else low
  termination_by high - low

/-- Whether a code point lies in the set with the given bounds. -/
def inRanges (bounds : Array Nat) (code : Nat) : Bool :=
  boundsUpTo bounds code 0 bounds.size % 2 = 1

/-! ### Blanks

The separators of Unicode, the usual controls, and the four information separators. A zero-width
space and a byte order mark are no blanks. -/

/-- Whether a character separates words. -/
def isBlank (c : Char) : Bool :=
  let n := c.toNat
  (0x9 ≤ n && n ≤ 0xd) || (0x1c ≤ n && n ≤ 0x20) || n == 0x85 || n == 0xa0 || n == 0x1680 ||
  (0x2000 ≤ n && n ≤ 0x200a) || n == 0x2028 || n == 0x2029 || n == 0x202f || n == 0x205f ||
  n == 0x3000

/-- A text without the padding at its end. -/
def trimEnd (isPadding : Char → Bool) (cs : List Char) : List Char :=
  (cs.reverse.dropWhile isPadding).reverse

/-- A text without the padding around it. -/
def trim (isPadding : Char → Bool) (cs : List Char) : List Char :=
  trimEnd isPadding (cs.dropWhile isPadding)

/-- The pieces of a text between its blanks, some of them empty. -/
def splitBlanks : List Char → List (List Char)
  | [] => [[]]
  | c :: cs =>
    if isBlank c then [] :: splitBlanks cs
    else
      match splitBlanks cs with
      | [] => [[c]]
      | piece :: pieces => (c :: piece) :: pieces

/-- The words of a text: its maximal runs of characters that are not blank. -/
def fields (s : String) : List String :=
  ((splitBlanks s.toList).filter (!·.isEmpty)).map String.ofList

/-! ### Lines

A text is broken into lines at every line break of Unicode and at the three information separators
above the unit separator; a carriage return followed by a line feed is one break. A break at the
end opens no further line. Texts read from files have only line feeds: `unifyLineEnds` replaces the
other two line ends that files use. -/

/-- Whether a character ends a line. -/
def isLineBreak (c : Char) : Bool :=
  let n := c.toNat
  (0xa ≤ n && n ≤ 0xd) || (0x1c ≤ n && n ≤ 0x1e) || n == 0x85 || n == 0x2028 || n == 0x2029

/-- The lines of a text as lists of characters. -/
def splitLines : List Char → List (List Char)
  | [] => []
  | '\r' :: '\n' :: cs => [] :: splitLines cs
  | c :: cs =>
    if isLineBreak c then [] :: splitLines cs
    else
      match splitLines cs with
      | [] => [[c]]
      | line :: more => (c :: line) :: more

/-- The lines of a text, without their ends. -/
def lines (s : String) : List String :=
  (splitLines s.toList).map String.ofList

/-- The text with every carriage return, alone or before a line feed, turned into a line feed. -/
def unifyLineEnds : List Char → List Char
  | [] => []
  | '\r' :: '\n' :: cs => '\n' :: unifyLineEnds cs
  | '\r' :: cs => '\n' :: unifyLineEnds cs
  | c :: cs => c :: unifyLineEnds cs

/-! ### Digits

Every script with decimal digits has its ten digits in a row, from zero to nine, so the zeros
determine all of them. -/

/-- The code points of the digits zero. -/
def zeroDigits : Array Nat := #[
  0x30, 0x660, 0x6f0, 0x7c0, 0x966, 0x9e6, 0xa66, 0xae6, 0xb66, 0xbe6, 0xc66, 0xce6, 0xd66,
  0xde6, 0xe50, 0xed0, 0xf20, 0x1040, 0x1090, 0x17e0, 0x1810, 0x1946, 0x19d0, 0x1a80, 0x1a90,
  0x1b50, 0x1bb0, 0x1c40, 0x1c50, 0xa620, 0xa8d0, 0xa900, 0xa9d0, 0xa9f0, 0xaa50, 0xabf0, 0xff10,
  0x104a0, 0x10d30, 0x11066, 0x110f0, 0x11136, 0x111d0, 0x112f0, 0x11450, 0x114d0, 0x11650,
  0x116c0, 0x11730, 0x118e0, 0x11950, 0x11c50, 0x11d50, 0x11da0, 0x16a60, 0x16ac0, 0x16b50,
  0x1d7ce, 0x1d7d8, 0x1d7e2, 0x1d7ec, 0x1d7f6, 0x1e140, 0x1e2f0, 0x1e950, 0x1fbf0]

/-- The value of a decimal digit of any script. -/
def digitValue? (c : Char) : Option Nat :=
  (zeroDigits.find? fun z => z ≤ c.toNat && c.toNat < z + 10).map (c.toNat - ·)

/-- Whether a character is a decimal digit of some script. -/
def isDigit (c : Char) : Bool := (digitValue? c).isSome

/-! ### Capitals

Keywords are compared after every letter is turned into its capital. Besides the letters from `a` to
`z`, a few characters have a capital form made of letters from `A` to `Z` alone: the long s, the
dotless i, the sharp s and the Latin ligatures. All other characters stand for themselves. -/

/-- The capital form of a character, where it consists of letters from `A` to `Z`. -/
def capital (c : Char) : List Char :=
  match c with
  | 'ß' => ['S', 'S']
  | 'ı' => ['I']
  | 'ſ' => ['S']
  | 'ﬀ' => ['F', 'F']
  | 'ﬁ' => ['F', 'I']
  | 'ﬂ' => ['F', 'L']
  | 'ﬃ' => ['F', 'F', 'I']
  | 'ﬄ' => ['F', 'F', 'L']
  | 'ﬅ' => ['S', 'T']
  | 'ﬆ' => ['S', 'T']
  | c => [c.toUpper]

/-- A text in capitals. -/
def capitals (s : String) : String :=
  String.ofList (s.toList.flatMap capital)

end QueryPlan.Text
