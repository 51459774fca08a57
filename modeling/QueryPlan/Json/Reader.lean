import QueryPlan.Json.Value

/-!
# Reading JSON

`Json.read` reads one value with blanks around it. Beyond the standard it takes `NaN`, `Infinity`
and `-Infinity`; of two members of one name the last one counts. It refuses a byte order mark,
trailing commas and raw controls in strings. A fault says what is wrong and at which character.
Values may be nested to any depth, and numbers may have any number of digits: a text is never
refused for its size.

The functions below return the value read and what follows it. Each call for a nested value spends
one unit of fuel, and a text holds no more values than characters, so the length of the text is
enough fuel.
-/

namespace QueryPlan.Json

/-- What is wrong with a text that is no JSON. -/
inductive Problem
  | byteOrderMark
  | expectingValue
  | expectingName
  | expectingColon
  | expectingComma
  | unterminatedString
  | controlCharacter
  | invalidEscape
  | invalidUnicodeEscape
  | extraData
  deriving Repr, DecidableEq

/-- The words for a problem. -/
def Problem.text : Problem → String
  | .byteOrderMark => "Unexpected UTF-8 BOM (decode using utf-8-sig)"
  | .expectingValue => "Expecting value"
  | .expectingName => "Expecting property name enclosed in double quotes"
  | .expectingColon => "Expecting ':' delimiter"
  | .expectingComma => "Expecting ',' delimiter"
  | .unterminatedString => "Unterminated string starting at"
  | .controlCharacter => "Invalid control character at"
  | .invalidEscape => "Invalid \\escape"
  | .invalidUnicodeEscape => "Invalid \\uXXXX escape"
  | .extraData => "Extra data"

/-- A problem and how many characters of the text are left where it shows. -/
structure Fault where
  problem : Problem
  left : Nat
  deriving Repr, DecidableEq

/-- The words for a fault in the given text: the problem with its line, column and character. -/
def Fault.message (text : List Char) (f : Fault) : String :=
  let position := text.length - f.left
  let before := text.take position
  let line := before.count '\n' + 1
  let column := (before.reverse.takeWhile (· ≠ '\n')).length + 1
  f.problem.text ++ ": line " ++ toString line ++ " column " ++ toString column ++
    " (char " ++ toString position ++ ")"

/-- A step of reading: a result with the characters that follow it. -/
abbrev Reading (α : Type) := Except Fault (α × List Char)

/-- The fault of a problem in front of `cs`. -/
def fail {α : Type} (problem : Problem) (cs : List Char) : Reading α :=
  .error ⟨problem, cs.length⟩

/-- The characters after leading blanks. -/
def skipBlanks (cs : List Char) : List Char :=
  cs.dropWhile fun c => c = ' ' || c = '\t' || c = '\n' || c = '\r'

/-- The value of a hexadecimal digit. -/
def hexValue? (c : Char) : Option Nat :=
  if '0' ≤ c && c ≤ '9' then some (c.toNat - '0'.toNat)
  else if 'a' ≤ c && c ≤ 'f' then some (c.toNat - 'a'.toNat + 10)
  else if 'A' ≤ c && c ≤ 'F' then some (c.toNat - 'A'.toNat + 10)
  else none

/-- The value of four hexadecimal digits and what follows them. -/
def hexFour? : List Char → Option (Nat × List Char)
  | a :: b :: c :: d :: cs =>
    match hexValue? a, hexValue? b, hexValue? c, hexValue? d with
    | some a, some b, some c, some d => some (((a * 16 + b) * 16 + c) * 16 + d, cs)
    | _, _, _, _ => none
  | _ => none

/-- The second half of a pair of surrogates, written as an escape, and what follows it. -/
def lowSurrogate? : List Char → Option (Nat × List Char)
  | '\\' :: 'u' :: cs =>
    match hexFour? cs with
    | some (n, rest) => if 0xdc00 ≤ n && n ≤ 0xdfff then some (n, rest) else none
    | none => none
  | _ => none

/-- The character of an escaped code unit. Two escapes that form a pair of surrogates are one
character; a surrogate alone is none and becomes the replacement character. -/
def unicodeEscape (unit : Nat) (cs : List Char) : Char × List Char :=
  if 0xd800 ≤ unit && unit ≤ 0xdbff then
    match lowSurrogate? cs with
    | some (low, rest) =>
      (Char.ofNat (0x10000 + (unit - 0xd800) * 0x400 + (low - 0xdc00)), rest)
    | none => ('\ufffd', cs)
  else if 0xdc00 ≤ unit && unit ≤ 0xdfff then ('\ufffd', cs)
  else (Char.ofNat unit, cs)

/-- The character that a letter after a backslash stands for. -/
def escapedChar? : Char → Option Char
  | '"' => some '"'
  | '\\' => some '\\'
  | '/' => some '/'
  | 'b' => some '\x08'
  | 'f' => some '\x0c'
  | 'n' => some '\n'
  | 'r' => some '\r'
  | 't' => some '\t'
  | _ => none

/-- Reads a string after its opening quote; `opening` is what is left from that quote on. -/
def readString (opening : Nat) : Nat → List Char → Reading (List Char)
  | 0, _ => .error ⟨.unterminatedString, opening⟩
  | fuel + 1, cs =>
    match cs with
    | [] => .error ⟨.unterminatedString, opening⟩
    | '"' :: rest => .ok ([], rest)
    | '\\' :: rest =>
      match rest with
      | [] => .error ⟨.unterminatedString, opening⟩
      | 'u' :: more =>
        match hexFour? more with
        | none => fail .invalidUnicodeEscape more
        | some (unit, after) =>
          let (c, after) := unicodeEscape unit after
          (readString opening fuel after).map fun (s, tail) => (c :: s, tail)
      | e :: more =>
        match escapedChar? e with
        | none => fail .invalidEscape cs
        | some c => (readString opening fuel more).map fun (s, tail) => (c :: s, tail)
    | c :: rest =>
      if c.toNat < 0x20 then fail .controlCharacter cs
      else (readString opening fuel rest).map fun (s, tail) => (c :: s, tail)

/-- The leading digits from `0` to `9` and what follows them. -/
def takeAsciiDigits (cs : List Char) : List Char × List Char :=
  (cs.takeWhile Char.isDigit, cs.dropWhile Char.isDigit)

/-- The number written by digits from `0` to `9`. -/
def ofAsciiDigits (ds : List Char) : Nat :=
  ds.foldl (fun value c => 10 * value + (c.toNat - '0'.toNat)) 0

/-- A point with digits after it, and what follows; nothing if there is no such fraction. -/
def takeFraction : List Char → List Char × List Char
  | '.' :: cs =>
    match takeAsciiDigits cs with
    | ([], _) => ([], '.' :: cs)
    | (ds, rest) => (ds, rest)
  | cs => ([], cs)

/-- An exponent and what follows; none if there is no exponent. -/
def takeExponent (cs : List Char) : Option Int × List Char :=
  match cs with
  | e :: more =>
    if e = 'e' || e = 'E' then
      let (negative, digits) :=
        match more with
        | '-' :: ds => (true, ds)
        | '+' :: ds => (false, ds)
        | ds => (false, ds)
      match takeAsciiDigits digits with
      | ([], _) => (none, cs)
      | (ds, rest) =>
        (some (if negative then -(ofAsciiDigits ds : Int) else ofAsciiDigits ds), rest)
    else (none, cs)
  | [] => (none, cs)

/-- The number after its sign: digits without a superfluous zero in front, then perhaps a fraction
and an exponent. -/
def readUnsigned? (negative : Bool) (cs : List Char) : Option (Json × List Char) :=
  let (whole, rest) :=
    match cs with
    | '0' :: rest => (['0'], rest)
    | _ => takeAsciiDigits cs
  if whole.isEmpty then none
  else
    let (fraction, rest) := takeFraction rest
    let (exponent, rest) := takeExponent rest
    if fraction.isEmpty && exponent.isNone then
      let n := ofAsciiDigits whole
      some (.int (if negative then -(n : Int) else n), rest)
    else
      let x :=
        Binary64.ofDecimal negative (ofAsciiDigits (whole ++ fraction))
          (exponent.getD 0 - fraction.length)
      some (.real x, rest)

/-- A value that is written as a word or a number. -/
def readScalar (cs : List Char) : Reading Json :=
  match cs with
  | 'n' :: 'u' :: 'l' :: 'l' :: rest => .ok (.null, rest)
  | 't' :: 'r' :: 'u' :: 'e' :: rest => .ok (.bool true, rest)
  | 'f' :: 'a' :: 'l' :: 's' :: 'e' :: rest => .ok (.bool false, rest)
  | 'N' :: 'a' :: 'N' :: rest => .ok (.real .notNumber, rest)
  | 'I' :: 'n' :: 'f' :: 'i' :: 'n' :: 'i' :: 't' :: 'y' :: rest =>
    .ok (.real (.infinite false), rest)
  | '-' :: 'I' :: 'n' :: 'f' :: 'i' :: 'n' :: 'i' :: 't' :: 'y' :: rest =>
    .ok (.real (.infinite true), rest)
  | '-' :: rest => (readUnsigned? true rest).elim (fail .expectingValue cs) .ok
  | _ => (readUnsigned? false cs).elim (fail .expectingValue cs) .ok

mutual

/-- Reads a value at the first character. -/
def readValue : Nat → List Char → Reading Json
  | 0, cs => fail .expectingValue cs
  | fuel + 1, cs =>
    match cs with
    | '"' :: rest =>
      (readString cs.length cs.length rest).map fun (s, tail) => (.str (String.ofList s), tail)
    | '{' :: rest =>
      match skipBlanks rest with
      | '}' :: tail => .ok (.obj [], tail)
      | inner => readMembers fuel [] inner
    | '[' :: rest =>
      match skipBlanks rest with
      | ']' :: tail => .ok (.arr [], tail)
      | inner => readItems fuel [] inner
    | _ => readScalar cs

/-- Reads the members of an object from the name of the next one on. -/
def readMembers : Nat → List (String × Json) → List Char → Reading Json
  | 0, _, cs => fail .expectingName cs
  | fuel + 1, members, cs =>
    match cs with
    | '"' :: rest =>
      match readString cs.length cs.length rest with
      | .error f => .error f
      | .ok (name, afterName) =>
        match skipBlanks afterName with
        | ':' :: afterColon =>
          match readValue fuel (skipBlanks afterColon) with
          | .error f => .error f
          | .ok (value, afterValue) =>
            let members := setMember (String.ofList name) value members
            match skipBlanks afterValue with
            | '}' :: tail => .ok (.obj members, tail)
            | ',' :: tail => readMembers fuel members (skipBlanks tail)
            | other => fail .expectingComma other
        | other => fail .expectingColon other
    | _ => fail .expectingName cs

/-- Reads the items of an array from the next one on; `items` are those before it, last first. -/
def readItems : Nat → List Json → List Char → Reading Json
  | 0, _, cs => fail .expectingValue cs
  | fuel + 1, items, cs =>
    match readValue fuel cs with
    | .error f => .error f
    | .ok (value, afterValue) =>
      match skipBlanks afterValue with
      | ']' :: tail => .ok (.arr (value :: items).reverse, tail)
      | ',' :: tail => readItems fuel (value :: items) (skipBlanks tail)
      | other => fail .expectingComma other

end

/-- Reads a text that holds one value and blanks. -/
def read (text : List Char) : Except Fault Json :=
  if text.head? = some '\ufeff' then .error ⟨.byteOrderMark, text.length⟩
  else
    match readValue (2 * text.length + 1) (skipBlanks text) with
    | .error f => .error f
    | .ok (value, rest) =>
      match skipBlanks rest with
      | [] => .ok value
      | extra => .error ⟨.extraData, extra.length⟩

end QueryPlan.Json
