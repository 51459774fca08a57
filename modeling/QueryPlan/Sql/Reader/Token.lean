import QueryPlan.Text.Characters

/-!
# Tokens of a query

A query is cut into words, names in double quotes, numbers, texts in single quotes and symbols. A
quote within a quoted name or a text is written twice. Comments run from two dashes to the end of
the line, or between a slash with a star and a star with a slash, where they may be nested. A word
goes on until a blank or a symbol; the words `group by` and `order by` are one token.

Every step of the cut takes the first character and a number of those after it, so the cut ends.
-/

namespace QueryPlan.Sql

open Text

/-- A token of a query. -/
inductive Token
  | word (text : String)
  | quoted (text : String)
  | number (text : String)
  | text (text : String)
  | symbol (text : String)
  | comment
  deriving Repr, DecidableEq, Inhabited

namespace Token

/-- Whether a character ends a word wherever it stands. -/
def isSymbol (c : Char) : Bool :=
  "()[]\x7b\x7d&^:,-.=><%!|+;/\\*~?@#'\"\x60".toList.contains c

/-- Whether a character may stand in a word. -/
def isWordChar (c : Char) : Bool := !isBlank c && !isSymbol c

/-- The symbols of two characters. -/
def longSymbols : List String := ["<>", "!=", "<=", ">=", "==", "||"]

/-- What a step of the cut yields: a token or nothing, with the number of characters that it takes
after the first one; or the end, because a quote is not closed. -/
inductive Step
  | token (t : Token) (more : Nat)
  | unclosed
  deriving Repr

/-- The contents of a quoted text after its opening quote, and the number of characters up to the
closing quote and with it. -/
def quotedContents (quote : Char) : List Char → Option (List Char × Nat)
  | [] => none
  | c :: cs =>
    if c = quote then
      match cs with
      | d :: ds =>
        if d = quote then
          (quotedContents quote ds).map fun (contents, n) => (quote :: contents, n + 2)
        else some ([], 1)
      | [] => some ([], 1)
    else (quotedContents quote cs).map fun (contents, n) => (c :: contents, n + 1)

/-- The length of the rest of a comment after its opening, when `depth` comments are open around
it. A comment that is not closed goes on to the end. -/
def commentLength (depth : Nat) : List Char → Nat
  | '*' :: '/' :: cs => if depth = 0 then 2 else commentLength (depth - 1) cs + 2
  | '/' :: '*' :: cs => commentLength (depth + 1) cs + 2
  | _ :: cs => commentLength depth cs + 1
  | [] => 0

/-- The length of a line comment after its opening. -/
def lineCommentLength (cs : List Char) : Nat :=
  (cs.takeWhile fun c => c ≠ '\n' && c ≠ '\r').length

/-- Where the scan of a number stands: after its digits, after its exponent's letter, or after the
exponent's sign. -/
inductive NumberPart
  | digits
  | exponent
  | signedExponent
  deriving DecidableEq

/-- The length of the rest of a number. A point is taken once; a sign is taken in an exponent, once,
wherever it stands. -/
def numberLength (point : Bool) (part : NumberPart) : List Char → Nat
  | [] => 0
  | c :: cs =>
    if isDigit c then numberLength point part cs + 1
    else if c = '.' && !point then numberLength true part cs + 1
    else if (c = '-' || c = '+') && part = .exponent then
      numberLength point .signedExponent cs + 1
    else if (c = 'e' || c = 'E') && part = .digits then numberLength point .exponent cs + 1
    else 0

/-- The number of blanks and further characters that complete `group` or `order` to one token with
`by`, if they follow. -/
def byLength? (cs : List Char) : Option Nat :=
  let blanks := cs.takeWhile isBlank
  let word := (cs.dropWhile isBlank).takeWhile isWordChar
  if blanks.isEmpty || capitals (String.ofList word) ≠ "BY" then none
  else some (blanks.length + word.length)

/-- The token of a word that begins with the given character. -/
def wordStep (c : Char) (cs : List Char) : Step :=
  let rest := cs.takeWhile isWordChar
  let word := String.ofList (c :: rest)
  let joins := ["GROUP", "ORDER"].contains (capitals word)
  match if joins then byLength? (cs.drop rest.length) else none with
  | some n => .token (.word (capitals word ++ " BY")) (rest.length + n)
  | none => .token (.word word) rest.length

/-- One step of the cut, at a character that is not blank. -/
def step (c : Char) (cs : List Char) : Step :=
  if c = '\'' || c = '"' then
    match quotedContents c cs with
    | none => .unclosed
    | some (contents, n) =>
      let s := String.ofList contents
      .token (if c = '"' then .quoted s else .text s) n
  else if isDigit c then
    let n := numberLength false .digits cs
    .token (.number (String.ofList (c :: cs.take n))) n
  else if c = '-' && cs.head? = some '-' then
    .token .comment (1 + lineCommentLength (cs.drop 1))
  else if c = '/' && cs.head? = some '*' then
    .token .comment (1 + commentLength 0 (cs.drop 1))
  else if isSymbol c then
    let long := String.ofList (c :: cs.take 1)
    if longSymbols.contains long then .token (.symbol long) 1
    else .token (.symbol (String.singleton c)) 0
  else wordStep c cs

end Token

/-- The tokens of a query, comments among them; none if a quote is not closed. -/
def tokens? : List Char → Option (List Token)
  | [] => some []
  | c :: cs =>
    if isBlank c then tokens? cs
    else
      match Token.step c cs with
      | .unclosed => none
      | .token t more => (tokens? (cs.drop more)).map (t :: ·)
  termination_by cs => cs.length
  decreasing_by
    all_goals simp only [List.length_cons, List.length_drop]
    all_goals omega

end QueryPlan.Sql
