import QueryPlan.Failure
import QueryPlan.Text.Characters
import QueryPlan.Text.Word

/-!
# Statements in a script

A statement begins at the word `select`, in any case, and goes on to the next semicolon or to the
end of the text. What stands before the word is left out. A script is read either as one text, in
which statements may go over several lines, or line by line, with at most one statement to a line.
A script file is read as UTF-8 with all line ends turned into line feeds.

## Main definitions

* `Script.statements` : the statements of a text, each with the line it begins on.
* `Script.statementsByLine` : the first statement of every line.
* `Script.ofFile` : the statements of a script file.
-/

namespace QueryPlan.Script

open Text

/-- A statement and the number of the line it begins on. -/
structure Statement where
  line : Nat
  text : String
  deriving Repr, DecidableEq

/-- Whether a character is the given small letter in either case; the long s is an `s`. -/
def isLetter (letter c : Char) : Bool :=
  c.toLower = letter || (letter = 's' && c = 'ſ')

/-- What follows the letters of a word at the beginning of a text. -/
def afterLetters? : (letters : List Char) → List Char → Option (List Char)
  | [], cs => some cs
  | _ :: _, [] => none
  | letter :: letters, c :: cs => if isLetter letter c then afterLetters? letters cs else none

/-- Whether a text begins with the word `select`, not followed by a word character. -/
def beginsStatement (cs : List Char) : Bool :=
  match afterLetters? ['s', 'e', 'l', 'e', 'c', 't'] cs with
  | none => false
  | some [] => true
  | some (c :: _) => !isWord c

/-- Where a scan of a text stands: between statements, after a word character or not, or within a
statement, with the line it began on and its characters so far, the last one first. -/
inductive Mode
  | between (afterWord : Bool)
  | within (start : Nat) (read : List Char)
  deriving Repr, DecidableEq

/-- The line after a character. -/
def nextLine (line : Nat) (c : Char) : Nat := if c = '\n' then line + 1 else line

/-- The statements in a text, in the characters as they stand, when its first character is on the
given line. -/
def scan (line : Nat) : Mode → List Char → List (Nat × List Char)
  | .between _, [] => []
  | .within start read, [] => [(start, read.reverse)]
  | .between afterWord, c :: cs =>
    if !afterWord && beginsStatement (c :: cs) then scan (nextLine line c) (.within line [c]) cs
    else scan (nextLine line c) (.between (isWord c)) cs
  | .within start read, c :: cs =>
    if c = ';' then (start, (c :: read).reverse) :: scan line (.between false) cs
    else scan (nextLine line c) (.within start (c :: read)) cs

/-- A statement without blanks around it, ended by a semicolon. -/
def terminate (cs : List Char) : String :=
  let cs := trim isBlank cs
  String.ofList (if cs.getLast? = some ';' then cs else cs ++ [';'])

/-- The statements of a text, each with the number of the line it begins on. -/
def statements (text : List Char) : List Statement :=
  (scan 1 (.between false) text).map fun (line, cs) => ⟨line, terminate cs⟩

/-- The first statements of lines that are numbered from the given number on. -/
def firstStatements (line : Nat) : List (List Char) → List Statement
  | [] => []
  | cs :: more =>
    match scan line (.between false) cs with
    | [] => firstStatements (line + 1) more
    | (_, found) :: _ => ⟨line, terminate found⟩ :: firstStatements (line + 1) more

/-- The first statement of every line of a text. -/
def statementsByLine (text : List Char) : List Statement :=
  firstStatements 1 (splitLines text)

/-- The text of a file. -/
def readText (files : Files) (path : String) : Except Failure (List Char) :=
  if path.toList.contains '\x00' then .error .nulInPath
  else
    match files.read path with
    | .error f => .error (.file f)
    | .ok bytes =>
      match Utf8.decode bytes with
      | .error f => .error (.notUtf8 f)
      | .ok cs => .ok (Text.unifyLineEnds cs)

/-- The statements of a script file: separated by semicolons, or one to a line. -/
def ofFile (files : Files) (path : String) (separated : Bool) :
    Except Failure (List Statement) :=
  (readText files path).map fun text =>
    if separated then statements text else statementsByLine text

end QueryPlan.Script
