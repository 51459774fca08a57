import QueryPlan.Json.Value
import QueryPlan.Number.RealText
import QueryPlan.Text.Quoted

/-!
# Writing JSON

`Json.write` writes a value on one line or indented by two blanks a level, with all characters
outside of printable ASCII escaped. `Json.plain` is the text of a value where it stands as a bare
word, and `Json.shown` the text of a value in a message, where texts are in quotes.
-/

namespace QueryPlan.Json

open Text

/-- The escape of a code unit. -/
def escapeUnit (n : Nat) : List Char := '\\' :: 'u' :: hexDigits 4 n

/-- A character between the double quotes of a JSON string. -/
def escapeChar (c : Char) : List Char :=
  let n := c.toNat
  if c = '"' || c = '\\' then ['\\', c]
  else if c = '\n' then ['\\', 'n']
  else if c = '\r' then ['\\', 'r']
  else if c = '\t' then ['\\', 't']
  else if n = 0x8 then ['\\', 'b']
  else if n = 0xc then ['\\', 'f']
  else if 0x20 ≤ n && n ≤ 0x7e then [c]
  else if n < 0x10000 then escapeUnit n
  else
    escapeUnit (0xd800 + (n - 0x10000) / 0x400) ++ escapeUnit (0xdc00 + (n - 0x10000) % 0x400)

/-- A JSON string. -/
def writeString (s : String) : String :=
  String.ofList ('"' :: s.toList.flatMap escapeChar ++ ['"'])

/-- The JSON text of a double. -/
def writeReal : Binary64 → String
  | .infinite negative => if negative then "-Infinity" else "Infinity"
  | .notNumber => "NaN"
  | x => x.render

/-- Where the items of a list or an object are written. -/
inductive Layout
  /-- All on one line. -/
  | compact
  /-- Each on a line of its own, at the given depth. -/
  | indented (depth : Nat)

/-- The layout of nested items. -/
def Layout.deeper : Layout → Layout
  | .compact => .compact
  | .indented depth => .indented (depth + 1)

/-- What stands before an item. -/
def Layout.lineBreak : Layout → String
  | .compact => ""
  | .indented depth => "\n" ++ String.ofList (List.replicate (2 * depth) ' ')

/-- What stands between two items, apart from the line break. -/
def Layout.colon : Layout → String
  | .compact => ":"
  | .indented _ => ": "

mutual

/-- The JSON text of a value. -/
def writeWith (layout : Layout) : Json → String
  | .null => "null"
  | .bool b => if b then "true" else "false"
  | .int n => toString n
  | .real x => writeReal x
  | .str s => writeString s
  | .arr [] => "[]"
  | .arr (item :: items) =>
    "[" ++ layout.deeper.lineBreak ++ writeWith layout.deeper item ++
      writeItems layout.deeper items ++ layout.lineBreak ++ "]"
  | .obj [] => "\x7b\x7d"
  | .obj ((name, value) :: members) =>
    "\x7b" ++ layout.deeper.lineBreak ++ writeString name ++ layout.colon ++
      writeWith layout.deeper value ++ writeMembers layout.deeper members ++
      layout.lineBreak ++ "\x7d"

/-- The items of an array after the first. -/
def writeItems (layout : Layout) : List Json → String
  | [] => ""
  | item :: items => "," ++ layout.lineBreak ++ writeWith layout item ++ writeItems layout items

/-- The members of an object after the first. -/
def writeMembers (layout : Layout) : List (String × Json) → String
  | [] => ""
  | (name, value) :: members =>
    "," ++ layout.lineBreak ++ writeString name ++ layout.colon ++ writeWith layout value ++
      writeMembers layout members

end

/-- The JSON text of a value, indented by two blanks a level. -/
def writeIndented (value : Json) : String := writeWith (.indented 0) value

/-- The JSON text of a value on one line. -/
def writeCompact (value : Json) : String := writeWith .compact value

mutual

/-- The text of a value in a message. -/
def shown : Json → String
  | .null => "None"
  | .bool b => if b then "True" else "False"
  | .int n => toString n
  | .real x => x.render
  | .str s => quoted s
  | .arr [] => "[]"
  | .arr (item :: items) => "[" ++ shown item ++ shownItems items ++ "]"
  | .obj [] => "\x7b\x7d"
  | .obj ((name, value) :: members) =>
    "\x7b" ++ quoted name ++ ": " ++ shown value ++ shownMembers members ++ "\x7d"

/-- The items of an array after the first, in a message. -/
def shownItems : List Json → String
  | [] => ""
  | item :: items => ", " ++ shown item ++ shownItems items

/-- The members of an object after the first, in a message. -/
def shownMembers : List (String × Json) → String
  | [] => ""
  | (name, value) :: members => ", " ++ quoted name ++ ": " ++ shown value ++ shownMembers members

end

/-- The text of a value as a bare word: a text stands for itself. -/
def plain : Json → String
  | .str s => s
  | value => value.shown

end QueryPlan.Json
