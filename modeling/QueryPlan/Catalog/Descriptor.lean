import QueryPlan.Failure
import QueryPlan.Json.Printer
import QueryPlan.Json.Reader
import QueryPlan.Json.Value
import QueryPlan.Relation.Schema
import QueryPlan.Text.Characters

/-!
# Schema descriptors

A schema descriptor is a JSON object with the list `attributes` of the columns of a table and,
perhaps, its `tuple_size`, which otherwise is the sum of the sizes. A column is an object with a
`name` and, perhaps, a `type` and a `size`; sizes are whatever stands for an integer. Names and
types are texts: where another value stands in place of one, the column goes by the text of that
value.
-/

namespace QueryPlan

namespace Descriptor

/-- What keeps a descriptor from being read: its form, or a size that is infinite. -/
inductive Trouble
  | malformed (fault : DescriptorFault)
  | overflow
  deriving Repr, DecidableEq

/-- The size that a value stands for. -/
def readSize (value : Json) : Except Trouble Int :=
  match value.toInteger with
  | .ok n => .ok n
  | .error (.badNumeral text) => .error (.malformed (.badNumeral text))
  | .error .notANumber => .error (.malformed .notANumber)
  | .error .infinite => .error .overflow
  | .error .wrongKind => .error (.malformed .wrongKind)

/-- The column of a table that a value describes. -/
def readColumn (table : String) : Json → Except Trouble Attribute
  | .obj members =>
    match Json.member? "name" members with
    | none => .error (.malformed (.missingMember "name"))
    | some name =>
      let type := ((Json.member? "type" members).map Json.plain).getD "INTEGER"
      (readSize ((Json.member? "size" members).getD (.int 4))).map fun size =>
        { table := some table, name := name.plain, type := type, size := size }
  | _ => .error (.malformed .wrongKind)

/-- The columns that values describe; the first one that describes none is reported. -/
def readColumns (table : String) : List Json → Except Trouble (List Attribute)
  | [] => .ok []
  | value :: values =>
    match readColumn table value with
    | .error t => .error t
    | .ok a => (readColumns table values).map (a :: ·)

/-- The items of a list of columns. An object or a text has items only if it is not empty, and none
of them describes a column. -/
def columnItems : Json → Except Trouble (List Json)
  | .arr items => .ok items
  | .obj [] => .ok []
  | .str s => if s = "" then .ok [] else .error (.malformed .wrongKind)
  | _ => .error (.malformed .wrongKind)

/-- The schema of a table that a value describes, its columns qualified by the table. -/
def readSchema (table : String) : Json → Except Trouble Schema
  | .obj members =>
    match Json.member? "attributes" members with
    | none => .error (.malformed (.missingMember "attributes"))
    | some list => do
      let columns ← columnItems list
      let attributes ← readColumns table columns
      let size ← readSize ((Json.member? "tuple_size" members).getD (.int (Schema.totalSize attributes)))
      return ⟨attributes, size⟩
  | _ => .error (.malformed .wrongKind)

/-- The JSON value in the bytes of a file. -/
def readJson (bytes : ByteArray) : Except DescriptorFault Json :=
  match Utf8.decode bytes with
  | .error f => .error (.unreadable f.message)
  | .ok cs =>
    let text := Text.unifyLineEnds cs
    match Json.read text with
    | .error f => .error (.unreadable (f.message text))
    | .ok value => .ok value

/-- The sum of the sizes of columns that are going to be written. -/
def totalSize : List Json → Except Failure Int
  | [] => .ok 0
  | .obj members :: columns =>
    match ((Json.member? "size" members).getD (.int 4)).toInteger with
    | .ok n => (totalSize columns).map (n + ·)
    | .error (.badNumeral text) => .error (.badNumeral text)
    | .error .notANumber => .error .notANumber
    | .error .infinite => .error .overflow
    | .error .wrongKind => .error .wrongKind
  | _ :: _ => .error .wrongKind

/-- The descriptor of the given columns. -/
def ofColumns (columns : List Json) (tupleSize : Int) : Json :=
  .obj [("attributes", .arr columns), ("tuple_size", .int tupleSize)]

end Descriptor

end QueryPlan
