import QueryPlan.Plan.Rendering
import QueryPlan.Session

/-!
# Report tables

The rows of a report as comma-separated records under a header. A record is a line of fields between
commas, ended by a carriage return and a line feed. A field that holds a comma, a double quote or a
line end is put in double quotes, in which every double quote is written twice.

## Main definitions

* `Csv.write` : a header and records as they are written.
* `Row.header`, `Row.fields` : the columns of a report, and a row in them.
* `reportText` : the report of some rows.
-/

namespace QueryPlan

namespace Csv

/-- Whether a character can stand in a field only between quotes. -/
def isSpecial (c : Char) : Bool := c = ',' || c = '"' || c = '\r' || c = '\n'

/-- Doubles the double quotes. -/
def doubleQuotes (cs : List Char) : List Char :=
  cs.flatMap fun c => if c = '"' then ['"', '"'] else [c]

/-- A field as it is written. -/
def writeField (s : String) : String :=
  if s.toList.any isSpecial then String.ofList ('"' :: doubleQuotes s.toList ++ ['"']) else s

/-- A record as it is written. -/
def writeRecord (fields : List String) : String :=
  String.intercalate "," (fields.map writeField) ++ "\r\n"

/-- A table as it is written: its header and its records. -/
def write (header : List String) (records : List (List String)) : String :=
  String.join ((header :: records).map writeRecord)

end Csv

/-- The names of the columns of a report. -/
def Row.header : List String := ["query_id", "joins", "cost", "cardinality", "plan"]

/-- The fields of a row. -/
def Row.fields (r : Row) : List String :=
  [toString r.id, toString r.joins, costText r.cost, toString r.cardinality, r.plan.renderInline]

/-- The report of some rows. -/
def reportText (rows : List Row) : String := Csv.write Row.header (rows.map Row.fields)

end QueryPlan
