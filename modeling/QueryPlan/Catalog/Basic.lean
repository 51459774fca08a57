import QueryPlan.Catalog.Descriptor
import QueryPlan.Catalog.Statistics
import QueryPlan.Store.Writing

/-!
# The catalog

The catalog of tables is a directory with two files for each table: `T.schema.json` describes the
columns of table `T` and `T.stat` holds its statistics. Reading either one ends in a value or in a
failure that names the file.

## Main definitions

* `Catalog.loadSchema`, `Catalog.loadStatistics` : read one of the two files of a table.
* `Catalog.storeTable`, `Catalog.writeTable` : write both, as a program over the files and as a
  function of the catalog.
-/

namespace QueryPlan

/-- A directory of tables within a store of files. -/
structure Catalog where
  files : Files := {}
  directory : String := "."
  deriving Inhabited

namespace Catalog

/-- The path of a table's schema descriptor. -/
def schemaPath (c : Catalog) (table : String) : String :=
  Files.joinPath c.directory (table ++ ".schema.json")

/-- The path of a table's statistics. -/
def statisticsPath (c : Catalog) (table : String) : String :=
  Files.joinPath c.directory (table ++ ".stat")

/-- Whether a path holds a null character, which no file name can. -/
def hasNul (path : String) : Bool := path.toList.contains '\x00'

/-- The JSON value of a table's schema descriptor. -/
def readDescriptor (c : Catalog) (table : String) : Except CatalogFault Json :=
  let path := c.schemaPath table
  if hasNul path then .error (.descriptorMalformed .nulInPath)
  else
    match c.files.read path with
    | .error f => .error (.schemaUnreadable table f)
    | .ok bytes =>
      match Descriptor.readJson bytes with
      | .error f => .error (.descriptorMalformed f)
      | .ok value => .ok value

/-- The schema of a table, its attributes qualified by the table. -/
def loadSchema (c : Catalog) (table : String) : Except Failure Schema :=
  let path := c.schemaPath table
  match c.readDescriptor table with
  | .error f => .error (.catalog path f)
  | .ok value =>
    match Descriptor.readSchema table value with
    | .error .overflow => .error .overflow
    | .error (.malformed f) => .error (.catalog path (.descriptorMalformed f))
    | .ok schema =>
      if schema.tupleSize ≤ 0 then .error (.catalog path (.tupleSizeNotPositive table))
      else .ok schema

/-- The statistics of a table with the given number of columns. -/
def loadStatistics (c : Catalog) (table : String) (columns : Int) : Except Failure Statistics :=
  let path := c.statisticsPath table
  if hasNul path then .error .nulInPath
  else
    match c.files.read path with
    | .error f => .error (.catalog path (.statisticsUnreadable f))
    | .ok bytes =>
      match Utf8.decode bytes with
      | .error f => .error (.notUtf8 f)
      | .ok cs =>
        let lines := (Text.splitLines (Text.unifyLineEnds cs)).map String.ofList
        match Statistics.ofLines columns lines with
        | .error f => .error (.catalog path f)
        | .ok statistics => .ok statistics

/-- Writes the two files of a table into the directory of a catalog, which is made if it is missing:
its columns as they are given, the sum of their sizes, and the words for its statistics. -/
def storeTable (c : Catalog) (table : String) (columns : List Json) (tuples : String)
    (distinct : List String) : FilesM Unit := do
  FilesM.makeDirectory c.directory
  let size ← Program.ofExcept (Descriptor.totalSize columns)
  FilesM.writeText (c.schemaPath table) (Descriptor.ofColumns columns size).writeIndented
  FilesM.writeText (c.statisticsPath table) (Statistics.write tuples distinct)

/-- The catalog after a table is written. -/
def writeTable (c : Catalog) (table : String) (columns : List Json) (tuples : String)
    (distinct : List String) : Except Failure Catalog :=
  match (c.storeTable table columns tuples distinct).run c.files with
  | (.ok _, files) => .ok { c with files := files }
  | (.error f, _) => .error f

end Catalog

end QueryPlan
