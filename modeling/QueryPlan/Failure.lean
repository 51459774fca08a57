import QueryPlan.Predicate.Condition
import QueryPlan.Store.Files
import QueryPlan.Text.Utf8

/-!
# Failures

Everything that can go wrong is a `Failure`, a cause with the data that it is about.
`Failure.message` puts it into words; `Failure.summary` does so without what the operating system,
a reader of another format or the text of the query adds to it. `Failure.kind` sorts the causes.
-/

namespace QueryPlan

/-- What is wrong with the contents of a schema descriptor. -/
inductive DescriptorFault
  | missingMember (name : String)
  | badNumeral (text : String)
  | notANumber
  | nulInPath
  | wrongKind
  | unreadable (detail : String)
  deriving Repr, DecidableEq

/-- What is wrong with a file of the catalog. -/
inductive CatalogFault
  | schemaUnreadable (table : String) (cause : FileFault)
  | descriptorMalformed (fault : DescriptorFault)
  | tupleSizeNotPositive (table : String)
  | statisticsUnreadable (cause : FileFault)
  | tooFewLines
  | firstLineTokens (found : Nat)
  | secondLineTokens (found : Nat) (expected : Int)
  | badCount (text : String)
  | negativeCount
  deriving Repr, DecidableEq

/-- What keeps a statement from being planned. -/
inductive QueryFault
  | unparsable
  | notSelect (kind : String)
  | noTables
  | repeatedTable (table : String)
  | unknownTable (qualifier column : String)
  | unsupportedPredicate (predicate : String)
  | noColumnCompared (predicate : String)
  | unsupportedOperand (operand : String)
  | negatedText (operand : String)
  | badNumber (text : String)
  | notAColumn (item : String)
  deriving Repr, DecidableEq

/-- Why an operation has no result. -/
inductive Failure
  | attributeNotFound (a : Attribute)
  | notFlippable (c : Condition)
  | notAJoin (c : Condition)
  | notTwoTables (c : Condition)
  | literalWithoutTable (c : Condition)
  | noSeparator (edge : String)
  | noTables
  | tableNotListed (table : String)
  | attributeWithoutTable (a : Attribute)
  | ambiguousAttribute (a : Attribute) (tables : List String)
  | unmeasuredAttribute (a : Attribute)
  | invalidAlgorithm (code : Int)
  | notPositive (setting : String) (shown : String)
  | badNumeral (text : String)
  | notANumber
  | nulInPath
  | wrongKind
  | catalog (path : String) (fault : CatalogFault)
  | query (fault : QueryFault)
  | notUtf8 (fault : Utf8.Fault)
  | file (fault : FileFault)
  | placeOutOfRange
  | operatorWithoutBase (name : String)
  | overflow
  | divisionByZero
  | endlessMerge
  deriving Repr, DecidableEq

/-- The sorts of failures. -/
inductive FailureKind
  /-- A file of the catalog is missing or malformed. -/
  | catalog
  /-- A value or a statement is not acceptable. -/
  | invalid
  /-- The bytes of a file are no text. -/
  | encoding
  /-- A file cannot be opened. -/
  | file
  /-- A value is of a kind that has no meaning where it stands. -/
  | wrongKind
  /-- A number is too large for its representation. -/
  | overflow
  /-- A divisor is zero. -/
  | divisionByZero
  /-- A place lies outside of a list. -/
  | place
  /-- A part is asked for that is not there. -/
  | missingPart
  /-- A computation has no end. -/
  | endless
  deriving Repr, DecidableEq

/-- The words for an integer that cannot be read. -/
def badNumeralText (text : String) : String :=
  "invalid literal for int() with base 10: " ++ Text.quoted text

/-- The words for a value that is not a number where an integer is needed. -/
def notANumberText : String := "cannot convert float NaN to integer"

/-- The words for a path with a null character. -/
def nulInPathText : String := "embedded null byte"

/-- A colon and a detail. -/
def withDetail (text detail : String) : String := text ++ ": " ++ detail

namespace DescriptorFault

/-- What is wrong, as far as it is said in a summary. -/
def brief? : DescriptorFault → Option String
  | missingMember name => some (Text.quoted name)
  | badNumeral text => some (badNumeralText text)
  | notANumber => some notANumberText
  | nulInPath => some nulInPathText
  | wrongKind => none
  | unreadable _ => none

/-- What is wrong. -/
def detail? : DescriptorFault → Option String
  | unreadable detail => some detail
  | f => f.brief?

end DescriptorFault

namespace CatalogFault

/-- The words for a fault of a file of the catalog. -/
def summary (path : String) : CatalogFault → String
  | schemaUnreadable table _ => "Cannot read schema of table " ++ table
  | descriptorMalformed fault =>
    let text := "Malformed schema descriptor " ++ path
    fault.brief?.elim text (withDetail text)
  | tupleSizeNotPositive table => "Tuple size of table " ++ table ++ " must be positive"
  | statisticsUnreadable _ => "Error in opening file " ++ path
  | tooFewLines => "Incorrect format of statistics file " ++ path ++ ": expected 2 lines"
  | firstLineTokens found =>
    "Incorrect format of statistics file " ++ path ++ ": line 1 has " ++ toString found ++
      " tokens, expected 1"
  | secondLineTokens found expected =>
    "Incorrect format of statistics file " ++ path ++ ": line 2 has " ++ toString found ++
      " tokens, expected " ++ toString expected
  | badCount text =>
    "Incorrect format of statistics file " ++ path ++ ": " ++ badNumeralText text
  | negativeCount => "Negative count in statistics file " ++ path

/-- The words for a fault of a file of the catalog, with what the operating system or the reader of
the format says about it. -/
def message (path : String) : CatalogFault → String
  | schemaUnreadable table cause =>
    withDetail (summary path (schemaUnreadable table cause)) cause.message
  | statisticsUnreadable cause =>
    withDetail (summary path (statisticsUnreadable cause)) cause.message
  | descriptorMalformed fault =>
    let text := "Malformed schema descriptor " ++ path
    fault.detail?.elim text (withDetail text)
  | fault => summary path fault

end CatalogFault

namespace QueryFault

/-- The words for a statement that cannot be planned, without the offending part of it. -/
def summary : QueryFault → String
  | unparsable => "Failed to parse SQL"
  | notSelect kind => "Only SELECT statements are supported, got " ++ kind
  | noTables => "No tables found in query"
  | repeatedTable table =>
    "Table " ++ table ++ " appears more than once; self-joins are not supported"
  | unknownTable qualifier _ => "Unknown table " ++ qualifier
  | unsupportedPredicate _ => "Unsupported predicate"
  | noColumnCompared _ => "Predicate must reference a column"
  | unsupportedOperand _ => "Unsupported comparison operand"
  | negatedText _ => "Cannot negate string literal"
  | badNumber text => "could not convert string to float: " ++ Text.quoted text
  | notAColumn _ => "Only plain columns are supported"

/-- The words for a statement that cannot be planned, with the offending part of it. -/
def message : QueryFault → String
  | unknownTable qualifier column =>
    summary (unknownTable qualifier column) ++ " in column " ++ column
  | unsupportedPredicate p => withDetail (summary (unsupportedPredicate p)) p
  | noColumnCompared p => withDetail (summary (noColumnCompared p)) p
  | unsupportedOperand o => withDetail (summary (unsupportedOperand o)) o
  | negatedText o => withDetail (summary (negatedText o)) o
  | notAColumn item => summary (notAColumn item) ++ ", got " ++ item
  | fault => fault.summary

end QueryFault

namespace Failure

/-- The sort of a failure. -/
def kind : Failure → FailureKind
  | catalog _ _ => .catalog
  | notUtf8 _ => .encoding
  | file _ => .file
  | wrongKind => .wrongKind
  | overflow => .overflow
  | divisionByZero => .divisionByZero
  | placeOutOfRange => .place
  | operatorWithoutBase _ | literalWithoutTable _ | unmeasuredAttribute _ => .missingPart
  | endlessMerge => .endless
  | _ => .invalid

/-- The words for a failure, without details that others add. -/
def summary : Failure → String
  | attributeNotFound a => "Attribute " ++ a.render ++ " not found in schema"
  | notFlippable c => "Cannot flip selection condition " ++ c.render
  | notAJoin c => "Not a join condition: " ++ c.render
  | notTwoTables c => "Join condition must relate two tables: " ++ c.render
  | literalWithoutTable c => "A literal has no table: " ++ c.render
  | noSeparator _ => "not enough values to unpack (expected 2, got 1)"
  | noTables => "Cannot build a plan without tables"
  | tableNotListed table => "Table " ++ table ++ " is not in the FROM list"
  | attributeWithoutTable a =>
    "Attribute " ++ a.render ++ " does not belong to any table in the FROM list"
  | ambiguousAttribute a tables =>
    "Attribute " ++ a.render ++ " is ambiguous: found in " ++ String.intercalate ", " tables
  | unmeasuredAttribute a => "No distinct count for attribute " ++ a.render
  | invalidAlgorithm code => toString code ++ " is not a valid JoinAlgorithm"
  | notPositive setting shown => setting ++ " must be a positive integer, got " ++ shown
  | badNumeral text => badNumeralText text
  | notANumber => notANumberText
  | nulInPath => nulInPathText
  | wrongKind => "A value is of the wrong kind"
  | catalog path fault => fault.summary path
  | query fault => fault.summary
  | notUtf8 fault => fault.message
  | file fault => fault.message
  | placeOutOfRange => "Place out of range"
  | operatorWithoutBase name => "Operator " ++ name ++ " has no base"
  | overflow => "Number too large"
  | divisionByZero => "Division by zero"
  | endlessMerge => "Merging one run at a time never ends"

/-- The words for a failure. -/
def message : Failure → String
  | catalog path fault => fault.message path
  | query fault => fault.message
  | f => f.summary

/-- The file that a failure of the catalog is about. -/
def path? : Failure → Option String
  | catalog path _ => some path
  | _ => none

end Failure

end QueryPlan
