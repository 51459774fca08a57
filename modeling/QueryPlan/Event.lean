import QueryPlan.Join.Algorithm

/-!
# Events

Reading the catalog, building a plan and estimating it record what they do as events. Every event
has a level, the part of the library that records it, and a text.
-/

namespace QueryPlan

/-- How much attention an event asks for. -/
inductive Level
  | debug
  | info
  | warning
  deriving Repr, DecidableEq, Inhabited

namespace Level

/-- The name of a level. -/
def name : Level → String
  | debug => "DEBUG"
  | info => "INFO"
  | warning => "WARNING"

/-- The rank of a level. -/
def rank : Level → Nat
  | debug => 0
  | info => 1
  | warning => 2

end Level

/-- Something worth recording. -/
inductive Event
  /-- A schema was read: its table, its number of columns and the bytes per tuple. -/
  | schemaLoaded (table : String) (columns : Nat) (tupleSize : Int)
  /-- The scans of a plan were made. -/
  | scansCreated (count : Nat)
  /-- A pair of tables was joined. -/
  | joined (place : Nat) (left right : String) (algorithm : JoinAlgorithm)
  /-- The conditions of a pair of tables that were joined before were applied as selections. -/
  | appliedAsSelections (left right : String) (count : Nat)
  /-- Some tables are not under the root of the plan. -/
  | disconnected (groups : Nat) (missing : List String)
  /-- An operator was estimated. -/
  | estimated (operator : String) (cardinality cost : Int)
  /-- The cost of a sort-merge join, which is not charged. -/
  | notCharged (sort merge : Int)
  /-- An operation has fewer buffers than it needs. -/
  | insufficientBuffers (operation : String) (buffers needed : Nat)
  /-- A join has a code that no algorithm has. -/
  | unsupportedAlgorithm (code : Int)
  /-- An operator cannot be estimated. -/
  | unsupportedOperator (operator : String)
  /-- A plan cannot be carried out. -/
  | infeasible
  /-- A query was read. -/
  | queryRead (id : Int) (summary : String)
  deriving Repr, DecidableEq

namespace Event

/-- The level of an event. -/
def level : Event → Level
  | schemaLoaded .. | scansCreated .. | joined .. | appliedAsSelections .. | estimated ..
  | notCharged .. | queryRead .. => .debug
  | infeasible => .info
  | disconnected .. | insufficientBuffers .. | unsupportedAlgorithm ..
  | unsupportedOperator .. => .warning

/-- The part of the library that records an event. -/
def source : Event → String
  | schemaLoaded .. => "catalog"
  | scansCreated .. | joined .. | appliedAsSelections .. | disconnected .. => "initial_plan"
  | estimated .. | notCharged .. | insufficientBuffers .. | unsupportedAlgorithm ..
  | unsupportedOperator .. | infeasible => "plan_cost"
  | queryRead .. => "main"

/-- The words for an event. -/
def text : Event → String
  | schemaLoaded table columns tupleSize =>
    "Loaded schema of " ++ table ++ ": " ++ toString columns ++ " columns, " ++
      toString tupleSize ++ " bytes/tuple"
  | scansCreated count => "Created " ++ toString count ++ " scans"
  | joined place left right algorithm =>
    "Join " ++ toString place ++ ": " ++ left ++ " with " ++ right ++ " using " ++ algorithm.name
  | appliedAsSelections left right count =>
    "Tables " ++ left ++ " and " ++ right ++ " already joined; applied " ++ toString count ++
      " conditions as selections"
  | disconnected groups missing =>
    "Plan is disconnected (" ++ toString groups ++
      " join groups); tables not under the root: " ++ String.intercalate ", " missing
  | estimated operator cardinality cost =>
    operator ++ ": cardinality=" ++ toString cardinality ++ ", cost so far=" ++ toString cost
  | notCharged sort merge =>
    "Sort-merge join: sort=" ++ toString sort ++ " merge=" ++ toString merge ++ " not charged"
  | insufficientBuffers operation buffers needed =>
    "Insufficient buffers for " ++ operation ++ ": " ++ toString buffers ++ " < " ++
      toString needed
  | unsupportedAlgorithm code =>
    "Join algorithm is not supported: " ++ JoinAlgorithm.nameOfCode code
  | unsupportedOperator operator => "Operator is not supported: " ++ operator
  | infeasible => "Plan is not feasible"
  | queryRead id summary => "Query " ++ toString id ++ ": " ++ summary

/-- The line that is logged for an event. -/
def line (e : Event) : String := e.level.name ++ " " ++ e.source ++ ": " ++ e.text

/-- The events that ask for at least the attention of the given level. -/
def atLeast (level : Level) (events : List Event) : List Event :=
  events.filter fun e => level.rank ≤ e.level.rank

end Event

end QueryPlan
