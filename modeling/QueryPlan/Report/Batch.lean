import QueryPlan.Report.Table
import QueryPlan.Script.Statements

/-!
# Batches

A batch processes the statements of a script one after the other. Each of them ends in a row or in
an error, which is reported with the line of its statement; a batch may be told to stop at the first
error. A failure that is neither the catalog's nor the statement's aborts the batch.

## Main definitions

* `Batch.run` : processes statements with a step, given as a function of the state, the number and
  the text of a statement.
* `Batch.rows`, `Batch.errors`, `Batch.lines`, `Batch.table` : what a batch reports.
-/

namespace QueryPlan

/-- What became of a statement. -/
inductive Entry
  | row (r : Row)
  | error (line : Nat) (text : String) (failure : Failure)
  deriving Repr, Inhabited

/-- How a batch ended. -/
inductive Ending
  | finished
  | stopped
  | aborted (failure : Failure)
  deriving Repr, Inhabited

/-- The entries of a batch, the events recorded, and how it ended. -/
structure Batch where
  entries : List Entry := []
  events : List Event := []
  ending : Ending := .finished
  deriving Repr, Inhabited

/-- Whether a failure is reported as an error of its statement. -/
def Failure.isReported (f : Failure) : Bool :=
  match f.kind with
  | .catalog | .invalid | .encoding => true
  | _ => false

namespace Batch

/-- A batch with an entry and events before it. -/
def after (e : Entry) (events : List Event) (b : Batch) : Batch :=
  { b with entries := e :: b.entries, events := events ++ b.events }

/-- Processes statements, the first of which has the number `id`. -/
def run {σ : Type} (step : σ → Nat → String → Except Failure Row × σ × List Event) (stop : Bool) :
    (id : Nat) → List Script.Statement → σ → Batch
  | _, [], _ => {}
  | id, statement :: statements, s =>
    match step s id statement.text with
    | (.ok r, s, events) => (run step stop (id + 1) statements s).after (.row r) events
    | (.error f, s, events) =>
      if f.isReported then
        let e := Entry.error statement.line statement.text f
        if stop then { entries := [e], events := events, ending := .stopped }
        else (run step stop (id + 1) statements s).after e events
      else { events := events, ending := .aborted f }

/-- The rows of a batch. -/
def rows (b : Batch) : List Row :=
  b.entries.filterMap fun
    | .row r => some r
    | _ => none

/-- The lines of the statements that failed, and why they did. -/
def errors (b : Batch) : List (Nat × Failure) :=
  b.entries.filterMap fun
    | .error line _ f => some (line, f)
    | _ => none

/-- The report of a batch. -/
def table (b : Batch) : String := reportText b.rows

/-- How much of a failed statement is shown. -/
def excerptLength : Nat := 100

/-- What is said of an entry. -/
def entryText (verbose : Bool) : Entry → String
  | .row r =>
    if verbose then
      "Query " ++ toString r.id ++ ": cost=" ++ costText r.cost ++ " cardinality=" ++
        toString r.cardinality ++ "\n" ++ r.plan.render ++ "\n"
    else ""
  | .error line text f =>
    "ERROR at line " ++ toString line ++ ": " ++ f.message ++ "\n" ++
      (if verbose then
        "  Query: " ++ String.ofList (text.toList.take excerptLength) ++ "...\n"
      else "")

/-- What is said of all entries. -/
def text (verbose : Bool) (b : Batch) : String :=
  String.join (b.entries.map (entryText verbose))

end Batch

end QueryPlan
