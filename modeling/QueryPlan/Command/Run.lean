import QueryPlan.Command.Options
import QueryPlan.Random.Draws
import QueryPlan.Report.Batch
import QueryPlan.Script.Statements
import QueryPlan.Sql.Reader.Statement

/-!
# Running the command

The command reads a script of statements, builds and estimates a plan for each of them, and writes a
report. It is a function of its arguments and a snapshot of the files, for any reader of statements;
what it prints, its exit code and the files that it leaves are its result. A failure that no report
can hold is its result instead.

The report is opened, and so emptied, before the first statement is processed, and written at the
end.

## Main definitions

* `Command.Result` : what a run of the command leaves behind.
* `Command.run` : a run of the command.
-/

namespace QueryPlan

namespace Command

/-- What a run of the command leaves behind: its exit code, what it prints to both channels, and the
files. -/
structure Result where
  exit : Nat := 0
  out : String := ""
  err : String := ""
  files : Files
  deriving Inhabited

/-- How the command is used. -/
def usage (program : String) : String :=
  let option (o : OptionName) : String :=
    "[" ++ o.spellings.headD "" ++ (if o.isFlag then "]" else " VALUE]")
  "usage: " ++ program ++ " " ++ String.intercalate " " (OptionName.all.map option) ++
    " input_file\n"

/-- The settings that options ask for. -/
def settings (o : Options) : Except Failure Settings :=
  Settings.ofValues (.int o.pageSize) (.int o.numBuffers) (.int o.buffersPerJoin)

/-- The words for an input file that cannot be opened. -/
def inputFaultText (input : String) (f : FileFault) : String :=
  match f.reason with
  | .missing => "ERROR: File not found: " ++ input ++ "\n"
  | _ => "ERROR: Failed to read input file: " ++ f.message ++ "\n"

/-- The warnings among events, or all of them, as they are logged. -/
def logText (verbose : Bool) (events : List Event) : String :=
  String.join
    (if verbose then events.map fun e => e.line ++ "\n"
    else (Event.atLeast .warning events).map fun e => e.text ++ "\n")

/-- What is said at the end of a batch of the given number of statements. -/
def summaryText (o : Options) (total : Nat) (b : Batch) : String :=
  "\nCompleted: " ++ toString b.rows.length ++ "/" ++ toString total ++ " queries\n" ++
    (if b.errors.isEmpty then ""
    else "Errors: " ++ toString b.errors.length ++ " queries failed\n") ++
    "Output written to: " ++ o.output ++ "\n"

/-- What is said of a batch as a whole. -/
def closingText (o : Options) (total : Nat) (b : Batch) : String :=
  match b.ending with
  | .stopped => "\nStopping due to error (--stop-on-error enabled)\n"
  | _ => summaryText o total b

/-- The batch of the statements, over the files as they are once the report is opened. -/
def batch [Sql.Reader] (o : Options) (settings : Settings) (draws : Draws) (files : Files)
    (statements : List Script.Statement) : Batch :=
  let catalog : Catalog := { files := files, directory := o.catalog }
  let step (s : Session) (id : Nat) (text : String) :=
    s.run (SessionM.process id o.dialect text)
  Batch.run step o.stopOnError 1 statements (Session.start catalog settings draws)

/-- Opens the report, processes the statements and writes the report. -/
def report [Sql.Reader] (o : Options) (settings : Settings) (draws : Draws) (files : Files)
    (statements : List Script.Statement) : Except Failure Result :=
  if o.output.toList.contains '\x00' then .error .nulInPath
  else
    match files.write o.output "".toUTF8 with
    | .error f =>
      .ok { exit := 1, err := "\nERROR: Failed to write output file: " ++ f.message ++ "\n",
            files := files }
    | .ok opened =>
      let b := batch o settings draws opened statements
      match b.ending, opened.write o.output b.table.toUTF8 with
      | .aborted f, _ => .error f
      | _, .error f => .error (.file f)
      | ending, .ok written =>
        .ok {
          exit := match ending with | .stopped => 1 | _ => 0
          out := b.text o.verbose ++ closingText o statements.length b
          err := logText o.verbose b.events
          files := written }

/-- Carries out what the options ask for. -/
def runOptions [Sql.Reader] (o : Options) (unseeded : Draws) (files : Files) :
    Except Failure Result :=
  match settings o with
  | .error f => .ok { exit := 2, err := "ERROR: " ++ f.message ++ "\n", files := files }
  | .ok settings =>
    match Script.ofFile files o.input o.separated with
    | .error (.file f) => .ok { exit := 1, err := inputFaultText o.input f, files := files }
    | .error f => .error f
    | .ok [] =>
      .ok { err := "WARNING: No queries found in " ++ o.input ++ "\n", files := files }
    | .ok statements => report o settings (o.seed.elim unseeded Draws.ofSeed) files statements

/-- A run of the command under the given name. Without a seed, the algorithms of joins are drawn
from `unseeded`. -/
def run [Sql.Reader] (program : String) (arguments : List String) (unseeded : Draws)
    (files : Files) : Except Failure Result :=
  match Options.parse arguments with
  | .error f =>
    .ok { exit := 2, err := usage program ++ program ++ ": error: " ++ f.message ++ "\n",
          files := files }
  | .ok .help => .ok { out := usage program, files := files }
  | .ok (.run o) => runOptions o unseeded files

/-- The files of the catalog that the statements of a script need. -/
def catalogPaths [Sql.Reader] (o : Options) (statements : List Script.Statement) : List String :=
  let catalog : Catalog := { directory := o.catalog }
  let tables := statements.flatMap fun s =>
    match Query.ofText o.dialect s.text with
    | .ok q => q.tables
    | .error _ => []
  tables.eraseDups.flatMap fun t => [catalog.schemaPath t, catalog.statisticsPath t]

/-- Those who run the command have statements read by the standard reader. -/
instance : Sql.Reader := Sql.standardReader

end Command

end QueryPlan
