import Mathlib
import QueryPlan.Command.Run
import QueryPlan.Proofs.Report.Batches
import QueryPlan.Proofs.Report.Tables
import QueryPlan.Proofs.Session.Queries
import QueryPlan.Proofs.Store.Files

/-!
# The accounts of the command

The command numbers all statements that it reads, in order. Its report has a record for every
statement that returns a row, with the number of that statement, and what it prints has an error for
every other one. When it is told to stop at errors, the report has the rows before the first
statement that fails, and the exit code says whether one did.

## Main definitions

* `Command.trial` : the statements of a run with their outcomes.
* `Command.IsReport` : a file is the report of some statements.

## Main results

* `SessionM.id_of_process` : a row carries the number that its query was given.
* `Command.run_accounts` : the report, the errors and the exit code of a run.
-/

namespace QueryPlan

namespace SessionM

theorem run_bind_eq_ok {α β : Type} {m : SessionM α} {f : α → SessionM β} {s u : Session} {b : β} :
    (m >>= f).run.run s = (.ok b, u) ↔
      ∃ a t, m.run.run s = (.ok a, t) ∧ (f a).run.run t = (.ok b, u) := by
  rw [run_bind]
  rcases m.run.run s with ⟨_ | a, t⟩
  · exact ⟨nofun, fun ⟨_, _, h, _⟩ => nomatch h⟩
  · refine ⟨fun h => ⟨a, t, rfl, h⟩, ?_⟩
    rintro ⟨a', t', heq, h⟩
    cases heq
    exact h

/-- A row carries the number that its query was given. -/
theorem id_of_process [Sql.Reader] {id : Int} {dialect text : String} {s : Session} {r : Row}
    (h : (s.run (process id dialect text)).1 = .ok r) : r.id = id := by
  obtain ⟨u, hrun⟩ : ∃ u, (process id dialect text).run.run { s with events := [] } = (.ok r, u) :=
    ⟨_, Prod.ext h rfl⟩
  obtain ⟨q, _, -, hrun⟩ := run_bind_eq_ok.1 hrun
  obtain ⟨_, _, -, hrun⟩ := run_bind_eq_ok.1 hrun
  obtain ⟨p, _, -, hrun⟩ := run_bind_eq_ok.1 hrun
  obtain ⟨e, _, -, hrun⟩ := run_bind_eq_ok.1 hrun
  obtain ⟨_, _, -, hrun⟩ := run_bind_eq_ok.1 hrun
  obtain rfl := Except.ok.inj (congrArg Prod.fst hrun)
  rfl

end SessionM

namespace Command

/-- The outcomes of the statements, over the files as they are once the report is opened. -/
def trial [Sql.Reader] (o : Options) (settings : Settings) (draws : Draws) (files : Files)
    (statements : List Script.Statement) : Trial :=
  let catalog : Catalog := { files := files, directory := o.catalog }
  let step (s : Session) (id : Nat) (text : String) :=
    s.run (SessionM.process id o.dialect text)
  Batch.trial step 1 statements (Session.start catalog settings draws)

/-- The table of the rows that statements returned: a record for every row under a header, with the
number of the statement in the first field. -/
def reportTable (completed : List (Nat × Row)) : List (List String) :=
  ["query_id", "joins", "cost", "cardinality", "plan"] ::
    completed.map fun (number, r) =>
      [toString number, toString r.joins, costText r.cost, toString r.cardinality,
        r.plan.renderInline]

/-- A file is the report of statements: it holds the text of their rows, which is read as the table
of the rows with the numbers of their statements. -/
def IsReport (files : Files) (path : String) (t : Trial) : Prop :=
  files.read path = .ok (reportText t.rows).toUTF8 ∧
    Csv.read? (reportText t.rows) = some (reportTable t.completed)

/-- What is printed of a statement that fails. -/
def errorLine (e : Nat × Failure) : String :=
  "ERROR at line " ++ toString e.1 ++ ": " ++ e.2.message ++ "\n"

/-- What is printed at the end: how many statements of all returned a row, and how many failed. -/
def tally (completed failed : Nat) (output : String) : String :=
  "\nCompleted: " ++ toString completed ++ "/" ++ toString (completed + failed) ++ " queries\n" ++
    (if failed = 0 then "" else "Errors: " ++ toString failed ++ " queries failed\n") ++
    "Output written to: " ++ output ++ "\n"

variable {o : Options} {chosen : Settings} {draws : Draws} {files opened : Files}
  {statements : List Script.Statement}

/-! ### What is in the report -/

/-- The report of rows that carry the numbers of their statements is read back with them. -/
theorem read?_reportText {t : Trial} (h : t.Numbered) :
    Csv.read? (reportText t.rows) = some (reportTable t.completed) := by
  have hfields : t.rows.map Row.fields = t.completed.map fun (number, r) =>
      [toString number, toString r.joins, costText r.cost, toString r.cardinality,
        r.plan.renderInline] := by
    rw [← Trial.map_snd_completed, List.map_map]
    refine List.map_congr_left fun x hx => ?_
    rw [Function.comp_apply, Row.fields, h.id_of_mem_completed hx]
    rfl
  rw [reportText, Csv.read?_write, hfields]
  · rfl
  · intro fields hmem
    obtain rfl | hmem := List.mem_cons.1 hmem
    · exact List.cons_ne_nil _ _
    · obtain ⟨r, -, rfl⟩ := List.mem_map.1 hmem
      exact List.cons_ne_nil _ _

theorem map_fst_trial [Sql.Reader] (o : Options) (chosen : Settings) (draws : Draws)
    (opened : Files) (statements : List Script.Statement) :
    (trial o chosen draws opened statements).map Prod.fst = statements :=
  Batch.map_fst_trial

/-- The row of a statement carries its position among all statements. -/
theorem numbered_trial [Sql.Reader] (o : Options) (chosen : Settings) (draws : Draws)
    (opened : Files) (statements : List Script.Statement) :
    (trial o chosen draws opened statements).Numbered := by
  intro i statement r h
  rw [Batch.id_of_trial (fun _ _ _ _ hr => SessionM.id_of_process hr) h, add_comm]
  rfl

/-! ### What is printed -/

/-- Unless more is asked for, what is printed of the statements is their errors. -/
theorem text_of_entries {b : Batch} {t : Trial} (h : b.entries = t.map Entry.of) :
    b.text false = String.join (t.errors.map errorLine) := by
  rw [Batch.text, h]
  clear h
  induction t with
  | nil => rfl
  | cons x t ih =>
    obtain ⟨statement, f | r⟩ := x
    · have herror : Batch.entryText false (Entry.of (statement, .error f)) =
          errorLine (statement.line, f) := String.append_empty
      rw [List.map_cons, List.map_cons, String.join_cons, ih, herror, Trial.errors_cons_error,
        List.map_cons, String.join_cons]
    · have hrow : Batch.entryText false (Entry.of (statement, .ok r)) = "" := rfl
      rw [List.map_cons, List.map_cons, String.join_cons, ih, hrow, Trial.errors_cons_ok,
        String.empty_append]

theorem summaryText_eq_tally {b : Batch} {t : Trial} (h : b.entries = t.map Entry.of) :
    summaryText o t.length b = tally t.rows.length t.errors.length o.output := by
  unfold summaryText tally
  rw [Batch.rows_of_entries h, Batch.errors_of_entries h, Trial.length_rows_add_length_errors]
  cases t.errors <;> rfl

/-! ### The result of a run -/

/-- A report that can be opened is written, if all failures are ones that it can hold. -/
theorem report_returns [Sql.Reader] (hnul : '\x00' ∉ o.output.toList)
    (hopen : files.write o.output "".toUTF8 = .ok opened)
    (hending : ∀ f, (batch o chosen draws opened statements).ending ≠ .aborted f) :
    let b := batch o chosen draws opened statements
    ∃ r, report o chosen draws files statements = .ok r ∧
      r.files.read o.output = .ok (reportText b.rows).toUTF8 ∧
      r.out = b.text o.verbose ++ closingText o statements.length b ∧
      r.exit = match b.ending with | .stopped => 1 | _ => 0 := by
  intro b
  obtain ⟨written, hwritten⟩ := Files.exists_write_of_write hopen b.table.toUTF8
  rw [report, if_neg (by simpa using hnul), hopen]
  dsimp only
  rw [show batch o chosen draws opened statements = b from rfl] at hending ⊢
  rw [hwritten]
  cases hb : b.ending with
  | aborted f => exact absurd hb (hending f)
  | finished => exact ⟨_, rfl, Files.read_of_write hwritten, rfl, rfl⟩
  | stopped => exact ⟨_, rfl, Files.read_of_write hwritten, rfl, rfl⟩

/-- A batch that goes on leaves the whole account in the report and in what is printed. -/
theorem report_going_on [Sql.Reader] (hnul : '\x00' ∉ o.output.toList)
    (hopen : files.write o.output "".toUTF8 = .ok opened) (hgoes : o.stopOnError = false)
    (hreported : (trial o chosen draws opened statements).Reported) :
    let t := trial o chosen draws opened statements
    ∃ (r : Result) (b : Batch), report o chosen draws files statements = .ok r ∧ r.exit = 0 ∧
      IsReport r.files o.output t ∧
      b.entries = t.map Entry.of ∧ b.rows = t.rows ∧ b.errors = t.errors ∧
      r.out = b.text o.verbose ++ tally t.rows.length t.errors.length o.output := by
  intro t
  obtain ⟨hentries, hfinished⟩ : (batch o chosen draws opened statements).entries = t.map Entry.of ∧
      (batch o chosen draws opened statements).ending = .finished := by
    rw [batch, hgoes]
    exact Batch.run_going_on hreported
  obtain ⟨r, hreport, hread, hout, hexit⟩ := report_returns hnul hopen fun f => by
    rw [hfinished]
    exact nofun
  have hrows := Batch.rows_of_entries hentries
  have hlength : statements.length = t.length := by
    rw [← map_fst_trial o chosen draws opened statements, List.length_map]
  rw [hrows] at hread
  rw [hfinished] at hexit
  rw [closingText, hfinished, hlength, summaryText_eq_tally hentries] at hout
  exact ⟨r, _, hreport, hexit, ⟨hread, read?_reportText (numbered_trial _ _ _ _ _)⟩, hentries,
    hrows, Batch.errors_of_entries hentries, hout⟩

/-- A batch that stops leaves the rows up to the first error in the report. -/
theorem report_stopping [Sql.Reader] (hnul : '\x00' ∉ o.output.toList)
    (hopen : files.write o.output "".toUTF8 = .ok opened) (hstops : o.stopOnError = true)
    (hreported : (trial o chosen draws opened statements).Reported) :
    let t := trial o chosen draws opened statements
    ∃ r, report o chosen draws files statements = .ok r ∧
      r.exit = (if t.errors = [] then 0 else 1) ∧ IsReport r.files o.output t.beforeFailure := by
  intro t
  obtain ⟨hrows, hending⟩ :
      (batch o chosen draws opened statements).rows = t.beforeFailure.rows ∧
        (batch o chosen draws opened statements).ending =
          if t.errors = [] then .finished else .stopped := by
    rw [batch, hstops]
    exact ⟨Batch.rows_run_stopping hreported, (Batch.run_stopping hreported).2⟩
  obtain ⟨r, hreport, hread, -, hexit⟩ := report_returns hnul hopen fun f => by
    rw [hending]
    split <;> simp
  rw [hrows] at hread
  have hnumbered : t.Numbered := numbered_trial _ _ _ _ _
  refine ⟨r, hreport, ?_, hread, read?_reportText hnumbered.beforeFailure⟩
  by_cases herrors : t.errors = [] <;> simp [hexit, hending, herrors]

/-- The accounts of a run on statements that all return a row or fail with an error that is
reported, however statements are read. Every row carries the position of its statement among all
statements. Without the option to stop at errors, the report is that of all statements: under its
header it has one record for each statement that returns a row, in order, which begins with the
position of the statement. There is an error with its line for each of the other statements, in
order, and both together are as many as there are statements. With the option, the report is that of
the statements before the first one that fails, and the exit code is 1 exactly if one does. -/
theorem run_accounts [Sql.Reader] (program : String) {arguments : List String} {unseeded : Draws}
    (hparse : Options.parse arguments = .ok (.run o)) (hsettings : settings o = .ok chosen)
    (hscript : Script.ofFile files o.input o.separated = .ok statements) (hne : statements ≠ [])
    (hnul : '\x00' ∉ o.output.toList) (hopen : files.write o.output "".toUTF8 = .ok opened)
    (hdraws : draws = o.seed.elim unseeded Draws.ofSeed)
    (hreported : (trial o chosen draws opened statements).Reported) :
    let t := trial o chosen draws opened statements
    t.map Prod.fst = statements ∧ t.Numbered ∧
      ∃ r, run program arguments unseeded files = .ok r ∧
        (o.stopOnError = false →
          r.exit = 0 ∧ IsReport r.files o.output t ∧
            t.rows.length + t.errors.length = statements.length ∧
            ∃ b : Batch, b.entries = t.map Entry.of ∧ b.rows = t.rows ∧ b.errors = t.errors ∧
              r.out = b.text o.verbose ++ tally t.rows.length t.errors.length o.output ∧
              (o.verbose = false → b.text o.verbose = String.join (t.errors.map errorLine))) ∧
        (o.stopOnError = true →
          IsReport r.files o.output t.beforeFailure ∧ (r.exit = 0 ∨ r.exit = 1) ∧
            (r.exit = 1 ↔ ∃ statement f, (statement, .error f) ∈ t)) := by
  intro t
  have hrun : run program arguments unseeded files = report o chosen draws files statements := by
    rw [run, hparse]
    dsimp only
    rw [runOptions, hsettings, hscript, hdraws]
    cases statements with
    | nil => exact absurd rfl hne
    | cons => rfl
  refine ⟨map_fst_trial _ _ _ _ _, numbered_trial _ _ _ _ _, ?_⟩
  rw [hrun]
  cases hstop : o.stopOnError with
  | false =>
    obtain ⟨r, b, hreport, hexit, hfile, hentries, hrows, herrors, hout⟩ :=
      report_going_on hnul hopen hstop hreported
    refine ⟨r, hreport, fun _ => ⟨hexit, hfile, ?_, b, hentries, hrows, herrors, hout, ?_⟩, nofun⟩
    · rw [Trial.length_rows_add_length_errors, ← map_fst_trial o chosen draws opened statements,
        List.length_map]
    · intro hquiet
      rw [hquiet, text_of_entries hentries]
  | true =>
    obtain ⟨r, hreport, hexit, hfile⟩ := report_stopping hnul hopen hstop hreported
    refine ⟨r, hreport, nofun, fun _ => ⟨hfile, ?_, ?_⟩⟩
    · rw [hexit]
      split <;> simp
    · rw [hexit, ← Trial.errors_ne_nil_iff]
      by_cases herrors : t.errors = [] <;> simp_all [t]

end Command

namespace Command.Sample

attribute [local instance] Sql.standardReader

/-- A script of three statements, the second of which asks for a column that is not there, and a
catalog of the one table. -/
def files : Files :=
  ((Files.put {} "q.sql" "SELECT a, b FROM T\nSELECT c FROM T\nSELECT a FROM T\n".toUTF8).put
    "cat/T.schema.json"
    "\x7b\"attributes\": [\x7b\"name\": \"a\"\x7d, \x7b\"name\": \"b\"\x7d]\x7d".toUTF8).put
    "cat/T.stat" "10\n3 3\n".toUTF8

/-- The options of a run over this catalog. -/
def options : Options := { input := "q.sql", catalog := "cat" }

/-- The tree once the report is opened. -/
def opened : Files := files.withContent ["output.csv"] "".toUTF8

/-- The statements with the lines that they are on. -/
def statements : List Script.Statement :=
  [⟨1, "SELECT a, b FROM T;"⟩, ⟨2, "SELECT c FROM T;"⟩, ⟨3, "SELECT a FROM T;"⟩]

end Command.Sample

namespace Command

attribute [local instance] Sql.standardReader in
theorem run_accounts_sample :
    let t := trial Sample.options {} (Draws.cycle #[0]) Sample.opened Sample.statements
    t.completed.map Prod.fst = [1, 3] ∧ t.errors.map Prod.fst = [2] ∧
      ∃ r, run "queryplan" ["q.sql", "--catalog", "cat"] (Draws.cycle #[0]) Sample.files = .ok r ∧
        r.exit = 0 ∧
        r.files.read "output.csv" = .ok
          ("query_id,joins,cost,cardinality,plan\r\n" ++
            "1,0,1,10,\"Project(T.a, T.b) <- (Scan(T))\"\r\n" ++
            "3,0,1,10,Project(T.a) <- (Scan(T))\r\n").toUTF8 ∧
        r.out = "ERROR at line 2: Attribute T.c not found in schema\n" ++
          "\nCompleted: 2/3 queries\n" ++
          "Errors: 1 queries failed\nOutput written to: output.csv\n" := by
  intro t
  have hparse : Options.parse ["q.sql", "--catalog", "cat"] = .ok (.run Sample.options) := by
    decide +kernel
  have hscript : Script.ofFile Sample.files "q.sql" false = .ok Sample.statements := by
    decide +kernel
  have hopen : Sample.files.write "output.csv" "".toUTF8 = .ok Sample.opened := rfl
  -- One evaluation of the outcomes for all that is said of them.
  obtain ⟨hreported, hcompleted, herrors, htext, hsaid⟩ : t.Reported ∧
      t.completed.map Prod.fst = [1, 3] ∧ t.errors.map Prod.fst = [2] ∧
      reportText t.rows = "query_id,joins,cost,cardinality,plan\r\n" ++
        "1,0,1,10,\"Project(T.a, T.b) <- (Scan(T))\"\r\n" ++
        "3,0,1,10,Project(T.a) <- (Scan(T))\r\n" ∧
      String.join (t.errors.map errorLine) ++
        tally t.rows.length t.errors.length Sample.options.output =
          "ERROR at line 2: Attribute T.c not found in schema\n" ++
            "\nCompleted: 2/3 queries\n" ++
            "Errors: 1 queries failed\nOutput written to: output.csv\n" := by
    decide +kernel
  obtain ⟨-, -, r, hrun, hgoes, -⟩ := run_accounts "queryplan" hparse rfl hscript nofun
    (by decide) hopen rfl hreported
  obtain ⟨hexit, ⟨hfile, -⟩, -, b, -, -, -, hout, hquiet⟩ := hgoes rfl
  refine ⟨hcompleted, herrors, r, hrun, hexit, ?_, ?_⟩
  · rw [← htext]
    exact hfile
  · rw [hout, hquiet rfl]
    exact hsaid

end Command

end QueryPlan
