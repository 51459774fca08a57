import Mathlib
import QueryPlan.Report.Batch

/-!
# The books of a batch

A batch goes through its statements in order, and the state of the step goes on from each to the
next whether it returns or fails. So every statement has an outcome that does not depend on whether
the batch stops at errors. A batch that goes on has one entry for every statement; one that stops
has the entries up to the first error. Rows carry the numbers that the step gives them, so a
statement that fails takes up a number too.

This holds of any step, whatever outcomes it has, as long as every failure is one that is reported
as an error of its statement.

## Main definitions

* `Trial` : statements with their outcomes, and the rows and failures among them.
* `Trial.completed` : the statements that return a row, by their numbers.
* `Trial.Numbered` : every row carries the number of its statement.
* `Batch.trial` : what becomes of the statements, one after the other.
* `Entry.of` : the entry of a statement with an outcome.

## Main results

* `Batch.run_going_on` : a batch that goes on has the entries of all statements.
* `Batch.run_stopping` : a batch that stops has those up to the first error.
* `Trial.length_rows_add_length_errors` : rows and errors make up the statements.
-/

namespace QueryPlan

/-- Statements with their outcomes. -/
abbrev Trial := List (Script.Statement × Except Failure Row)

namespace Trial

variable {t : Trial}

/-- The rows that statements returned. -/
def rows (t : Trial) : List Row := t.filterMap fun x => x.2.toOption

/-- The failures of statements, each with the line of its statement. -/
def errors (t : Trial) : List (Nat × Failure) :=
  t.filterMap fun
    | (statement, .error f) => some (statement.line, f)
    | (_, .ok _) => none

/-- The rows that statements returned, each with the number of its statement: its position among all
statements, of which the first one has the number one. -/
def completed (t : Trial) : List (Nat × Row) :=
  (t.zipIdx 1).filterMap fun x => x.1.2.toOption.map (x.2, ·)

/-- Every row carries the number of its statement. -/
def Numbered (t : Trial) : Prop :=
  ∀ (i : Nat) statement r, t[i]? = some (statement, .ok r) → r.id = (i : Int) + 1

/-- The statements before the first one that fails. -/
def beforeFailure (t : Trial) : Trial := t.takeWhile fun x => x.2.isOk

/-- The first statement that fails, if one does. -/
def firstFailure (t : Trial) : Trial := (t.dropWhile fun x => x.2.isOk).take 1

/-- Every failure is one that is reported as an error of its statement. -/
def Reported (t : Trial) : Prop := ∀ e ∈ t.errors, e.2.isReported = true

instance (t : Trial) : Decidable t.Reported :=
  inferInstanceAs (Decidable (∀ e ∈ t.errors, e.2.isReported = true))

theorem errors_cons_error {statement : Script.Statement} {f : Failure} :
    errors ((statement, .error f) :: t) = (statement.line, f) :: t.errors := rfl

theorem errors_cons_ok {statement : Script.Statement} {r : Row} :
    errors ((statement, .ok r) :: t) = t.errors := rfl

theorem reported_cons_error {statement : Script.Statement} {f : Failure} :
    Reported ((statement, .error f) :: t) ↔ f.isReported = true ∧ t.Reported :=
  List.forall_mem_cons

theorem reported_cons_ok {statement : Script.Statement} {r : Row} :
    Reported ((statement, .ok r) :: t) ↔ t.Reported := .rfl

/-- Every statement returned a row or failed. -/
theorem length_rows_add_length_errors (t : Trial) :
    t.rows.length + t.errors.length = t.length := by
  induction t with
  | nil => rfl
  | cons x t ih =>
    rw [List.length_cons, ← ih]
    obtain ⟨statement, f | r⟩ := x
    · rfl
    · change (rows t).length + 1 + (errors t).length = _
      rw [add_right_comm]

theorem map_snd_completed (t : Trial) : t.completed.map Prod.snd = t.rows := by
  have hsnd (x : (Script.Statement × Except Failure Row) × Nat) :
      (x.1.2.toOption.map (x.2, ·)).map Prod.snd = x.1.2.toOption := by
    cases x.1.2.toOption <;> rfl
  conv_rhs => rw [← List.zipIdx_map_fst 1 t]
  rw [completed, rows, List.map_filterMap, List.filterMap_map]
  exact List.filterMap_congr fun x _ => hsnd x

/-- Rows that carry the numbers of their statements are listed under the numbers they carry. -/
theorem Numbered.id_of_mem_completed (h : t.Numbered) {number : Nat} {r : Row}
    (hmem : (number, r) ∈ t.completed) : r.id = number := by
  obtain ⟨⟨⟨statement, outcome⟩, n⟩, hx, hsome⟩ := List.mem_filterMap.1 hmem
  obtain ⟨r', hr', heq⟩ := Option.map_eq_some_iff.1 hsome
  obtain ⟨rfl, rfl⟩ := Prod.mk.inj heq
  obtain ⟨hle, hget⟩ := List.mem_zipIdx_iff_le_and_getElem?_sub.1 hx
  cases outcome with
  | error f => cases hr'
  | ok r =>
    obtain rfl := Option.some.inj hr'
    rw [h _ statement r hget]
    omega

theorem Numbered.beforeFailure (h : t.Numbered) : t.beforeFailure.Numbered := by
  intro i statement r hget
  obtain ⟨hi, hr⟩ := List.getElem?_eq_some_iff.1 hget
  have hsame := List.prefix_iff_getElem?.1 (List.takeWhile_prefix _) i hi
  exact h i statement r (hsame.trans (congrArg some hr))

theorem rows_append (t u : Trial) : rows (t ++ u) = t.rows ++ u.rows := List.filterMap_append

theorem rows_firstFailure (t : Trial) : t.firstFailure.rows = [] := by
  unfold firstFailure
  cases h : t.dropWhile fun x => x.2.isOk with
  | nil => rfl
  | cons x u =>
    have hx : x.2.isOk = false := by
      have := List.head_dropWhile_not (fun x : Script.Statement × Except Failure Row => x.2.isOk)
        (l := t) (by simp [h])
      simpa [h] using this
    obtain ⟨statement, f | r⟩ := x
    · rfl
    · cases hx

/-- There is an error exactly if a statement fails. -/
theorem errors_ne_nil_iff (t : Trial) :
    t.errors ≠ [] ↔ ∃ statement f, (statement, .error f) ∈ t := by
  constructor
  · intro h
    obtain ⟨e, he⟩ := List.exists_mem_of_ne_nil _ h
    obtain ⟨⟨statement, f | r⟩, hmem, hsome⟩ := List.mem_filterMap.1 he
    · exact ⟨statement, f, hmem⟩
    · cases hsome
  · rintro ⟨statement, f, hmem⟩
    exact List.ne_nil_of_mem (List.mem_filterMap.2 ⟨_, hmem, rfl⟩)

end Trial

/-- The entry of a statement with an outcome. -/
def Entry.of : Script.Statement × Except Failure Row → Entry
  | (_, .ok r) => .row r
  | (statement, .error f) => .error statement.line statement.text f

namespace Batch

variable {σ : Type} {step : σ → Nat → String → Except Failure Row × σ × List Event}
  {statements : List Script.Statement} {s : σ} {id : Nat} {b : Batch} {t : Trial}

/-- What becomes of the statements, the first of which has the number `id`. -/
def trial (step : σ → Nat → String → Except Failure Row × σ × List Event) :
    (id : Nat) → List Script.Statement → σ → Trial
  | _, [], _ => []
  | id, statement :: statements, s =>
    (statement, (step s id statement.text).1) ::
      trial step (id + 1) statements (step s id statement.text).2.1

theorem map_fst_trial : (trial step id statements s).map Prod.fst = statements := by
  induction statements generalizing id s with
  | nil => rfl
  | cons statement statements ih => rw [trial, List.map_cons, ih]

/-- The rows carry the numbers of their statements, also after statements that failed. -/
theorem id_of_trial (hid : ∀ s id text r, (step s id text).1 = .ok r → r.id = id) {i : Nat}
    {statement : Script.Statement} {r : Row}
    (h : (trial step id statements s)[i]? = some (statement, .ok r)) : r.id = id + i := by
  induction statements generalizing id s i with
  | nil => cases h
  | cons head statements ih =>
    cases i with
    | zero =>
      obtain ⟨-, hr⟩ := Prod.mk.inj (Option.some.inj h)
      rw [hid s id head.text r hr, Nat.cast_zero, add_zero]
    | succ i =>
      rw [ih (by simpa [trial] using h)]
      push_cast
      ring

/-! ### Entries -/

theorem rows_of_entries (h : b.entries = t.map Entry.of) : b.rows = t.rows := by
  rw [rows, h, List.filterMap_map, Trial.rows]
  refine List.filterMap_congr fun x _ => ?_
  obtain ⟨statement, f | r⟩ := x <;> rfl

theorem errors_of_entries (h : b.entries = t.map Entry.of) : b.errors = t.errors := by
  rw [errors, h, List.filterMap_map, Trial.errors]
  refine List.filterMap_congr fun x _ => ?_
  obtain ⟨statement, f | r⟩ := x <;> rfl

/-- A batch that goes on has one entry for every statement. -/
theorem run_going_on (hreported : (trial step id statements s).Reported) :
    (run step false id statements s).entries = (trial step id statements s).map Entry.of ∧
      (run step false id statements s).ending = .finished := by
  induction statements generalizing id s with
  | nil => exact ⟨rfl, rfl⟩
  | cons statement statements ih =>
    rw [trial] at hreported ⊢
    rw [run]
    rcases hstep : step s id statement.text with ⟨f | r, s', events⟩ <;> rw [hstep] at hreported
    · obtain ⟨hf, hrest⟩ := Trial.reported_cons_error.1 hreported
      simp only [if_pos hf]
      exact ⟨congrArg (_ :: ·) (ih hrest).1, (ih hrest).2⟩
    · have hrest := Trial.reported_cons_ok.1 hreported
      exact ⟨congrArg (_ :: ·) (ih hrest).1, (ih hrest).2⟩

/-- A batch that stops has the entries up to the first error, if there is one. -/
theorem run_stopping (hreported : (trial step id statements s).Reported) :
    let t := trial step id statements s
    (run step true id statements s).entries = (t.beforeFailure ++ t.firstFailure).map Entry.of ∧
      (run step true id statements s).ending =
        if t.errors = [] then .finished else .stopped := by
  induction statements generalizing id s with
  | nil => exact ⟨rfl, rfl⟩
  | cons statement statements ih =>
    dsimp only
    rw [trial] at hreported ⊢
    rw [run]
    rcases hstep : step s id statement.text with ⟨f | r, s', events⟩ <;> rw [hstep] at hreported
    · simp only [if_pos (Trial.reported_cons_error.1 hreported).1]
      exact ⟨rfl, rfl⟩
    · have hrest := Trial.reported_cons_ok.1 hreported
      exact ⟨congrArg (_ :: ·) (ih hrest).1, (ih hrest).2⟩

/-- The rows of a batch that stops are those of the statements before the first failure. -/
theorem rows_run_stopping (hreported : (trial step id statements s).Reported) :
    (run step true id statements s).rows = (trial step id statements s).beforeFailure.rows := by
  rw [rows_of_entries (run_stopping hreported).1, Trial.rows_append, Trial.rows_firstFailure,
    List.append_nil]

end Batch

end QueryPlan
