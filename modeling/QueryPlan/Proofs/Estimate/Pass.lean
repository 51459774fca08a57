import Mathlib
import QueryPlan.Estimate.Pass
import QueryPlan.Proofs.Program

/-!
# Contracts of passes

A step of a pass over a plan *meets* a contract when it returns a value that is related to the state
at its end as demanded, or fails in a way that is allowed. The failures that no pass over a sound
plan may have are those of columns: a column that a schema does not have, a column that has no
distinct count, and a literal in the place of a column. No computation with numbers and no file of
statistics fails so.

## Main definitions

* `PassM.Meets` : a step of a pass meets a contract from a state.
* `Failure.IsScope` : a failure of a column.

## Main results

* `PassM.Meets.bind` : the contract of a sequence.
* `tame_loadStatistics`, `PassM.chargeJoin_meets`, `PassM.evaluateSorting_meets` : steps that do not
  fail so and keep the distinct counts.
-/

namespace QueryPlan

/-- A column is not where it is looked for. -/
def Failure.IsScope : Failure → Prop
  | .attributeNotFound _ | .unmeasuredAttribute _ | .literalWithoutTable _ => True
  | _ => False

/-! ### Computations without columns -/

section Tame

variable {α β : Type}

/-- A computation does not fail because of a column. -/
def Tame (result : Except Failure α) : Prop := ∀ e, result = .error e → ¬ e.IsScope

theorem tame_ok (a : α) : Tame (.ok a : Except Failure α) := by
  intro e he
  cases he

theorem tame_error {e : Failure} (he : ¬ e.IsScope) : Tame (.error e : Except Failure α) := by
  rintro _ ⟨⟩
  exact he

theorem tame_bind {result : Except Failure α} {f : α → Except Failure β} (hresult : Tame result)
    (hf : ∀ a, Tame (f a)) : Tame (result >>= f) := by
  cases result with
  | error e => exact tame_error (hresult e rfl)
  | ok a => exact hf a

theorem tame_ite {p : Prop} [Decidable p] {r r' : Except Failure α} (hr : Tame r)
    (hr' : Tame r') : Tame (if p then r else r') := by
  split
  · exact hr
  · exact hr'

theorem tame_ceilDivChecked (a b : ℤ) : Tame (ceilDivChecked a b) :=
  tame_ite (tame_error nofun) (tame_ok _)

theorem tame_pagesOf (pageSize : ℕ) (tuples tupleSize : ℤ) :
    Tame (pagesOf pageSize tuples tupleSize) :=
  tame_bind (tame_ite (tame_error nofun) (tame_ok _)) fun _ => tame_ceilDivChecked _ _

theorem tame_toReal (n : ℤ) : Tame (toReal n) := by
  unfold toReal
  cases Binary64.ofInt? n with
  | none => exact tame_error nofun
  | some x => exact tame_ok x

theorem tame_quotientReal (a b : ℤ) : Tame (quotientReal a b) := by
  refine tame_ite (tame_error nofun) ?_
  cases Binary64.ofQuotient? a b with
  | none => exact tame_error nofun
  | some x => exact tame_ok x

theorem tame_ceilReal (x : Binary64) : Tame (ceilReal x) := by
  unfold ceilReal
  split
  · exact tame_ok _
  · exact tame_error nofun
  · exact tame_error nofun

theorem tame_selectedTuples (comparator : Comparator) (tuples distinct : ℤ) :
    Tame (selectedTuples comparator tuples distinct) := by
  refine tame_ite (tame_ok _) ?_
  cases comparator with
  | equal => exact tame_bind (tame_quotientReal _ _) fun _ => tame_ceilReal _
  | notEqual =>
    exact tame_bind (tame_quotientReal _ _) fun _ => tame_bind (tame_toReal _) fun _ =>
      tame_ceilReal _
  | less | lessEqual | greater | greaterEqual =>
    exact tame_bind (tame_toReal _) fun _ => tame_ceilReal _

theorem tame_crossProduct (left right : ℤ) : Tame (crossProduct left right) :=
  tame_bind (tame_toReal _) fun _ => tame_bind (tame_toReal _) fun _ => tame_ok _

theorem tame_matchingPairs (pairs : Binary64) (left right : ℤ) :
    Tame (matchingPairs pairs left right) :=
  tame_ite (tame_ok _) (tame_bind (tame_toReal _) fun _ => tame_ok _)

theorem tame_externalSortCost (pages buffers : ℤ) : Tame (externalSortCost pages buffers) := by
  refine tame_bind (tame_ceilDivChecked _ _) fun runs => tame_bind ?_ fun _ => tame_ok _
  exact tame_ite (tame_ok _) (tame_ite (tame_error nofun) (tame_ite (tame_error nofun)
    (tame_ite (tame_ok _) (tame_ok _))))

theorem tame_sortMergeSortCost (pages buffers : ℤ) : Tame (sortMergeSortCost pages buffers) :=
  tame_bind (tame_ceilDivChecked _ _) fun _ => tame_ok _

theorem tame_joinCharge (algorithm : JoinAlgorithm) (left right : ℤ) (buffers : ℕ) :
    Tame (joinCharge algorithm left right buffers) := by
  cases algorithm with
  | nestedLoop => exact tame_ok _
  | blockNested => exact tame_bind (tame_ceilDivChecked _ _) fun _ => tame_ok _
  | sortMerge => exact tame_ok _

theorem tame_loadStatistics (catalog : Catalog) (table : String) (columns : ℤ) :
    Tame (catalog.loadStatistics table columns) := by
  unfold Catalog.loadStatistics
  refine tame_ite (tame_error nofun) ?_
  split
  · exact tame_error nofun
  · split
    · exact tame_error nofun
    · dsimp only
      split
      · exact tame_error nofun
      · exact tame_ok _

end Tame

/-! ### Statistics -/

theorem Statistics.length_readCounts {tokens : List String} {counts : List ℤ}
    (h : readCounts tokens = .ok counts) : counts.length = tokens.length := by
  induction tokens generalizing counts with
  | nil =>
    cases h
    rfl
  | cons token tokens ih =>
    rw [readCounts] at h
    split at h
    · cases h
    · obtain ⟨rest, hrest, rfl⟩ := map_eq_ok_iff.1 h
      rw [List.length_cons, ih hrest, List.length_cons]

/-- Statistics that are read have a distinct count for every column. -/
theorem Statistics.length_of_ofLines {columns : ℤ} {lines : List String} {statistics : Statistics}
    (h : ofLines columns lines = .ok statistics) :
    (statistics.distinctCounts.length : ℤ) = columns := by
  unfold ofLines at h
  split at h
  · split at h
    · dsimp only at h
      split at h
      · cases h
      · rename_i htokens
        split at h
        · cases h
        · split at h
          · cases h
          · rename_i distinct hdistinct
            unfold ofCounts at h
            split at h
            · cases h
            · cases h
              rw [List.length_map, length_readCounts hdistinct]
              exact not_not.1 htokens
    · cases h
  · cases h

theorem Catalog.length_of_loadStatistics {catalog : Catalog} {table : String} {columns : ℤ}
    {statistics : Statistics} (h : catalog.loadStatistics table columns = .ok statistics) :
    (statistics.distinctCounts.length : ℤ) = columns := by
  unfold loadStatistics at h
  dsimp only at h
  split at h
  · cases h
  · split at h
    · cases h
    · split at h
      · cases h
      · split at h
        · cases h
        · rename_i statistics' hlines
          obtain rfl := Except.ok.inj h
          exact Statistics.length_of_ofLines hlines

/-! ### Contracts -/

namespace PassM

variable {α β : Type} {s : PassState}

/-- From the state `s`, a step of a pass returns a value that `Q` relates to the state at the end,
or fails for another reason than a column. -/
structure Meets (m : PassM α) (s : PassState) (Q : α → PassState → Prop) : Prop where
  returns : ∀ {a t}, m.run.run s = (.ok a, t) → Q a t
  fails : ∀ {e t}, m.run.run s = (.error e, t) → ¬ e.IsScope

namespace Meets

variable {m : PassM α} {f : α → PassM β} {Q Q' : α → PassState → Prop}
  {R : β → PassState → Prop}

theorem mono (hm : m.Meets s Q) (hQ : ∀ a t, Q a t → Q' a t) : m.Meets s Q' :=
  ⟨fun hrun => hQ _ _ (hm.returns hrun), hm.fails⟩

theorem pure {a : α} (h : Q a s) : (Pure.pure a : PassM α).Meets s Q :=
  ⟨by rintro b t ⟨⟩; exact h, by rintro e t ⟨⟩⟩

theorem bind (hm : m.Meets s Q) (hf : ∀ a t, Q a t → (f a).Meets t R) : (m >>= f).Meets s R := by
  have hrun : (m >>= f).run.run s = match m.run.run s with
      | (.ok a, t) => (f a).run.run t
      | (.error e, t) => (.error e, t) := by
    simp only [ExceptT.run_bind, StateT.run_bind]
    rcases m.run.run s with ⟨_ | a, t⟩ <;> rfl
  rcases hm' : m.run.run s with ⟨e | a, t⟩
  · rw [hm'] at hrun
    refine ⟨fun h => ?_, fun h => ?_⟩
    · cases hrun.symm.trans h
    · cases hrun.symm.trans h
      exact hm.fails hm'
  · rw [hm'] at hrun
    have hfa := hf a t (hm.returns hm')
    exact ⟨fun h => hfa.returns (hrun.symm.trans h), fun h => hfa.fails (hrun.symm.trans h)⟩

theorem lift {result : Except Failure α} (hresult : Tame result)
    (hQ : ∀ a, result = .ok a → Q a s) : (liftM result : PassM α).Meets s Q := by
  cases result with
  | error e => exact ⟨by rintro b t ⟨⟩, by rintro e t ⟨⟩; exact hresult e rfl⟩
  | ok a => exact pure (hQ a rfl)

/-- A computation without columns comes before a step. -/
theorem lift_bind {result : Except Failure α} (hresult : Tame result)
    (hf : ∀ a, result = .ok a → (f a).Meets s R) : ((liftM result : PassM α) >>= f).Meets s R :=
  bind (Q := fun a t => result = .ok a ∧ t = s) (lift hresult fun _ h => ⟨h, rfl⟩)
    (by rintro a t ⟨h, rfl⟩; exact hf a h)

theorem modify {f : PassState → PassState} {Q : PUnit → PassState → Prop} (hQ : Q ⟨⟩ (f s)) :
    (modify f : PassM PUnit).Meets s Q :=
  ⟨by rintro b t ⟨⟩; exact hQ, by rintro e t ⟨⟩⟩

theorem get_bind {f : PassState → PassM β} (h : (f s).Meets s R) :
    ((get : PassM PassState) >>= f).Meets s R :=
  ⟨fun hrun => h.returns hrun, fun hrun => h.fails hrun⟩

end Meets

/-! ### Steps that keep the distinct counts -/

theorem record_meets (s : PassState) (e : Event) :
    (record e).Meets s fun _ t => t.distinct = s.distinct := .modify rfl

theorem charge_meets (s : PassState) (cost : ℤ) :
    (charge cost).Meets s fun _ t => t.distinct = s.distinct := .modify rfl

theorem giveUp_meets (s : PassState) : giveUp.Meets s fun _ t => t.distinct = s.distinct :=
  .modify rfl

/-- A step that keeps the distinct counts before another one that does. -/
theorem Meets.bind_frame {α β : Type} {m : PassM α} {f : α → PassM β}
    (hm : m.Meets s fun _ t => t.distinct = s.distinct)
    (hf : ∀ a t, (f a).Meets t fun _ u => u.distinct = t.distinct) :
    (m >>= f).Meets s fun _ u => u.distinct = s.distinct :=
  hm.bind fun a t ht => (hf a t).mono fun _ _ hu => hu.trans ht

theorem enoughBuffers_meets (s : PassState) (buffers : ℕ) (operation : String) :
    (enoughBuffers buffers operation).Meets s fun _ t => t.distinct = s.distinct := by
  unfold enoughBuffers
  split
  · exact (record_meets s _).bind_frame fun _ _ => (giveUp_meets _).bind_frame fun _ _ => .pure rfl
  · exact .pure rfl

theorem chargeJoin_meets (s : PassState) (settings : Settings) (code left right tuples : ℤ) :
    (chargeJoin settings code left right tuples).Meets s fun _ t => t.distinct = s.distinct := by
  unfold chargeJoin
  dsimp only
  split
  · exact (record_meets s _).bind_frame fun _ _ => (giveUp_meets _).bind_frame fun _ _ => .pure rfl
  · exact .lift_bind (tame_joinCharge _ _ _ _) fun _ _ =>
      (charge_meets s _).bind_frame fun _ _ => .pure rfl
  · refine (enoughBuffers_meets s _ _).bind_frame fun enough _ => ?_
    split
    · exact .pure rfl
    · exact .lift_bind (tame_joinCharge _ _ _ _) fun _ _ =>
        (charge_meets _ _).bind_frame fun _ _ => .pure rfl
  · refine (enoughBuffers_meets s _ _).bind_frame fun enough _ => ?_
    split
    · exact .pure rfl
    · refine .lift_bind (tame_sortMergeSortCost _ _) fun _ _ => ?_
      refine .lift_bind (tame_sortMergeSortCost _ _) fun _ _ => ?_
      refine (record_meets _ _).bind_frame fun _ _ => ?_
      exact .lift_bind (tame_joinCharge _ _ _ _) fun _ _ =>
        (charge_meets _ _).bind_frame fun _ _ => .pure rfl

theorem isFeasible_bind {β : Type} {f : Bool → PassM β} {R : β → PassState → Prop}
    (h : (f s.feasible).Meets s R) : (isFeasible >>= f).Meets s R :=
  ⟨fun hrun => h.returns hrun, fun hrun => h.fails hrun⟩

theorem evaluateSorting_meets (s : PassState) (settings : Settings) (operator : String)
    (tupleSize tuples : ℤ) :
    (evaluateSorting settings operator tupleSize tuples).Meets s
      fun _ t => t.distinct = s.distinct := by
  refine isFeasible_bind ?_
  split
  · exact .pure rfl
  · refine (enoughBuffers_meets s _ _).bind_frame fun enough _ => ?_
    split
    · exact .pure rfl
    · refine .lift_bind (tame_pagesOf _ _ _) fun _ _ => ?_
      exact .lift_bind (tame_externalSortCost _ _) fun _ _ =>
        (charge_meets _ _).bind_frame fun _ _ => .pure rfl

theorem recordEstimate_meets (s : PassState) (operator : String) (tuples : ℤ) :
    (recordEstimate operator tuples).Meets s fun _ t => t.distinct = s.distinct :=
  .get_bind ((record_meets s _).bind_frame fun _ _ => .pure rfl)

end PassM

end QueryPlan
