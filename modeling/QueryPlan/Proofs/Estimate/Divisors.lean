import Mathlib
import QueryPlan.Proofs.Estimate.Runs

/-!
# Divisions by zero

A pass divides by numbers of distinct values, by numbers of buffers and by tuple sizes. The first
are compared with zero beforehand, and where buffers are divided by there are at least three of
them. So it is only the size of a tuple that a pass can divide by while it is zero: where tuples are
counted in pages.

## Main definitions

* `PassM.Divides` : a step divides by zero.
* `Plan.Paged` : all tuples that are counted in pages have a size.

## Main results

* `PassM.divides_bind_iff` : a sequence divides by zero when one of its parts does.
* `PassM.not_divides_evaluateSelect`, `PassM.not_divides_evaluateJoin`,
  `PassM.not_divides_evaluateSorting` : operators that do not divide by zero.
* `Plan.Paged.estimate_ne_divisionByZero` : nor does a pass over a plan whose tuples have a size
  wherever they are counted in pages.
-/

namespace QueryPlan

/-! ### Computations with numbers -/

section Numbers

variable {α β : Type} {f : α → Except Failure β} {result : Except Failure α} {e : Failure}

theorem bind_eq_error_iff : (result >>= f) = .error e ↔
    result = .error e ∨ ∃ a, result = .ok a ∧ f a = .error e := by
  cases result <;> simp [bind, Except.bind]

theorem ceilDivChecked_eq_error_iff {a b : ℤ} :
    ceilDivChecked a b = .error e ↔ b = 0 ∧ e = .divisionByZero := by
  unfold ceilDivChecked
  split <;> simp_all [eq_comm]

theorem pagesOf_eq_error_iff {pageSize : ℕ} {tuples size : ℤ} :
    pagesOf pageSize tuples size = .error e ↔ size = 0 ∧ e = .divisionByZero := by
  by_cases hsize : size = 0
  · simp [pagesOf, pageCapacity, hsize, bind, Except.bind, eq_comm]
  · obtain ⟨pages, hpages⟩ : ∃ pages, pagesOf pageSize tuples size = .ok pages :=
      ⟨_, pagesOf_eq_ok_iff.2 ⟨hsize, rfl⟩⟩
    simp [hpages, hsize]

theorem toReal_ne_divisionByZero (n : ℤ) : toReal n ≠ .error .divisionByZero := by
  unfold toReal
  cases Binary64.ofInt? n <;> simp [Option.elim]

theorem quotientReal_ne_divisionByZero {a b : ℤ} (hb : b ≠ 0) :
    quotientReal a b ≠ .error .divisionByZero := by
  unfold quotientReal
  rw [if_neg hb]
  cases Binary64.ofQuotient? a b <;> simp [Option.elim]

theorem ceilReal_ne_divisionByZero (x : Binary64) : ceilReal x ≠ .error .divisionByZero := by
  unfold ceilReal
  split <;> simp

/-- A distinct count is only divided by if it is not zero. -/
theorem selectedTuples_ne_divisionByZero (comparator : Comparator) (tuples distinct : ℤ) :
    selectedTuples comparator tuples distinct ≠ .error .divisionByZero := by
  unfold selectedTuples
  split
  · simp
  · rename_i hne
    cases comparator <;>
      simp [bind_eq_error_iff, quotientReal_ne_divisionByZero hne, toReal_ne_divisionByZero,
        ceilReal_ne_divisionByZero]

theorem crossProduct_ne_divisionByZero (left right : ℤ) :
    crossProduct left right ≠ .error .divisionByZero := by
  simp [crossProduct, bind_eq_error_iff, toReal_ne_divisionByZero, pure, Except.pure]

theorem matchingPairs_ne_divisionByZero (pairs : Binary64) (left right : ℤ) :
    matchingPairs pairs left right ≠ .error .divisionByZero := by
  unfold matchingPairs
  dsimp only
  split <;> simp [bind_eq_error_iff, toReal_ne_divisionByZero, pure, Except.pure]

theorem externalSortCost_ne_divisionByZero {pages buffers : ℤ} (hbuffers : minBuffers ≤ buffers) :
    externalSortCost pages buffers ≠ .error .divisionByZero := by
  simp [externalSortCost_of_minBuffers hbuffers]

theorem sortMergeSortCost_ne_divisionByZero {pages buffers : ℤ} (hbuffers : buffers ≠ 0) :
    sortMergeSortCost pages buffers ≠ .error .divisionByZero := by
  simp [sortMergeSortCost, bind_eq_error_iff, ceilDivChecked_eq_error_iff, hbuffers, pure,
    Except.pure]

theorem joinCharge_ne_divisionByZero (algorithm : JoinAlgorithm) (left right : ℤ) {buffers : ℕ}
    (hbuffers : algorithm = .blockNested → minBuffers ≤ buffers) :
    joinCharge algorithm left right buffers ≠ .error .divisionByZero := by
  cases algorithm with
  | nestedLoop | sortMerge => simp [joinCharge]
  | blockNested =>
    have hthree : 3 ≤ buffers := hbuffers rfl
    have hblock : (buffers : ℤ) - 2 ≠ 0 := by omega
    simp [joinCharge, bind_eq_error_iff, ceilDivChecked_eq_error_iff, hblock, pure, Except.pure]

theorem loadStatistics_ne_divisionByZero (catalog : Catalog) (table : String) (columns : ℤ) :
    catalog.loadStatistics table columns ≠ .error .divisionByZero := by
  unfold Catalog.loadStatistics
  dsimp only
  split
  · simp
  · split
    · simp
    · split
      · simp
      · split <;> simp

end Numbers

/-! ### Steps of a pass -/

namespace PassM

variable {α β : Type} {m : PassM α} {f : α → PassM β} {s : PassState}

/-- From the state `s`, a step divides by zero. -/
def Divides (m : PassM α) (s : PassState) : Prop := (m.outcome s).1 = .error .divisionByZero

/-- A sequence divides by zero when its first part does, or when that returns and what follows
does. -/
@[simp] theorem divides_bind_iff :
    (m >>= f).Divides s ↔ m.Divides s ∨ ∃ a t, m.Returns s a t ∧ (f a).Divides t := by
  simp only [Divides, Returns, outcome_bind]
  rcases m.outcome s with ⟨e | a, t⟩ <;> simp

@[simp] theorem not_divides_pure (a : α) : ¬ (pure a : PassM α).Divides s := nofun

@[simp] theorem divides_map_iff {g : α → β} : (g <$> m).Divides s ↔ m.Divides s := by
  simp [map_eq_pure_bind, -bind_pure_comp]

@[simp] theorem divides_throw_iff {e : Failure} :
    (throw e : PassM α).Divides s ↔ e = .divisionByZero :=
  ⟨by rintro ⟨⟩; rfl, by rintro rfl; rfl⟩

@[simp] theorem divides_lift_iff {result : Except Failure α} :
    (liftM result : PassM α).Divides s ↔ result = .error .divisionByZero := by
  cases result with
  | error e => exact ⟨by rintro ⟨⟩; rfl, by rintro ⟨⟩; rfl⟩
  | ok a => exact ⟨nofun, nofun⟩

@[simp] theorem not_divides_get : ¬ (get : PassM PassState).Divides s := nofun

@[simp] theorem not_divides_isFeasible : ¬ isFeasible.Divides s := nofun

@[simp] theorem not_divides_record (e : Event) : ¬ (record e).Divides s := nofun

@[simp] theorem not_divides_charge (cost : ℤ) : ¬ (charge cost).Divides s := nofun

@[simp] theorem not_divides_giveUp : ¬ giveUp.Divides s := nofun

@[simp] theorem not_divides_setDistinct (a : Attribute) (count : ℤ) :
    ¬ (setDistinct a count).Divides s := nofun

@[simp] theorem not_divides_setDistincts (counts : List (Attribute × ℤ)) :
    ¬ (setDistincts counts).Divides s := by
  induction counts generalizing s with
  | nil => exact not_divides_pure ()
  | cons e counts ih => simp [setDistincts, ih]

@[simp] theorem not_divides_distinctOf (a : Attribute) : ¬ (distinctOf a).Divides s := by
  simp only [distinctOf, divides_bind_iff, not_divides_get, false_or]
  rintro ⟨_, _, -, h⟩
  split at h <;> simp at h

@[simp] theorem not_divides_resolve (schema : Schema) (a : Attribute) :
    ¬ (resolve schema a).Divides s := by
  unfold resolve
  split <;> simp

@[simp] theorem not_divides_recordEstimate (operator : String) (tuples : ℤ) :
    ¬ (recordEstimate operator tuples).Divides s := by
  simp [recordEstimate]

@[simp] theorem not_divides_evaluateForeign (name : String) : ¬ (evaluateForeign name).Divides s := by
  simp [evaluateForeign]

theorem not_divides_of_isFeasible {f : Bool → PassM β} (h : ¬ (f s.feasible).Divides s) :
    ¬ (isFeasible >>= f).Divides s := by
  simpa using h

/-- What an operation does when it is given its buffers, it does with at least three. -/
theorem not_divides_of_enoughBuffers {buffers : ℕ} {operation : String} {f : Bool → PassM β}
    (hfew : ∀ t, ¬ (f false).Divides t) (h : minBuffers ≤ buffers → ∀ t, ¬ (f true).Divides t) :
    ¬ (enoughBuffers buffers operation >>= f).Divides s := by
  have hcheck : ¬ (enoughBuffers buffers operation).Divides s := by
    unfold enoughBuffers
    split <;> simp
  rw [divides_bind_iff, not_or]
  refine ⟨hcheck, ?_⟩
  rintro ⟨enough, t, henough, hf⟩
  by_cases hbuffers : minBuffers ≤ buffers
  · obtain ⟨rfl, -⟩ := (returns_enoughBuffers_iff hbuffers).1 henough
    exact h hbuffers t hf
  · obtain ⟨events, hgivesUp⟩ := enoughBuffers_gives_up hbuffers s operation
    obtain ⟨rfl, -⟩ := henough.unique hgivesUp
    exact hfew t hf

variable {catalog : Catalog} {settings : Settings} {schema left right : Schema}

theorem not_divides_evaluateScan (table : String) (hsize : schema.tupleSize ≠ 0) :
    ¬ (evaluateScan catalog settings table schema).Divides s := by
  simp [evaluateScan, loadStatistics_ne_divisionByZero, pagesOf_eq_error_iff, hsize]

theorem not_divides_evaluateSelect (c : Condition) (tuples : ℤ) :
    ¬ (evaluateSelect schema c tuples).Divides s := by
  cases hs : s.feasible <;> simp [evaluateSelect, hs, selectedTuples_ne_divisionByZero]

theorem not_divides_applyConditions (cs : List Condition) (pairs : Binary64) :
    ¬ (applyConditions left right cs pairs).Divides s := by
  induction cs generalizing s pairs with
  | nil => exact not_divides_pure pairs
  | cons c cs ih =>
    cases hrhs : c.rhs <;> simp [applyConditions, hrhs, matchingPairs_ne_divisionByZero, ih]

theorem not_divides_chargeJoin (code l r tuples : ℤ) :
    ¬ (chargeJoin settings code l r tuples).Divides s := by
  have hbuffers : (settings.buffersPerJoin : ℤ) ≠ 0 := by
    have hpos := settings.buffersPerJoin_pos
    omega
  unfold chargeJoin
  dsimp only
  split
  · simp
  · simp [joinCharge_ne_divisionByZero]
  · refine not_divides_of_enoughBuffers (by simp) fun hblocks t => ?_
    simp [joinCharge_ne_divisionByZero _ _ _ fun _ => hblocks]
  · refine not_divides_of_enoughBuffers (by simp) fun _ t => ?_
    simp [sortMergeSortCost_ne_divisionByZero hbuffers, joinCharge_ne_divisionByZero]

theorem not_divides_evaluateJoin (cs : List Condition) (code l r : ℤ)
    (hleft : left.tupleSize ≠ 0) (hright : right.tupleSize ≠ 0) :
    ¬ (evaluateJoin settings left right cs code l r).Divides s := by
  cases hs : s.feasible <;>
    simp [evaluateJoin, hs, pagesOf_eq_error_iff, hleft, hright, crossProduct_ne_divisionByZero,
      not_divides_applyConditions, ceilReal_ne_divisionByZero, not_divides_chargeJoin]

theorem not_divides_evaluateSorting (operator : String) {size : ℤ} (hsize : size ≠ 0)
    (tuples : ℤ) : ¬ (evaluateSorting settings operator size tuples).Divides s := by
  refine not_divides_of_isFeasible ?_
  split
  · simp
  · refine not_divides_of_enoughBuffers (by simp) fun hbuffers t => ?_
    simp [pagesOf_eq_error_iff, hsize,
      externalSortCost_ne_divisionByZero (Int.ofNat_le.2 hbuffers)]

end PassM

namespace Plan

open PassM

variable {catalog : Catalog} {settings : Settings} {p : Plan} {s : PassState}

/-- All tuples that are counted in pages have a size: those that are scanned, those on both sides of
a join, and those that are sorted. -/
def Paged : Plan → Prop
  | scan _ output => output.tupleSize ≠ 0
  | select base _ | project base _ => base.Paged
  | join left right _ _ _ =>
    left.Paged ∧ right.Paged ∧ left.schema.tupleSize ≠ 0 ∧ right.schema.tupleSize ≠ 0
  | sorting base _ _ => base.Paged ∧ base.schema.tupleSize ≠ 0
  | foreign _ _ _ | foreignLeaf _ _ => True

/-- A pass over a plan whose tuples have a size wherever they are counted in pages does not divide
by zero. -/
theorem Paged.not_divides (hp : p.Paged) : ¬ (p.evaluate catalog settings).Divides s := by
  induction p generalizing s with
  | scan table output => simp [evaluate, not_divides_evaluateScan table hp]
  | select base c ih => simp [evaluate, ih hp, not_divides_evaluateSelect]
  | project base columns ih => simp [evaluate, ih hp]
  | join left right cs code place ihl ihr =>
    obtain ⟨hl, hr, hleft, hright⟩ := hp
    simp [evaluate, ihl hl, ihr hr, not_divides_evaluateJoin cs code _ _ hleft hright]
  | sorting base task buffers ih =>
    obtain ⟨hbase, hsize⟩ := hp
    have hsorting (operator : String) (tuples : ℤ) (t : PassState) :
        ¬ (evaluateSorting settings operator base.schema.tupleSize tuples).Divides t :=
      not_divides_evaluateSorting operator hsize tuples
    simp [evaluate, ih hbase, hsorting, schema]
  | foreign | foreignLeaf => simp [evaluate]

theorem Paged.estimate_ne_divisionByZero (hp : p.Paged) :
    p.estimate catalog settings ≠ .error .divisionByZero := by
  intro h
  have hdivides : ¬ (p.evaluate catalog settings).Divides {} := hp.not_divides
  refine hdivides ?_
  change (p.pass catalog settings).1 = .error .divisionByZero
  unfold estimate at h
  dsimp only at h
  cases hpass : (p.pass catalog settings).1 <;> simp [hpass, Except.map] at h
  rw [h]

end Plan

end QueryPlan
