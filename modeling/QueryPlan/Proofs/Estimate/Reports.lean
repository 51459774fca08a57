import Mathlib
import QueryPlan.Proofs.Estimate.Context

/-!
# What a pass reports

A pass reports every operator that it has estimated, with the number of tuples and the cost so far.
Nothing else that it records is such a report. So the reports of a pass are its visits, one after
the other, whether it returns or fails: an operator that is not known is passed over, and so are
those at which the pass failed.

## Main definitions

* `PassState.reports` : the reports among the events.
* `PassM.Silent` : a step that reports nothing.
* `Visit.report` : what is reported of a visit.

## Main results

* `Plan.reports_evaluateAs` : the reports of a pass with given output schemas are its visits.
* `Plan.reports_pass` : the same of the pass over a plan.
* `Plan.reported_alone` : the reports on a feasible plan are the estimates of its parts.
-/

namespace QueryPlan

/-- An operator was estimated. -/
def Event.isEstimate : Event → Bool
  | estimated _ _ _ => true
  | _ => false

/-- What was reported of operators so far. -/
def PassState.reports (s : PassState) : List Event := s.events.filter Event.isEstimate

namespace PassM

variable {α β : Type} {m : PassM α} {f : α → PassM β} {s : PassState}

/-! ### Steps that report nothing -/

/-- A step that reports nothing, whether it returns or fails. -/
def Silent (m : PassM α) : Prop := ∀ s, (m.outcome s).2.reports = s.reports

theorem silent_pure (a : α) : (pure a : PassM α).Silent := fun _ => rfl

theorem silent_throw (e : Failure) : (throw e : PassM α).Silent := fun _ => rfl

/-- What follows a failure is not carried out. -/
theorem silent_throw_bind (e : Failure) (f : α → PassM β) : (throw e >>= f).Silent := fun _ => rfl

theorem silent_lift (result : Except Failure α) : (liftM result : PassM α).Silent := by
  intro s
  cases result <;> rfl

/-- What follows a step reports nothing. -/
theorem reports_bind (hf : ∀ a, (f a).Silent) (s : PassState) :
    ((m >>= f).outcome s).2.reports = (m.outcome s).2.reports := by
  rw [outcome_bind]
  rcases m.outcome s with ⟨e | a, t⟩
  · rfl
  · exact hf a t

theorem Silent.bind (hm : m.Silent) (hf : ∀ a, (f a).Silent) : (m >>= f).Silent :=
  fun s => (reports_bind hf s).trans (hm s)

theorem silent_record {e : Event} (he : e.isEstimate = false) : (record e).Silent := by
  intro s
  have hevents : ((record e).outcome s).2.events = s.events ++ [e] := rfl
  rw [PassState.reports, hevents, List.filter_append, List.filter_cons_of_neg (by simp [he]),
    List.filter_nil, List.append_nil]
  rfl

theorem silent_charge (cost : ℤ) : (charge cost).Silent := fun _ => rfl

theorem silent_giveUp : giveUp.Silent := fun _ => rfl

theorem silent_isFeasible : isFeasible.Silent := fun _ => rfl

theorem silent_setDistinct (a : Attribute) (count : ℤ) : (setDistinct a count).Silent :=
  fun _ => rfl

theorem silent_setDistincts (counts : List (Attribute × ℤ)) : (setDistincts counts).Silent := by
  induction counts with
  | nil => exact silent_pure _
  | cons e counts ih => exact (silent_setDistinct _ _).bind fun _ => ih

theorem silent_distinctOf (a : Attribute) : (distinctOf a).Silent := by
  refine Silent.bind (m := get) (fun _ => rfl) fun s => ?_
  split
  · exact silent_pure _
  · exact silent_throw _

theorem silent_resolve (schema : Schema) (reference : Attribute) :
    (resolve schema reference).Silent := by
  unfold resolve
  split
  · exact silent_pure _
  · exact silent_throw _

theorem silent_enoughBuffers (buffers : ℕ) (operation : String) :
    (enoughBuffers buffers operation).Silent := by
  unfold enoughBuffers
  split
  · exact (silent_record rfl).bind fun _ => silent_giveUp.bind fun _ => silent_pure _
  · exact silent_pure _

theorem silent_evaluateScan (catalog : Catalog) (settings : Settings) (table : String)
    (schema : Schema) : (evaluateScan catalog settings table schema).Silent :=
  (silent_lift _).bind fun _ => (silent_setDistincts _).bind fun _ => (silent_lift _).bind fun _ =>
    (silent_charge _).bind fun _ => silent_pure _

theorem silent_evaluateSelect (schema : Schema) (c : Condition) (tuples : ℤ) :
    (evaluateSelect schema c tuples).Silent := by
  refine silent_isFeasible.bind fun feasible => ?_
  split
  · exact silent_pure _
  · exact (silent_resolve _ _).bind fun _ => (silent_distinctOf _).bind fun _ =>
      (silent_lift _).bind fun _ => (silent_setDistincts _).bind fun _ => silent_pure _

theorem silent_applyConditions (left right : Schema) (cs : List Condition) (pairs : Binary64) :
    (applyConditions left right cs pairs).Silent := by
  induction cs generalizing pairs with
  | nil => exact silent_pure _
  | cons c cs ih =>
    refine (silent_resolve _ _).bind fun l => ?_
    dsimp only
    split
    · exact (silent_pure _).bind fun _ => (silent_resolve _ _).bind fun _ =>
        (silent_distinctOf _).bind fun _ => (silent_distinctOf _).bind fun _ =>
          (silent_lift _).bind fun _ => (silent_setDistinct _ _).bind fun _ =>
            (silent_setDistinct _ _).bind fun _ => ih _
    · exact silent_throw_bind _ _

theorem silent_chargeJoin (settings : Settings) (code left right tuples : ℤ) :
    (chargeJoin settings code left right tuples).Silent := by
  unfold chargeJoin
  dsimp only
  split
  · exact (silent_record rfl).bind fun _ => silent_giveUp.bind fun _ => silent_pure _
  · exact (silent_lift _).bind fun _ => (silent_charge _).bind fun _ => silent_pure _
  · refine (silent_enoughBuffers _ _).bind fun enough => ?_
    split
    · exact silent_pure _
    · exact (silent_lift _).bind fun _ => (silent_charge _).bind fun _ => silent_pure _
  · refine (silent_enoughBuffers _ _).bind fun enough => ?_
    split
    · exact silent_pure _
    · exact (silent_lift _).bind fun _ => (silent_lift _).bind fun _ =>
        (silent_record rfl).bind fun _ => (silent_lift _).bind fun _ =>
          (silent_charge _).bind fun _ => silent_pure _

theorem silent_evaluateJoin (settings : Settings) (left right : Schema) (cs : List Condition)
    (code leftTuples rightTuples : ℤ) :
    (evaluateJoin settings left right cs code leftTuples rightTuples).Silent := by
  refine silent_isFeasible.bind fun feasible => ?_
  split
  · exact silent_pure _
  · exact (silent_lift _).bind fun _ => (silent_lift _).bind fun _ => (silent_lift _).bind fun _ =>
      (silent_applyConditions _ _ _ _).bind fun _ => (silent_lift _).bind fun _ =>
        silent_chargeJoin _ _ _ _ _

theorem silent_evaluateSorting (settings : Settings) (operator : String) (size tuples : ℤ) :
    (evaluateSorting settings operator size tuples).Silent := by
  refine silent_isFeasible.bind fun feasible => ?_
  split
  · exact silent_pure _
  · refine (silent_enoughBuffers _ _).bind fun enough => ?_
    split
    · exact silent_pure _
    · exact (silent_lift _).bind fun _ => (silent_lift _).bind fun _ =>
        (silent_charge _).bind fun _ => silent_pure _

theorem silent_evaluateForeign (name : String) : (evaluateForeign name).Silent :=
  (silent_record rfl).bind fun _ => silent_giveUp.bind fun _ => silent_pure _

/-! ### The report at the end of an operator -/

/-- What is reported of an operator that had some outcome. -/
def reportOf (operator : String) : Except Failure ℤ × PassState → List Event
  | (.ok n, t) => [.estimated operator n t.cost]
  | (.error _, _) => []

theorem reports_recordEstimate (m : PassM ℤ) (operator : String) (s : PassState) :
    ((m >>= recordEstimate operator).outcome s).2.reports =
      (m.outcome s).2.reports ++ reportOf operator ((m >>= recordEstimate operator).outcome s) := by
  rw [outcome_bind]
  rcases m.outcome s with ⟨e | n, t⟩
  · exact (List.append_nil _).symm
  · exact List.filter_append _ _

/-- An operator reports once, after what comes before it. -/
theorem reports_operator (m : PassM α) {f : α → PassM ℤ} (hf : ∀ a, (f a).Silent)
    (operator : String) (s : PassState) :
    ((m >>= fun a => f a >>= recordEstimate operator).outcome s).2.reports =
      (m.outcome s).2.reports ++
        reportOf operator ((m >>= fun a => f a >>= recordEstimate operator).outcome s) := by
  rw [← bind_assoc, reports_recordEstimate, reports_bind hf]

end PassM

/-- What is reported of a visit: nothing if the operator is not known or the pass failed there. -/
def Visit.report (v : Visit) : List Event :=
  match v.operator with
  | .foreign _ _ _ | .foreignLeaf _ _ => []
  | p => PassM.reportOf p.operatorName (v.result, v.after)

theorem Visit.eq_of_mem_report {v : Visit} {n : ℤ} {event : Event} (h : event ∈ v.report)
    (hresult : v.result = .ok n) :
    event = .estimated v.operator.operatorName n v.after.cost := by
  unfold report at h
  split at h
  · cases h
  · cases h
  · rw [hresult] at h
    exact List.mem_singleton.1 h

namespace Plan

open PassM

/-- The reports of a pass are its visits, whether it returns or fails. -/
theorem reports_evaluateAs (catalog : Catalog) (settings : Settings) (p : Plan) (outputs : Outputs)
    (s : PassState) :
    ((p.evaluateAs catalog settings outputs).outcome s).2.reports =
      s.reports ++ (p.visitsAs catalog settings outputs s).flatMap Visit.report := by
  induction p generalizing outputs s with
  | scan table schema =>
    rw [evaluateAs, reports_recordEstimate, silent_evaluateScan]
    simp [visitsAs, visitAs, Visit.report, evaluateAs]
  | select base c ih =>
    rw [evaluateAs, reports_operator _ fun _ => silent_evaluateSelect _ _ _, ih]
    simp [visitsAs, visitAs, Visit.report, evaluateAs]
  | project base columns ih =>
    rw [evaluateAs, reports_recordEstimate, ih]
    simp [visitsAs, visitAs, Visit.report, evaluateAs]
  | join left right cs code place ihl ihr =>
    have hleft := ihl (outputs.below 0) s
    have hjoin := outcome_bind (left.evaluateAs catalog settings (outputs.below 0)) (fun l => do
      let r ← right.evaluateAs catalog settings (outputs.below 1)
      recordEstimate (join left right cs code place).operatorName
        (← evaluateJoin settings (outputs [0]) (outputs [1]) cs code l r)) s
    rw [← evaluateAs] at hjoin
    rcases hresult : (left.evaluateAs catalog settings (outputs.below 0)).outcome s with ⟨e | l, t⟩
    · -- The pass failed on the left side, so it reports neither the right side nor the join.
      rw [hresult] at hleft hjoin
      simp [visitsAs, visitAs, hresult, hjoin, Visit.report, reportOf, hleft]
    · rw [hresult] at hleft hjoin
      dsimp only at hjoin
      rw [hjoin, reports_operator _ fun _ => silent_evaluateJoin _ _ _ _ _ _ _, ihr, hleft]
      simp [visitsAs, visitAs, hresult, hjoin, Visit.report]
  | sorting base task buffers ih =>
    rw [evaluateAs, reports_operator _ fun _ => silent_evaluateSorting _ _ _ _, ih]
    simp [visitsAs, visitAs, Visit.report, evaluateAs]
  | foreign base name output | foreignLeaf name output =>
    rw [evaluateAs, silent_evaluateForeign]
    simp [visitsAs, visitAs, Visit.report]

/-- The reports of the pass over a plan are its visits. -/
theorem reports_pass (catalog : Catalog) (settings : Settings) (p : Plan) :
    (p.pass catalog settings).2.reports = (p.visits catalog settings {}).flatMap Visit.report := by
  have hreports := reports_evaluateAs catalog settings p p.outputs {}
  rwa [evaluateAs_outputs] at hreports

/-- What is reported of an operator of a feasible plan is what the operator is estimated to put out
alone. -/
theorem reported_alone {catalog : Catalog} {settings : Settings} {p : Plan} {e : Estimate}
    (h : p.estimate catalog settings = .ok e) (he : e.feasible = true) {event : Event}
    (hevent : event ∈ (p.pass catalog settings).2.reports) :
    ∃ (q : Plan) (alone : Estimate) (cost : ℤ), q.IsPart p ∧
      q.estimate catalog settings = .ok alone ∧
      event = .estimated q.operatorName alone.cardinality cost := by
  rw [reports_pass] at hevent
  obtain ⟨v, hv, hreport⟩ := List.mem_flatMap.1 hevent
  have hcover := (yields_of_estimate h he).cover_visits (s := {}) rfl rfl
  obtain ⟨n, m', cost, hyields, hresult, -⟩ := hcover.yielded v hv
  refine ⟨v.operator, _, v.after.cost, ?_, hyields.estimate_alone, ?_⟩
  · exact hcover.perm.mem_iff.1 (List.mem_map_of_mem hv)
  · exact Visit.eq_of_mem_report hreport hresult

end Plan

end QueryPlan
