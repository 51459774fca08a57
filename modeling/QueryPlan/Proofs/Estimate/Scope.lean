import Mathlib
import QueryPlan.Proofs.Estimate.Pass
import QueryPlan.Proofs.Plan.Parts

/-!
# Plans whose columns are in scope

A pass looks up columns in two ways: in the schema of what lies below an operator, and in the map of
distinct counts. The first succeeds where the plan is *scoped*. The second then succeeds as well:
the scans below an operator have set a count for every column of its schema, and no operator removes
one.

Which algorithms carry out the joins plays no part in this, so it holds of every plan that differs
from a scoped one in their codes only.

## Main definitions

* `Plan.Scoped` : the columns of all conditions are there in what lies below.
* `PassState.Measures` : a column has a distinct count.
* `Plan.withoutAlgorithms` : a plan with the codes of its joins erased.

## Main results

* `Plan.evaluate_meets` : a pass over a scoped plan sets the distinct counts of its columns, and
  does not fail because of a column.
* `Plan.Scoped.of_withoutAlgorithms` : the codes of joins play no part in the scope of columns.
* `Plan.Scoped.estimate_error` : how the estimate of a scoped plan does not fail.
-/

namespace QueryPlan

/-- A condition compares a column of the left schema with one of the right schema. -/
def Condition.Relates (c : Condition) (left right : Schema) : Prop :=
  left.contains c.lhs = true ∧ ∃ a, c.rhs = .column a ∧ right.contains a = true

/-- A column has a distinct count. -/
def PassState.Measures (s : PassState) (a : Attribute) : Prop :=
  ∃ count, s.distinct.get? a.key = some count

/-- No column that has a distinct count loses it. -/
def PassState.Keeps (s t : PassState) : Prop := ∀ a, s.Measures a → t.Measures a

namespace PassState.Keeps

variable {s t u : PassState}

theorem refl (s : PassState) : s.Keeps s := fun _ ha => ha

theorem trans (hst : s.Keeps t) (htu : t.Keeps u) : s.Keeps u := fun a ha => htu a (hst a ha)

theorem of_distinct_eq (h : t.distinct = s.distinct) : s.Keeps t := by
  rintro a ⟨count, hcount⟩
  exact ⟨count, h ▸ hcount⟩

end PassState.Keeps

/-! ### Steps that look up columns -/

namespace PassM

variable {s : PassState} {schema left right : Schema} {a : Attribute} {c : Condition}
  {cs : List Condition}

theorem setDistinct_meets (s : PassState) (a : Attribute) (count : ℤ) :
    (setDistinct a count).Meets s fun _ t => s.Keeps t ∧ t.Measures a := by
  have hself : (s.distinct.insert a.key count).get? a.key = some count :=
    OrderedMap.get?_insert_self _ _ _
  refine .modify ⟨?_, count, hself⟩
  rintro b ⟨n, hn⟩
  by_cases hab : a.key = b.key
  · exact ⟨count, hab ▸ hself⟩
  · exact ⟨n, by rw [OrderedMap.get?_insert, if_neg hab, hn]⟩

theorem setDistincts_meets (s : PassState) (counts : List (Attribute × ℤ)) :
    (setDistincts counts).Meets s fun _ t => s.Keeps t ∧ ∀ entry ∈ counts, t.Measures entry.1 := by
  induction counts generalizing s with
  | nil => exact .pure ⟨.refl s, nofun⟩
  | cons entry counts ih =>
    refine (setDistinct_meets s entry.1 entry.2).bind fun _ t ⟨ht, hentry⟩ => ?_
    refine (ih t).mono fun _ u ⟨hu, hcounts⟩ => ⟨ht.trans hu, ?_⟩
    exact List.forall_mem_cons.2 ⟨hu _ hentry, hcounts⟩

/-- Looking up the distinct count of a column that has one does not fail. -/
theorem distinctOf_bind {β : Type} {f : ℤ → PassM β} {R : β → PassState → Prop}
    (ha : s.Measures a) (hf : ∀ count, (f count).Meets s R) : (distinctOf a >>= f).Meets s R := by
  obtain ⟨count, hcount⟩ := ha
  refine .bind (Q := fun _ t => t = s) ?_ fun count t ht => ht ▸ hf count
  refine .get_bind ?_
  rw [hcount]
  exact .pure rfl

/-- Looking up a column that a schema has does not fail. -/
theorem resolve_bind {β : Type} {f : Attribute → PassM β} {R : β → PassState → Prop}
    (ha : schema.contains a = true) (hf : ∀ b ∈ schema.attributes, (f b).Meets s R) :
    (resolve schema a >>= f).Meets s R := by
  obtain ⟨b, hb⟩ := Option.isSome_iff_exists.1 ha
  unfold resolve
  rw [hb]
  exact .bind (Q := fun c t => c = b ∧ t = s) (.pure ⟨rfl, rfl⟩) fun c t ⟨hc, ht⟩ =>
    ht ▸ hc ▸ hf b (List.mem_of_find?_eq_some hb)

/-- A scan sets the distinct counts of all columns of its table. -/
theorem evaluateScan_meets (s : PassState) (catalog : Catalog) (settings : Settings)
    (table : String) (schema : Schema) :
    (evaluateScan catalog settings table schema).Meets s fun _ t =>
      s.Keeps t ∧ ∀ a ∈ schema.attributes, t.Measures a := by
  refine .lift_bind (tame_loadStatistics _ _ _) fun statistics hload => ?_
  have hlength : statistics.distinctCounts.length = schema.attributes.length := by
    exact_mod_cast Catalog.length_of_loadStatistics hload
  refine (setDistincts_meets s _).bind fun _ t ⟨ht, hcounts⟩ => ?_
  have hmeasures : ∀ a ∈ schema.attributes, t.Measures a := by
    intro a ha
    obtain ⟨i, hi, rfl⟩ := List.getElem_of_mem ha
    have hi' : i < (statistics.distinctCounts.map Int.ofNat).length := by simpa [hlength]
    exact hcounts (_, (statistics.distinctCounts.map Int.ofNat)[i])
      (List.mem_iff_getElem.2 ⟨i, by simpa [hlength], List.getElem_zip⟩)
  refine .lift_bind (tame_pagesOf _ _ _) fun pages _ => ?_
  refine (charge_meets t pages).bind fun _ u hu => .pure ?_
  have htu := PassState.Keeps.of_distinct_eq hu
  exact ⟨ht.trans htu, fun a ha => htu a (hmeasures a ha)⟩

theorem evaluateSelect_meets (hc : schema.contains c.lhs = true)
    (hs : ∀ a ∈ schema.attributes, s.Measures a) (tuples : ℤ) :
    (evaluateSelect schema c tuples).Meets s fun _ t => s.Keeps t := by
  refine isFeasible_bind ?_
  split
  · exact .pure (.refl s)
  · refine resolve_bind hc fun a ha => distinctOf_bind (hs a ha) fun count => ?_
    refine .lift_bind (tame_selectedTuples _ _ _) fun kept _ => ?_
    exact (setDistincts_meets s _).bind fun _ t ht => .pure ht.1

/-- The conditions of a join only look up columns of its two sides, whose counts are kept. -/
theorem applyConditions_meets (hcs : ∀ c ∈ cs, c.Relates left right)
    (hl : ∀ a ∈ left.attributes, s.Measures a) (hr : ∀ a ∈ right.attributes, s.Measures a)
    (pairs : Binary64) :
    (applyConditions left right cs pairs).Meets s fun _ t => s.Keeps t := by
  induction cs generalizing s pairs with
  | nil => exact .pure (.refl s)
  | cons c cs ih =>
    obtain ⟨⟨hlhs, x, hrhs, hx⟩, hcs⟩ := List.forall_mem_cons.1 hcs
    unfold applyConditions
    rw [hrhs]
    refine resolve_bind hlhs fun a ha => ?_
    refine .bind (Q := fun y t => y = x ∧ t = s) (.pure ⟨rfl, rfl⟩) ?_
    rintro _ s ⟨rfl, rfl⟩
    refine resolve_bind hx fun b hb => ?_
    refine distinctOf_bind (hl a ha) fun dl => distinctOf_bind (hr b hb) fun dr => ?_
    refine .lift_bind (tame_matchingPairs _ _ _) fun kept _ => ?_
    refine (setDistinct_meets s a _).bind fun _ t ⟨ht, _⟩ => ?_
    refine (setDistinct_meets t b _).bind fun _ u ⟨hu, _⟩ => ?_
    have hsu := ht.trans hu
    exact (ih hcs (fun y hy => hsu y (hl y hy)) (fun y hy => hsu y (hr y hy)) kept).mono
      fun _ _ hv => hsu.trans hv

theorem evaluateJoin_meets (hcs : ∀ c ∈ cs, c.Relates left right)
    (hl : ∀ a ∈ left.attributes, s.Measures a) (hr : ∀ a ∈ right.attributes, s.Measures a)
    (settings : Settings) (code leftTuples rightTuples : ℤ) :
    (evaluateJoin settings left right cs code leftTuples rightTuples).Meets s
      fun _ t => s.Keeps t := by
  refine isFeasible_bind ?_
  split
  · exact .pure (.refl s)
  · refine .lift_bind (tame_pagesOf _ _ _) fun leftPages _ => ?_
    refine .lift_bind (tame_pagesOf _ _ _) fun rightPages _ => ?_
    refine .lift_bind (tame_crossProduct _ _) fun pairs _ => ?_
    refine (applyConditions_meets hcs hl hr pairs).bind fun kept t ht => ?_
    refine .lift_bind (tame_ceilReal kept) fun tuples _ => ?_
    exact (chargeJoin_meets t settings code leftPages rightPages tuples).mono fun _ u hu =>
      ht.trans (.of_distinct_eq hu)

/-- What is recorded of an operator at the end changes no distinct count. -/
theorem recordEstimate_measures {t : PassState} (hst : s.Keeps t)
    (ht : ∀ a ∈ schema.attributes, t.Measures a) (operator : String) (tuples : ℤ) :
    (recordEstimate operator tuples).Meets t fun _ u =>
      s.Keeps u ∧ ∀ a ∈ schema.attributes, u.Measures a := by
  refine (recordEstimate_meets t operator tuples).mono fun _ u hu => ?_
  have htu := PassState.Keeps.of_distinct_eq hu
  exact ⟨hst.trans htu, fun a ha => htu a (ht a ha)⟩

end PassM

namespace Plan

open PassM

variable {catalog : Catalog} {p q base : Plan} {cs : List Condition}

/-! ### Scoped plans -/

/-- The columns that a pass looks up are there: that of a selection in what it selects from, and
those of the conditions of a join in its left and its right side. -/
def Scoped : Plan → Prop
  | scan _ _ => True
  | select base c => base.Scoped ∧ base.schema.contains c.lhs = true
  | project base _ => base.Scoped
  | join left right cs _ _ =>
    left.Scoped ∧ right.Scoped ∧ ∀ c ∈ cs, c.Relates left.schema right.schema
  | sorting base _ _ => base.Scoped
  | foreign _ _ _ => False
  | foreignLeaf _ _ => False

theorem Scoped.foldl_select (hp : p.Scoped) (hcs : ∀ c ∈ cs, p.schema.contains c.lhs = true) :
    (cs.foldl select p).Scoped := by
  induction cs generalizing p with
  | nil => exact hp
  | cons c cs ih =>
    obtain ⟨hc, hcs⟩ := List.forall_mem_cons.1 hcs
    exact ih ⟨hp, hc⟩ hcs

@[simp] theorem scoped_core : p.core.Scoped ↔ p.Scoped := by
  induction p with
  | project base _ ih | sorting base _ _ ih => exact ih
  | scan | select | join | foreign | foreignLeaf => rfl

/-! ### Codes of joins -/

/-- The plan with the codes of all its joins erased. -/
def withoutAlgorithms : Plan → Plan
  | scan table output => scan table output
  | select base c => select base.withoutAlgorithms c
  | project base columns => project base.withoutAlgorithms columns
  | join left right cs _ place => join left.withoutAlgorithms right.withoutAlgorithms cs 0 place
  | sorting base task buffers => sorting base.withoutAlgorithms task buffers
  | foreign base name output => foreign base.withoutAlgorithms name output
  | foreignLeaf name output => foreignLeaf name output

@[simp] theorem schema_withoutAlgorithms (p : Plan) : p.withoutAlgorithms.schema = p.schema := by
  induction p with
  | select base c ih | sorting base _ _ ih => exact ih
  | project base columns ih => simp only [withoutAlgorithms, schema, ih]
  | join left right cs code place ihl ihr => simp only [withoutAlgorithms, schema, ihl, ihr]
  | scan | foreign | foreignLeaf => rfl

@[simp] theorem scoped_withoutAlgorithms : p.withoutAlgorithms.Scoped ↔ p.Scoped := by
  induction p with
  | select base c ih =>
    simp only [withoutAlgorithms, Scoped, ih, schema_withoutAlgorithms]
  | project base _ ih | sorting base _ _ ih => exact ih
  | join left right cs code place ihl ihr =>
    simp only [withoutAlgorithms, Scoped, ihl, ihr, schema_withoutAlgorithms]
  | scan | foreign | foreignLeaf => rfl

theorem Scoped.of_withoutAlgorithms (hp : p.Scoped)
    (hpq : q.withoutAlgorithms = p.withoutAlgorithms) : q.Scoped := by
  rwa [← scoped_withoutAlgorithms, hpq, scoped_withoutAlgorithms]

/-- Giving a join another algorithm only changes codes. -/
theorem withoutAlgorithms_setAlgorithmFrom (rank : ℕ) (code : ℤ) (p : Plan) (passed : ℕ) :
    (p.setAlgorithmFrom rank code passed).1.withoutAlgorithms = p.withoutAlgorithms := by
  induction p generalizing passed with
  | select base c ih | project base _ ih | sorting base _ _ ih | foreign base _ _ ih =>
    simp only [setAlgorithmFrom, withoutAlgorithms, ih]
  | join left right cs _ place ihl ihr => simp only [setAlgorithmFrom, withoutAlgorithms, ihl, ihr]
  | scan | foreignLeaf => rfl

theorem withoutAlgorithms_setAlgorithm (p : Plan) (rank : ℕ) (code : ℤ) :
    (p.setAlgorithm rank code).withoutAlgorithms = p.withoutAlgorithms :=
  withoutAlgorithms_setAlgorithmFrom rank code p 0

/-! ### A pass over a scoped plan -/

/-- A pass over a scoped plan sets the distinct counts of its columns, and does not fail because of
a column. -/
theorem evaluate_meets (hp : p.Scoped) (catalog : Catalog) (settings : Settings) (s : PassState) :
    (p.evaluate catalog settings).Meets s fun _ t =>
      s.Keeps t ∧ ∀ a ∈ p.schema.attributes, t.Measures a := by
  induction p generalizing s with
  | scan table schema =>
    exact (evaluateScan_meets s catalog settings table schema).bind fun _ t ht =>
      recordEstimate_measures ht.1 ht.2 _ _
  | select base c ih =>
    refine (ih hp.1 s).bind fun tuples t ht => ?_
    refine (evaluateSelect_meets hp.2 ht.2 tuples).bind fun _ u hu => ?_
    exact recordEstimate_measures (ht.1.trans hu) (fun a ha => hu a (ht.2 a ha)) _ _
  | project base columns ih =>
    refine (ih hp s).bind fun tuples t ht => ?_
    refine recordEstimate_measures ht.1 (fun a ha => ?_) _ _
    obtain ⟨reference, -, hreference⟩ := List.mem_filterMap.1 ha
    exact ht.2 a (List.mem_of_find?_eq_some hreference)
  | join left right cs code place ihl ihr =>
    obtain ⟨hleft, hright, hcs⟩ := hp
    refine (ihl hleft s).bind fun leftTuples t ht => ?_
    refine (ihr hright t).bind fun rightTuples u hu => ?_
    have hl : ∀ a ∈ left.schema.attributes, u.Measures a := fun a ha => hu.1 a (ht.2 a ha)
    refine (evaluateJoin_meets hcs hl hu.2 settings code leftTuples rightTuples).bind
      fun _ v hv => ?_
    refine recordEstimate_measures (ht.1.trans (hu.1.trans hv)) (fun a ha => hv a ?_) _ _
    exact (List.mem_append.1 ha).elim (hl a) (hu.2 a)
  | sorting base task buffers ih =>
    refine (ih hp s).bind fun tuples t ht => ?_
    refine (evaluateSorting_meets t settings _ _ tuples).bind fun _ u hu => ?_
    have htu := PassState.Keeps.of_distinct_eq hu
    exact recordEstimate_measures (ht.1.trans htu) (fun a ha => htu a (ht.2 a ha)) _ _
  | foreign | foreignLeaf => exact hp.elim

/-- The estimate of a scoped plan does not fail because of a column. -/
theorem Scoped.estimate_error (hp : p.Scoped) {settings : Settings} {e : Failure}
    (he : p.estimate catalog settings = .error e) : ¬ e.IsScope := by
  rcases hpass : p.pass catalog settings with ⟨e' | tuples, s⟩
  · obtain rfl : e' = e := by simpa [estimate, hpass, Except.map] using he
    exact (evaluate_meets hp catalog settings {}).fails hpass
  · simp [estimate, hpass, Except.map] at he

end Plan

end QueryPlan
