import Mathlib
import QueryPlan.Proofs.Estimate.Context
import QueryPlan.Proofs.Estimate.Scope

/-!
# Other algorithms change charges only

Two plans that differ in the codes of their joins only, and are both feasible, put out the same
tuples and leave the same distinct counts. Their joins take the same pages from both sides, and the
costs of the plans differ by what the charges of the joins for these pages differ. So a search that
replaces the algorithms of a plan compares charges of joins and nothing else.

## Main definitions

* `Visit.Joins` : a visit of a join with a given code that takes given pages from its sides.
* `Recoding` : a join with its codes in two plans and the pages that it takes in both.

## Main results

* `Plan.recode_of_yields` : what two plans yield that differ in codes only.
* `Plan.estimate_recode` : how their estimates differ.
-/

namespace QueryPlan

/-- A visit of a join with the given code, whose sides put out tuples on the given pages. -/
def Visit.Joins (settings : Settings) (v : Visit) (code leftPages rightPages : ℤ) : Prop :=
  ∃ (left right : Plan) (cs : List Condition) (place l r : ℤ),
    v.operator = .join left right cs code place ∧ v.inputs = [l, r] ∧
    pagesOf settings.pageSize l left.schema.tupleSize = .ok leftPages ∧
    pagesOf settings.pageSize r right.schema.tupleSize = .ok rightPages

/-- A join that has one code in a plan and another code in another plan, and the pages that it takes
from its sides. -/
structure Recoding where
  code : ℤ
  code' : ℤ
  leftPages : ℤ
  rightPages : ℤ

/-- The difference of the charges of a join by its codes. -/
def Recoding.difference (join : Recoding) (buffers : ℕ) : ℤ :=
  chargeOfCode join.code' join.leftPages join.rightPages buffers -
    chargeOfCode join.code join.leftPages join.rightPages buffers

/-- Joins are visited in two passes with the pages that they take in both, by their codes in
each. -/
structure Recoding.Pairs (settings : Settings) (vs vs' : List Visit) (joins : List Recoding) :
    Prop where
  fst : List.Forall₂ (fun v j => v.Joins settings j.code j.leftPages j.rightPages) vs joins
  snd : List.Forall₂ (fun v j => v.Joins settings j.code' j.leftPages j.rightPages) vs' joins

namespace Recoding.Pairs

variable {settings : Settings} {vs vs' ws ws' : List Visit} {joins joins' : List Recoding}

theorem nil : Pairs settings [] [] [] := ⟨.nil, .nil⟩

theorem append (h : Pairs settings vs vs' joins) (h' : Pairs settings ws ws' joins') :
    Pairs settings (vs ++ ws) (vs' ++ ws') (joins ++ joins') :=
  ⟨List.rel_append h.fst h'.fst, List.rel_append h.snd h'.snd⟩

end Recoding.Pairs

namespace Plan

variable {catalog : Catalog} {settings : Settings} {p p' base left right : Plan} {m m' m'' : Counts}
  {s t u v : PassState} {n k cost cost' : ℤ}

/-! ### Visits of joins -/

/-- The visits of joins in a pass over a plan. -/
def joinVisits (catalog : Catalog) (settings : Settings) (p : Plan) (s : PassState) : List Visit :=
  (p.visits catalog settings s).filter fun v => v.operator.isJoin

/-- An operator with one input adds no visit of a join. -/
theorem joinVisits_of_input (h : p.Yields catalog settings m n m' cost) (hs : s.feasible = true)
    (hm : s.distinct = m) (hp : p.input? = some base) :
    p.joinVisits catalog settings s = base.joinVisits catalog settings s := by
  have hjoin : p.isJoin = false := by
    cases p with
    | join => cases hp
    | scan | select | project | sorting | foreign | foreignLeaf => rfl
  obtain ⟨t, hreturns, -⟩ := h.returns hs hm
  obtain ⟨tuples, m₁, baseCost, hbase⟩ := h.input hp
  obtain ⟨u, hbaseReturns, -⟩ := hbase.returns hs hm
  rw [joinVisits, visits_of_input hp hbaseReturns hreturns, List.filter_append,
    List.filter_cons_of_neg (by simp [hjoin]), List.filter_nil, List.append_nil]
  rfl

theorem joinVisits_join {cs : List Condition} {code place l r : ℤ}
    (hleft : (left.evaluate catalog settings).Returns s l u)
    (hright : (right.evaluate catalog settings).Returns u r v)
    (h : ((join left right cs code place).evaluate catalog settings).Returns s n t) :
    (join left right cs code place).joinVisits catalog settings s =
      left.joinVisits catalog settings s ++ right.joinVisits catalog settings u ++
        [⟨join left right cs code place, [l, r], s, .ok n, t⟩] := by
  rw [joinVisits, visits_join hleft hright h, List.filter_append, List.filter_append]
  rfl

/-- Every join of a plan that yields something is visited. -/
theorem joinVisits_perm_joins (h : p.Yields catalog settings m n m' cost) (hs : s.feasible = true)
    (hm : s.distinct = m) :
    ((p.joinVisits catalog settings s).map Visit.operator).Perm p.joins := by
  rw [joins, walk_eq_preorder, joinVisits]
  have hperm := (h.cover_visits hs hm).perm.filter isJoin
  rwa [List.filter_map] at hperm

/-! ### Plans that differ in the codes of their joins -/

theorem eq_scan_of_withoutAlgorithms {table : String} {schema : Schema}
    (h : p.withoutAlgorithms = (scan table schema).withoutAlgorithms) : p = scan table schema := by
  cases p <;> simp_all [withoutAlgorithms]

theorem eq_select_of_withoutAlgorithms {c : Condition}
    (h : p.withoutAlgorithms = (select base c).withoutAlgorithms) :
    ∃ base' : Plan, p = select base' c ∧ base'.withoutAlgorithms = base.withoutAlgorithms := by
  cases p <;> simp_all [withoutAlgorithms]

theorem eq_project_of_withoutAlgorithms {columns : List Attribute}
    (h : p.withoutAlgorithms = (project base columns).withoutAlgorithms) :
    ∃ base' : Plan, p = project base' columns ∧
      base'.withoutAlgorithms = base.withoutAlgorithms := by
  cases p <;> simp_all [withoutAlgorithms]

theorem eq_join_of_withoutAlgorithms {cs : List Condition} {code place : ℤ}
    (h : p.withoutAlgorithms = (join left right cs code place).withoutAlgorithms) :
    ∃ (left' right' : Plan) (code' : ℤ), p = join left' right' cs code' place ∧
      left'.withoutAlgorithms = left.withoutAlgorithms ∧
      right'.withoutAlgorithms = right.withoutAlgorithms := by
  cases p <;> simp_all [withoutAlgorithms]

theorem eq_sorting_of_withoutAlgorithms {task : SortTask} {buffers : ℤ}
    (h : p.withoutAlgorithms = (sorting base task buffers).withoutAlgorithms) :
    ∃ base' : Plan, p = sorting base' task buffers ∧
      base'.withoutAlgorithms = base.withoutAlgorithms := by
  cases p <;> simp_all [withoutAlgorithms]

theorem schema_eq_of_withoutAlgorithms (h : p'.withoutAlgorithms = p.withoutAlgorithms) :
    p'.schema = p.schema := by
  rw [← schema_withoutAlgorithms, h, schema_withoutAlgorithms]

/-! ### Charges of two passes -/

/-- Passes over two plans, from states with the distinct counts `m`, visit the same joins with other
codes, and the charges of these joins differ by `difference` in all. -/
def ChargesDiffer (catalog : Catalog) (settings : Settings) (p p' : Plan) (m : Counts)
    (difference : ℤ) : Prop :=
  ∀ s s' : PassState, s.feasible = true → s.distinct = m → s'.feasible = true → s'.distinct = m →
    ∃ joins : List Recoding,
      Recoding.Pairs settings (p.joinVisits catalog settings s) (p'.joinVisits catalog settings s')
        joins ∧
      difference = (joins.map fun j => j.difference settings.buffersPerJoin).sum

theorem ChargesDiffer.of_input {base' : Plan} {difference : ℤ}
    (hbase : base.ChargesDiffer catalog settings base' m difference)
    (h : p.Yields catalog settings m n m' cost) (hp : p.input? = some base)
    (h' : p'.Yields catalog settings m k m'' cost') (hp' : p'.input? = some base') :
    p.ChargesDiffer catalog settings p' m difference := by
  intro s s' hs hm hs' hm'
  rw [joinVisits_of_input h hs hm hp, joinVisits_of_input h' hs' hm' hp']
  exact hbase s s' hs hm hs' hm'

/-- The charges of two joins of the same pages differ in addition to those of joins below them. -/
theorem ChargesDiffer.join {left' right' : Plan} {cs : List Condition}
    {code code' place l r d d' leftCost leftCost' rightCost rightCost' leftPages rightPages : ℤ}
    {m₁ m₂ : Counts} (hlefts : left.ChargesDiffer catalog settings left' m d)
    (hrights : right.ChargesDiffer catalog settings right' m₁ d')
    (hleft : left.Yields catalog settings m l m₁ leftCost)
    (hleft' : left'.Yields catalog settings m l m₁ leftCost')
    (hright : right.Yields catalog settings m₁ r m₂ rightCost)
    (hright' : right'.Yields catalog settings m₁ r m₂ rightCost')
    (h : (Plan.join left right cs code place).Yields catalog settings m n m' cost)
    (h' : (Plan.join left' right' cs code' place).Yields catalog settings m k m'' cost')
    (hleftPages : pagesOf settings.pageSize l left.schema.tupleSize = .ok leftPages)
    (hleftPages' : pagesOf settings.pageSize l left'.schema.tupleSize = .ok leftPages)
    (hrightPages : pagesOf settings.pageSize r right.schema.tupleSize = .ok rightPages)
    (hrightPages' : pagesOf settings.pageSize r right'.schema.tupleSize = .ok rightPages) :
    (Plan.join left right cs code place).ChargesDiffer catalog settings
      (Plan.join left' right' cs code' place) m
      (d + d' + Recoding.difference ⟨code, code', leftPages, rightPages⟩
        settings.buffersPerJoin) := by
  intro s s' hs hm hs' hm'
  obtain ⟨t, hreturns, -⟩ := h.returns hs hm
  obtain ⟨t', hreturns', -⟩ := h'.returns hs' hm'
  obtain ⟨u, hleftReturns, hu, hdistinct, -⟩ := hleft.returns hs hm
  obtain ⟨u', hleftReturns', hu', hdistinct', -⟩ := hleft'.returns hs' hm'
  obtain ⟨v, hrightReturns, -⟩ := hright.returns hu hdistinct
  obtain ⟨v', hrightReturns', -⟩ := hright'.returns hu' hdistinct'
  obtain ⟨leftJoins, hleftPairs, rfl⟩ := hlefts s s' hs hm hs' hm'
  obtain ⟨rightJoins, hrightPairs, rfl⟩ := hrights u u' hu hdistinct hu' hdistinct'
  rw [joinVisits_join hleftReturns hrightReturns hreturns,
    joinVisits_join hleftReturns' hrightReturns' hreturns']
  refine ⟨leftJoins ++ rightJoins ++ [⟨code, code', leftPages, rightPages⟩],
    (hleftPairs.append hrightPairs).append ⟨.cons ?_ .nil, .cons ?_ .nil⟩, ?_⟩
  · exact ⟨left, right, cs, place, l, r, rfl, rfl, hleftPages, hrightPages⟩
  · exact ⟨left', right', cs, place, l, r, rfl, rfl, hleftPages', hrightPages'⟩
  · simp only [List.map_append, List.sum_append, List.map_cons, List.map_nil, List.sum_cons,
      List.sum_nil, add_zero]

/-- Two plans that differ in the codes of their joins only yield the same, but for the charges of
the joins. -/
theorem recode_of_yields (h : p.Yields catalog settings m n m' cost)
    (hp : p'.withoutAlgorithms = p.withoutAlgorithms)
    (h' : p'.Yields catalog settings m k m'' cost') :
    k = n ∧ m'' = m' ∧ p.ChargesDiffer catalog settings p' m (cost' - cost) := by
  induction p generalizing p' m n m' cost k m'' cost' with
  | scan table schema =>
    obtain rfl := eq_scan_of_withoutAlgorithms hp
    obtain ⟨rfl, rfl, rfl⟩ := h'.unique h
    refine ⟨rfl, rfl, fun s s' hs hm hs' hm' => ⟨[], ?_, sub_self _⟩⟩
    obtain ⟨t, hreturns, -⟩ := h.returns hs hm
    obtain ⟨t', hreturns', -⟩ := h.returns hs' hm'
    rw [joinVisits, joinVisits, visits_scan hreturns, visits_scan hreturns']
    exact .nil
  | select base c ih =>
    obtain ⟨base', rfl, hbases⟩ := eq_select_of_withoutAlgorithms hp
    have hwhole := h
    have hwhole' := h'
    cases h with
    | select hbase hkeeps =>
      cases h' with
      | select hbase' hkeeps' =>
        obtain ⟨rfl, rfl, hdiffer⟩ := ih hbase hbases hbase'
        rw [schema_eq_of_withoutAlgorithms hbases] at hkeeps'
        obtain ⟨rfl, rfl, -⟩ := (Yields.select hbase hkeeps').unique hwhole
        exact ⟨rfl, rfl, hdiffer.of_input hwhole rfl hwhole' rfl⟩
  | project base columns ih =>
    obtain ⟨base', rfl, hbases⟩ := eq_project_of_withoutAlgorithms hp
    have hwhole := h
    have hwhole' := h'
    cases h with
    | project hbase =>
      cases h' with
      | project hbase' =>
        obtain ⟨rfl, rfl, hdiffer⟩ := ih hbase hbases hbase'
        exact ⟨rfl, rfl, hdiffer.of_input hwhole rfl hwhole' rfl⟩
  | join left right cs code place ihl ihr =>
    obtain ⟨left', right', code', rfl, hlefts, hrights⟩ := eq_join_of_withoutAlgorithms hp
    have hwhole := h
    have hwhole' := h'
    cases h with
    | join hleft hright hleftPages hrightPages hmatch hcode =>
      cases h' with
      | join hleft' hright' hleftPages' hrightPages' hmatch' hcode' =>
        obtain ⟨rfl, rfl, hleftDiffer⟩ := ihl hleft hlefts hleft'
        obtain ⟨rfl, rfl, hrightDiffer⟩ := ihr hright hrights hright'
        have hl := schema_eq_of_withoutAlgorithms hlefts
        have hr := schema_eq_of_withoutAlgorithms hrights
        obtain rfl := Except.ok.inj ((hl ▸ hleftPages').symm.trans hleftPages)
        obtain rfl := Except.ok.inj ((hr ▸ hrightPages').symm.trans hrightPages)
        rw [hl, hr] at hmatch'
        obtain ⟨rfl, rfl, -⟩ :=
          (Yields.join hleft hright hleftPages hrightPages hmatch' hcode).unique hwhole
        have hcharges := hleftDiffer.join hrightDiffer hleft hleft' hright hright' hwhole hwhole'
          hleftPages hleftPages' hrightPages hrightPages'
        refine ⟨rfl, rfl, ?_⟩
        convert hcharges using 1
        rw [Recoding.difference]
        ring
  | sorting base task buffers ih =>
    obtain ⟨base', rfl, hbases⟩ := eq_sorting_of_withoutAlgorithms hp
    have hwhole := h
    have hwhole' := h'
    cases h with
    | sorting hbase hbuffers hpages hcost =>
      cases h' with
      | sorting hbase' _ hpages' hcost' =>
        obtain ⟨rfl, rfl, hdiffer⟩ := ih hbase hbases hbase'
        rw [schema_eq_of_withoutAlgorithms hbases] at hpages'
        obtain rfl := Except.ok.inj (hpages'.symm.trans hpages)
        obtain rfl := Except.ok.inj (hcost'.symm.trans hcost)
        rw [add_sub_add_right_eq_sub]
        exact ⟨rfl, rfl, hdiffer.of_input hwhole rfl hwhole' rfl⟩
  | foreign base name output | foreignLeaf name output => cases h

/-- Where two plans that differ in the codes of their joins only are both feasible, they put out as
many tuples and leave the same distinct counts. Both passes visit every join, with the same pages
from its sides, and the costs differ by the differences of the charges of the joins for these
pages. -/
theorem estimate_recode {e e' : Estimate} (hp : p'.withoutAlgorithms = p.withoutAlgorithms)
    (h : p.estimate catalog settings = .ok e) (he : e.feasible = true)
    (h' : p'.estimate catalog settings = .ok e') (he' : e'.feasible = true) :
    e'.cardinality = e.cardinality ∧
      (p'.pass catalog settings).2.distinct = (p.pass catalog settings).2.distinct ∧
      ((p.joinVisits catalog settings {}).map Visit.operator).Perm p.joins ∧
      ((p'.joinVisits catalog settings {}).map Visit.operator).Perm p'.joins ∧
      ∃ joins : List Recoding,
        Recoding.Pairs settings (p.joinVisits catalog settings {})
          (p'.joinVisits catalog settings {}) joins ∧
        e'.cost - e.cost = (joins.map fun j => j.difference settings.buffersPerJoin).sum := by
  have hyields := yields_of_estimate h he
  have hyields' := yields_of_estimate h' he'
  obtain ⟨hcardinality, hdistinct, hdiffer⟩ := recode_of_yields hyields hp hyields'
  exact ⟨hcardinality, hdistinct, joinVisits_perm_joins hyields rfl rfl,
    joinVisits_perm_joins hyields' rfl rfl, hdiffer {} {} rfl rfl rfl rfl⟩

theorem estimate_recode_sample :
    (Sample.plan 2 0).withoutAlgorithms = (Sample.plan 0 1).withoutAlgorithms ∧
      (Sample.plan 0 1).estimate Sample.catalog Sample.settings = .ok ⟨496, 40, true⟩ ∧
      (Sample.plan 2 0).estimate Sample.catalog Sample.settings = .ok ⟨438, 40, true⟩ ∧
      ∃ joins : List Recoding,
        Recoding.Pairs Sample.settings
          ((Sample.plan 0 1).joinVisits Sample.catalog Sample.settings {})
          ((Sample.plan 2 0).joinVisits Sample.catalog Sample.settings {}) joins ∧
        438 - 496 = (joins.map fun j => j.difference 4).sum := by
  have hp : (Sample.plan 2 0).withoutAlgorithms = (Sample.plan 0 1).withoutAlgorithms := rfl
  have hestimate : (Sample.plan 0 1).estimate Sample.catalog Sample.settings =
      .ok ⟨496, 40, true⟩ := by decide +kernel
  have hestimate' : (Sample.plan 2 0).estimate Sample.catalog Sample.settings =
      .ok ⟨438, 40, true⟩ := by decide +kernel
  obtain ⟨-, -, -, -, joins, hpairs, hsum⟩ := estimate_recode hp hestimate rfl hestimate' rfl
  exact ⟨hp, hestimate, hestimate', joins, hpairs, hsum⟩

end Plan

end QueryPlan
