import Mathlib
import QueryPlan.Proofs.Estimate.Pass
import QueryPlan.Proofs.Estimate.Visits
import QueryPlan.Proofs.Plan.Parts

/-!
# Estimates do not depend on their context

A pass keeps the distinct counts of all columns in one map, so what lies below an operator finds the
counts that earlier parts of the plan left there. It never reads one of them: every column that an
operator looks up belongs to a scan below it, and that scan has set its count again before. So a
part of a feasible plan puts out in the pass over the plan what it puts out alone, and adds to the
cost what it costs alone, even where a table is scanned twice.

## Main definitions

* `Plan.seeds` : the columns whose counts are set by the scans of a plan.
* `Counts.Agree` : two maps have the same counts for some columns.

## Main results

* `Plan.Yields.frame` : a plan leaves the counts of all other columns alone.
* `Plan.Yields.transport` : a plan yields the same from any counts, and leaves the same counts of
  the columns that its scans set.
* `Plan.estimate_visits` : the visits of a pass over a feasible plan, and the estimates of its
  parts.
-/

namespace QueryPlan

/-- The columns of a schema by what identifies them. -/
def Schema.keys (schema : Schema) : List AttributeKey := schema.attributes.map Attribute.key

theorem Schema.key_mem_keys_of_resolve? {schema : Schema} {reference a : Attribute}
    (h : schema.resolve? reference = some a) : a.key ∈ schema.keys :=
  List.mem_map_of_mem (List.mem_of_find?_eq_some h)

/-- Two maps have the same counts for some columns. -/
def Counts.Agree (keys : List AttributeKey) (m m' : Counts) : Prop :=
  ∀ k ∈ keys, m.get? k = m'.get? k

namespace Counts.Agree

variable {keys : List AttributeKey} {m m' : Counts}

theorem insertAll (h : Counts.Agree keys m m') (es : List (AttributeKey × ℤ)) :
    Counts.Agree keys (m.insertAll es) (m'.insertAll es) :=
  fun k hk => OrderedMap.get?_insertAll_congr (.inr (h k hk))

theorem insert (h : Counts.Agree keys m m') (k : AttributeKey) (v : ℤ) :
    Counts.Agree keys (m.insert k v) (m'.insert k v) := h.insertAll [(k, v)]

end Counts.Agree

namespace Condition

variable {left right schema : Schema} {c : Condition} {cs : List Condition}
  {m m' m₂ : Counts} {keys : List AttributeKey} {k : AttributeKey} {tuples kept l r n : ℤ}
  {pairs pairs' : Binary64}

theorem Keeps.frame (h : c.Keeps schema m tuples kept m') (hk : k ∉ schema.keys) :
    m'.get? k = m.get? k := by
  obtain ⟨a, distinct, -, -, -, rfl⟩ := h
  refine OrderedMap.get?_insertAll_of_not_mem ?_
  rwa [List.map_map]

theorem Keeps.transport (h : c.Keeps schema m tuples kept m') (hsub : schema.keys ⊆ keys)
    (hm : Counts.Agree keys m m₂) :
    ∃ m₂', c.Keeps schema m₂ tuples kept m₂' ∧ Counts.Agree keys m' m₂' := by
  obtain ⟨a, distinct, ha, hdistinct, hkept, rfl⟩ := h
  have hcount := hm _ (hsub (Schema.key_mem_keys_of_resolve? ha))
  exact ⟨_, ⟨a, distinct, ha, hcount ▸ hdistinct, hkept, rfl⟩, hm.insertAll _⟩

theorem Narrow.frame (h : Narrow left right cs m pairs m' pairs') (hl : k ∉ left.keys)
    (hr : k ∉ right.keys) : m'.get? k = m.get? k := by
  induction h with
  | nil => rfl
  | cons hleft _ hright _ _ _ _ ih =>
    have hleftKey := Schema.key_mem_keys_of_resolve? hleft
    have hrightKey := Schema.key_mem_keys_of_resolve? hright
    rw [ih, OrderedMap.get?_insert_of_ne _ (ne_of_mem_of_not_mem hrightKey hr),
      OrderedMap.get?_insert_of_ne _ (ne_of_mem_of_not_mem hleftKey hl)]

theorem Narrow.transport (h : Narrow left right cs m pairs m' pairs') (hl : left.keys ⊆ keys)
    (hr : right.keys ⊆ keys) (hm : Counts.Agree keys m m₂) :
    ∃ m₂', Narrow left right cs m₂ pairs m₂' pairs' ∧ Counts.Agree keys m' m₂' := by
  induction h generalizing m₂ with
  | nil => exact ⟨m₂, .nil, hm⟩
  | cons hleft hrhs hright hdl hdr hkept _ ih =>
    have hleftKey := hm _ (hl (Schema.key_mem_keys_of_resolve? hleft))
    have hrightKey := hm _ (hr (Schema.key_mem_keys_of_resolve? hright))
    obtain ⟨m₂', hnarrow, hm'⟩ := ih ((hm.insert _ _).insert _ _)
    exact ⟨m₂', .cons hleft hrhs hright (hleftKey ▸ hdl) (hrightKey ▸ hdr) hkept hnarrow, hm'⟩

end Condition

namespace Visit

variable {catalog : Catalog} {settings : Settings} {vs ws : List Visit} {ps qs : List Plan}

/-- A visit did what its operator yields. -/
def Yielded (catalog : Catalog) (settings : Settings) (v : Visit) : Prop :=
  ∃ n m' cost, v.operator.Yields catalog settings v.before.distinct n m' cost ∧
    v.result = .ok n ∧ v.after.cost = v.before.cost + cost

/-- Each of some operators was visited once, and did what it yields. -/
structure Cover (catalog : Catalog) (settings : Settings) (visits : List Visit)
    (operators : List Plan) : Prop where
  perm : (visits.map operator).Perm operators
  yielded : ∀ v ∈ visits, v.Yielded catalog settings

theorem Cover.append (hvs : Cover catalog settings vs ps) (hws : Cover catalog settings ws qs) :
    Cover catalog settings (vs ++ ws) (ps ++ qs) where
  perm := by
    rw [List.map_append]
    exact hvs.perm.append hws.perm
  yielded := List.forall_mem_append.2 ⟨hvs.yielded, hws.yielded⟩

/-- The operator that is visited last is listed first. -/
theorem Cover.concat (hvs : Cover catalog settings vs ps) {v : Visit}
    (hv : v.Yielded catalog settings) :
    Cover catalog settings (vs ++ [v]) (v.operator :: ps) where
  perm := by
    rw [List.map_append]
    exact List.perm_append_comm.trans (hvs.perm.cons _)
  yielded := List.forall_mem_append.2 ⟨hvs.yielded, List.forall_mem_singleton.2 hv⟩

end Visit

namespace Plan

variable {catalog : Catalog} {settings : Settings} {p : Plan} {m m' : Counts} {n cost : ℤ}

/-! ### What a plan reads and writes -/

/-- The columns whose distinct counts are set by the scans of a plan. -/
def seeds : Plan → List AttributeKey
  | scan _ schema => schema.keys
  | select base _ | project base _ | sorting base _ _ | foreign base _ _ => base.seeds
  | join left right _ _ _ => left.seeds ++ right.seeds
  | foreignLeaf _ _ => []

theorem Yields.keys_subset (h : p.Yields catalog settings m n m' cost) :
    p.schema.keys ⊆ p.seeds := by
  induction h with
  | scan => exact fun _ hk => hk
  | select _ _ ih | sorting _ _ _ _ ih => exact ih
  | @project base columns _ _ _ _ _ ih =>
    intro k hk
    obtain ⟨a, ha, rfl⟩ := List.mem_map.1 hk
    obtain ⟨reference, -, hreference⟩ := List.mem_filterMap.1 ha
    exact ih (Schema.key_mem_keys_of_resolve? hreference)
  | join _ _ _ _ _ _ ihl ihr =>
    intro k hk
    obtain ⟨a, ha, rfl⟩ := List.mem_map.1 hk
    refine List.mem_append.2 ((List.mem_append.1 ha).imp (fun ha => ihl ?_) fun ha => ihr ?_)
    · exact List.mem_map_of_mem ha
    · exact List.mem_map_of_mem ha

/-- Statistics that are loaded give every column a count. -/
theorem map_fst_measured {table : String} {schema : Schema} {statistics : Statistics}
    (h : catalog.loadStatistics table schema.width = .ok statistics) :
    (schema.measured statistics).map Prod.fst = schema.keys := by
  have hlength : statistics.distinctCounts.length = schema.attributes.length := by
    exact_mod_cast Catalog.length_of_loadStatistics h
  have hzip : (schema.attributes.zip (statistics.distinctCounts.map Int.ofNat)).map Prod.fst =
      schema.attributes := List.map_fst_zip (by rw [List.length_map, hlength])
  calc (schema.measured statistics).map Prod.fst
      = ((schema.attributes.zip (statistics.distinctCounts.map Int.ofNat)).map Prod.fst).map
          Attribute.key := by simp only [Schema.measured, List.map_map, Function.comp_def]
    _ = schema.keys := by rw [hzip, Schema.keys]

/-- A plan leaves the counts of columns that its scans do not set alone. -/
theorem Yields.frame (h : p.Yields catalog settings m n m' cost) {k : AttributeKey}
    (hk : k ∉ p.seeds) : m'.get? k = m.get? k := by
  induction h with
  | scan hload _ =>
    refine OrderedMap.get?_insertAll_of_not_mem ?_
    rwa [map_fst_measured hload]
  | select hbase hkeeps ih =>
    exact (hkeeps.frame fun hmem => hk (hbase.keys_subset hmem)).trans (ih hk)
  | project _ ih | sorting _ _ _ _ ih => exact ih hk
  | join hleft hright _ _ hmatch _ ihl ihr =>
    obtain ⟨hl, hr⟩ := not_or.1 (mt List.mem_append.2 hk)
    obtain ⟨pairs, kept, -, hnarrow, -⟩ := hmatch
    rw [hnarrow.frame (fun hmem => hl (hleft.keys_subset hmem))
      (fun hmem => hr (hright.keys_subset hmem)), ihr hr, ihl hl]

/-- From any distinct counts a plan puts out as many tuples at the same cost, and leaves the same
counts of the columns that its scans set. -/
theorem Yields.transport (h : p.Yields catalog settings m n m' cost) (u : Counts) :
    ∃ u', p.Yields catalog settings u n u' cost ∧ Counts.Agree p.seeds m' u' := by
  induction h generalizing u with
  | scan hload hpages =>
    refine ⟨_, .scan hload hpages, fun k hk => OrderedMap.get?_insertAll_congr (.inl ?_)⟩
    rwa [map_fst_measured hload]
  | select hbase hkeeps ih =>
    obtain ⟨u₁, hyields, hu₁⟩ := ih u
    obtain ⟨u', hkeeps', hu'⟩ := hkeeps.transport hbase.keys_subset hu₁
    exact ⟨u', .select hyields hkeeps', hu'⟩
  | project _ ih =>
    obtain ⟨u', hyields, hu'⟩ := ih u
    exact ⟨u', .project hyields, hu'⟩
  | @join left right _ _ _ _ _ m₁ _ _ m₂ _ _ _ _ _ hleft hright hleftPages hrightPages hmatch hcode
      ihl ihr =>
    obtain ⟨u₁, hleftYields, hu₁⟩ := ihl u
    obtain ⟨u₂, hrightYields, hu₂⟩ := ihr u₁
    -- The right side sets the counts of its own columns again and leaves the others alone.
    have hagree : Counts.Agree (left.seeds ++ right.seeds) m₂ u₂ := by
      intro k hk
      by_cases hkr : k ∈ right.seeds
      · exact hu₂ k hkr
      · rw [hright.frame hkr, hrightYields.frame hkr]
        exact hu₁ k ((List.mem_append.1 hk).resolve_right hkr)
    obtain ⟨pairs, kept, hpairs, hnarrow, htuples⟩ := hmatch
    obtain ⟨u', hnarrow', hu'⟩ := hnarrow.transport
      (List.Subset.trans hleft.keys_subset (List.subset_append_left _ _))
      (List.Subset.trans hright.keys_subset (List.subset_append_right _ _)) hagree
    exact ⟨u', .join hleftYields hrightYields hleftPages hrightPages
      ⟨pairs, kept, hpairs, hnarrow', htuples⟩ hcode, hu'⟩
  | sorting _ hbuffers hpages hcost ih =>
    obtain ⟨u', hyields, hu'⟩ := ih u
    exact ⟨u', .sorting hyields hbuffers hpages hcost, hu'⟩

/-! ### The visits of a pass over a feasible plan -/

/-- Where an operator with one input yields something, its input does. -/
theorem Yields.input {base : Plan} (h : p.Yields catalog settings m n m' cost)
    (hp : p.input? = some base) : ∃ tuples m₁ baseCost,
      base.Yields catalog settings m tuples m₁ baseCost := by
  cases h with
  | scan | join => cases hp
  | select hbase _ | project hbase | sorting hbase _ _ _ =>
    obtain rfl := Option.some.inj hp
    exact ⟨_, _, _, hbase⟩

/-- The visit of the root of a plan that yields something. -/
theorem Yields.yielded (h : p.Yields catalog settings m n m' cost) {s t : PassState}
    (hs : s.feasible = true) (hm : s.distinct = m)
    (hreturns : (p.evaluate catalog settings).Returns s n t) (inputs : List ℤ) :
    Visit.Yielded catalog settings ⟨p, inputs, s, .ok n, t⟩ := by
  obtain ⟨t', hreturns', -, -, hcost⟩ := h.returns hs hm
  obtain ⟨-, rfl⟩ := hreturns.unique hreturns'
  exact ⟨n, m', cost, hm ▸ h, rfl, hcost⟩

/-- A pass over a plan that yields something visits all its operators, and does at each of them what
the operator yields. -/
theorem Yields.cover_visits (h : p.Yields catalog settings m n m' cost) {s : PassState}
    (hs : s.feasible = true) (hm : s.distinct = m) :
    Visit.Cover catalog settings (p.visits catalog settings s) p.preorder := by
  induction p generalizing m n m' cost s with
  | scan table schema =>
    obtain ⟨t, hreturns, -⟩ := h.returns hs hm
    rw [visits_scan hreturns]
    exact ⟨.refl _, List.forall_mem_singleton.2 (h.yielded hs hm hreturns _)⟩
  | select base _ ih | project base _ ih | sorting base _ _ ih =>
    obtain ⟨t, hreturns, -⟩ := h.returns hs hm
    obtain ⟨tuples, m₁, baseCost, hbase⟩ := h.input rfl
    obtain ⟨u, hbaseReturns, -⟩ := hbase.returns hs hm
    rw [visits_of_input rfl hbaseReturns hreturns]
    exact (ih hbase hs hm).concat (h.yielded hs hm hreturns _)
  | join left right cs code place ihl ihr =>
    obtain ⟨t, hreturns, -⟩ := h.returns hs hm
    have hroot := h.yielded hs hm hreturns
    cases h with
    | join hleft hright hleftPages hrightPages hmatch hcode =>
      obtain ⟨u, hleftReturns, hu, hdistinct, -⟩ := hleft.returns hs hm
      obtain ⟨v, hrightReturns, -⟩ := hright.returns hu hdistinct
      rw [visits_join hleftReturns hrightReturns hreturns]
      exact ((ihl hleft hs hm).append (ihr hright hu hdistinct)).concat (hroot _)
  | foreign base name output | foreignLeaf name output => cases h

/-- What a plan yields from any distinct counts is what its own estimate says. -/
theorem Yields.estimate_alone (h : p.Yields catalog settings m n m' cost) :
    p.estimate catalog settings = .ok ⟨cost, n, true⟩ := by
  obtain ⟨u, hyields, -⟩ := h.transport {}
  exact hyields.estimate.1

/-- The pass over a feasible plan visits every part of it once. Alone, each part is feasible as
well, with the number of tuples that it put out in the pass and with the cost that was added during
its visit. So a join costs what its two sides cost alone, and what it is charged for the pages that
their tuples take. -/
theorem estimate_visits {e : Estimate} (h : p.estimate catalog settings = .ok e)
    (he : e.feasible = true) :
    ((p.visits catalog settings {}).map Visit.operator).Perm p.preorder ∧
      (∀ v ∈ p.visits catalog settings {}, ∃ e' : Estimate,
        v.operator.estimate catalog settings = .ok e' ∧ e'.feasible = true ∧
        v.result = .ok e'.cardinality ∧ v.after.cost - v.before.cost = e'.cost) ∧
      ∀ (left right : Plan) (cs : List Condition) (code place : ℤ),
        (join left right cs code place).IsPart p →
        ∃ (whole leftAlone rightAlone : Estimate) (leftPages rightPages : ℤ),
          (join left right cs code place).estimate catalog settings = .ok whole ∧
          left.estimate catalog settings = .ok leftAlone ∧
          right.estimate catalog settings = .ok rightAlone ∧
          pagesOf settings.pageSize leftAlone.cardinality left.schema.tupleSize = .ok leftPages ∧
          pagesOf settings.pageSize rightAlone.cardinality right.schema.tupleSize = .ok rightPages ∧
          whole.cost = leftAlone.cost + rightAlone.cost +
            chargeOfCode code leftPages rightPages settings.buffersPerJoin := by
  obtain ⟨hperm, hyielded⟩ := (yields_of_estimate h he).cover_visits (s := {}) rfl rfl
  refine ⟨hperm, fun v hv => ?_, fun left right cs code place hjoin => ?_⟩
  · obtain ⟨n, m', cost, hyields, hresult, hcost⟩ := hyielded v hv
    exact ⟨_, hyields.estimate_alone, rfl, hresult, by rw [hcost, add_sub_cancel_left]⟩
  · obtain ⟨v, hv, hoperator⟩ := List.mem_map.1 (hperm.mem_iff.2 hjoin)
    obtain ⟨n, m', cost, hyields, -⟩ := hyielded v hv
    rw [hoperator] at hyields
    have hwhole := hyields.estimate_alone
    cases hyields with
    | join hleft hright hleftPages hrightPages _ _ =>
      exact ⟨_, _, _, _, _, hwhole, hleft.estimate_alone, hright.estimate_alone, hleftPages,
        hrightPages, rfl⟩

theorem estimate_visits_sample :
    (Sample.plan 0 1).estimate Sample.catalog Sample.settings = .ok ⟨496, 40, true⟩ ∧
      (((Sample.plan 0 1).visits Sample.catalog Sample.settings {}).map Visit.operator).Perm
        (Sample.plan 0 1).preorder ∧
      (Sample.joined 0 1).IsPart (Sample.plan 0 1) ∧
      Sample.left.estimate Sample.catalog Sample.settings = .ok ⟨10, 10, true⟩ ∧
      (Sample.right 1).estimate Sample.catalog Sample.settings = .ok ⟨26, 12, true⟩ ∧
      ∃ whole leftPages rightPages,
        (Sample.joined 0 1).estimate Sample.catalog Sample.settings = .ok whole ∧
        whole.cost = 10 + 26 + chargeOfCode 0 leftPages rightPages 4 := by
  have hestimate : (Sample.plan 0 1).estimate Sample.catalog Sample.settings =
      .ok ⟨496, 40, true⟩ := by decide +kernel
  have hleft : Sample.left.estimate Sample.catalog Sample.settings = .ok ⟨10, 10, true⟩ := by
    decide +kernel
  have hright : (Sample.right 1).estimate Sample.catalog Sample.settings = .ok ⟨26, 12, true⟩ := by
    decide +kernel
  have hpart : (Sample.joined 0 1).IsPart (Sample.plan 0 1) :=
    (IsPart.refl _).child List.mem_cons_self
  obtain ⟨hperm, -, hjoins⟩ := estimate_visits hestimate rfl
  obtain ⟨whole, l, r, leftPages, rightPages, hwhole, hl, hr, -, -, hcost⟩ :=
    hjoins _ _ _ _ _ hpart
  obtain rfl := Except.ok.inj (hl.symm.trans hleft)
  obtain rfl := Except.ok.inj (hr.symm.trans hright)
  exact ⟨hestimate, hperm, hpart, hleft, hright, whole, leftPages, rightPages, hwhole, hcost⟩

end Plan

end QueryPlan
