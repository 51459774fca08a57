import Mathlib
import QueryPlan.Proofs.Estimate.Selectivity
import QueryPlan.Proofs.Estimate.Yields

/-!
# More resources cost no more

With larger pages and more buffers, a plan that can be carried out still can be, puts out the same
tuples and costs no more. The numbers of tuples and the distinct counts do not depend on the
settings at all. Costs do through numbers of pages, and these shrink because no number of tuples is
negative: statistics hold none, and neither selections nor joins put one out.

## Main definitions

* `Counts.Nonneg` : no distinct count is negative.

## Main results

* `Plan.Yields.nonneg` : nothing that a plan yields is negative.
* `Plan.Yields.mono` : with more resources a plan yields the same and costs no more.
* `Plan.estimate_mono` : the same of estimates.
-/

namespace QueryPlan

/-- Settings are ordered field by field. -/
instance : LE Settings where
  le c c' := c.pageSize ≤ c'.pageSize ∧ c.numBuffers ≤ c'.numBuffers ∧
    c.buffersPerJoin ≤ c'.buffersPerJoin

instance (c c' : Settings) : Decidable (c ≤ c') := inferInstanceAs (Decidable (_ ∧ _))

/-- No distinct count is negative. -/
def Counts.Nonneg (m : Counts) : Prop := ∀ k v, m.get? k = some v → 0 ≤ v

namespace Counts.Nonneg

variable {m : Counts} {es : List (AttributeKey × ℤ)} {k : AttributeKey} {v : ℤ}

theorem empty : Counts.Nonneg {} := nofun

theorem insert (hm : m.Nonneg) (k : AttributeKey) (hv : 0 ≤ v) : Counts.Nonneg (m.insert k v) := by
  intro j u hu
  rw [OrderedMap.get?_insert] at hu
  split_ifs at hu
  · exact Option.some.inj hu ▸ hv
  · exact hm j u hu

theorem insertAll (hm : m.Nonneg) (hes : ∀ e ∈ es, 0 ≤ e.2) : Counts.Nonneg (m.insertAll es) :=
  fun k v hv => (OrderedMap.mem_or_of_get?_insertAll hv).elim (hes _) (hm k v)

end Counts.Nonneg

theorem Schema.nonneg_of_mem_measured {schema : Schema} {statistics : Statistics}
    {e : AttributeKey × ℤ} (he : e ∈ schema.measured statistics) : 0 ≤ e.2 := by
  obtain ⟨⟨a, count⟩, hmem, rfl⟩ := List.mem_map.1 he
  obtain ⟨n, -, rfl⟩ := List.mem_map.1 (List.of_mem_zip hmem).2
  exact Int.natCast_nonneg n

namespace Condition

variable {left right schema : Schema} {c : Condition} {cs : List Condition} {m m' : Counts}
  {tuples kept l r n : ℤ} {pairs pairs' : Binary64}

theorem Keeps.nonneg (h : c.Keeps schema m tuples kept m') (hm : m.Nonneg) (ht : 0 ≤ tuples) :
    0 ≤ kept ∧ m'.Nonneg := by
  obtain ⟨a, distinct, -, hdistinct, hkept, rfl⟩ := h
  have hnonneg := selectedTuples_nonneg ht (hm _ _ hdistinct) hkept
  refine ⟨hnonneg, hm.insertAll fun e he => ?_⟩
  obtain ⟨column, -, rfl⟩ := List.mem_map.1 he
  exact hnonneg

theorem Narrow.nonneg (h : Narrow left right cs m pairs m' pairs') (hm : m.Nonneg)
    (hpairs : pairs.Unsigned) : pairs'.Unsigned ∧ m'.Nonneg := by
  induction h with
  | nil => exact ⟨hpairs, hm⟩
  | cons hl hrhs hr hdl hdr hkept _ ih =>
    have hmin := le_min (hm _ _ hdl) (hm _ _ hdr)
    exact ih ((hm.insert _ hmin).insert _ hmin) (matchingPairs_unsigned hpairs (hm _ _ hdl) hkept)

theorem Match.nonneg (h : Match left right cs m l r n m') (hm : m.Nonneg) (hl : 0 ≤ l)
    (hr : 0 ≤ r) : 0 ≤ n ∧ m'.Nonneg := by
  obtain ⟨pairs, kept, hpairs, hnarrow, hn⟩ := h
  obtain ⟨hkept, hm'⟩ := hnarrow.nonneg hm (crossProduct_unsigned hl hr hpairs)
  exact ⟨ceilReal_nonneg hkept hn, hm'⟩

end Condition

namespace Plan

variable {catalog : Catalog} {settings settings' : Settings} {p : Plan} {m m' : Counts} {n cost : ℤ}

/-- Where no distinct count is negative, a plan does not put out a negative number of tuples and
leaves no negative distinct count. -/
theorem Yields.nonneg (h : p.Yields catalog settings m n m' cost) (hm : m.Nonneg) :
    0 ≤ n ∧ m'.Nonneg := by
  induction h with
  | scan hload hpages =>
    exact ⟨Int.natCast_nonneg _, hm.insertAll fun _ => Schema.nonneg_of_mem_measured⟩
  | select _ hkeeps ih =>
    obtain ⟨htuples, hm₁⟩ := ih hm
    exact hkeeps.nonneg hm₁ htuples
  | project _ ih => exact ih hm
  | join _ _ _ _ hmatch _ ihl ihr =>
    obtain ⟨hl, hm₁⟩ := ihl hm
    obtain ⟨hr, hm₂⟩ := ihr hm₁
    exact hmatch.nonneg hm₂ hl hr
  | sorting _ _ _ _ ih => exact ih hm

/-- With more resources a plan still can be carried out, puts out as many tuples, leaves the same
distinct counts and costs no more. -/
theorem Yields.mono (h : p.Yields catalog settings m n m' cost) (hm : m.Nonneg)
    (hle : settings ≤ settings') :
    ∃ cost', p.Yields catalog settings' m n m' cost' ∧ cost' ≤ cost := by
  obtain ⟨hpage, hnum, hjoin⟩ := hle
  induction h with
  | scan hload hpages =>
    obtain ⟨pages', hpages', -, hpagesLe⟩ := pagesOf_anti hpage (Int.natCast_nonneg _) hpages
    exact ⟨pages', .scan hload hpages', hpagesLe⟩
  | select _ hkeeps ih =>
    obtain ⟨cost', hyields, hcost⟩ := ih hm
    exact ⟨cost', .select hyields hkeeps, hcost⟩
  | project _ ih =>
    obtain ⟨cost', hyields, hcost⟩ := ih hm
    exact ⟨cost', .project hyields, hcost⟩
  | join hleft hright hleftPages hrightPages hmatch hcode ihl ihr =>
    obtain ⟨hl, hm₁⟩ := hleft.nonneg hm
    obtain ⟨hr, -⟩ := hright.nonneg hm₁
    obtain ⟨leftCost', hleftYields, hleftCost⟩ := ihl hm
    obtain ⟨rightCost', hrightYields, hrightCost⟩ := ihr hm₁
    obtain ⟨leftPages', hleftPages', hleftNonneg, hleftLe⟩ := pagesOf_anti hpage hl hleftPages
    obtain ⟨rightPages', hrightPages', hrightNonneg, hrightLe⟩ := pagesOf_anti hpage hr hrightPages
    refine ⟨_, .join hleftYields hrightYields hleftPages' hrightPages' hmatch (hcode.mono hjoin),
      ?_⟩
    exact add_le_add (add_le_add hleftCost hrightCost)
      (chargeOfCode_mono hcode hjoin hleftNonneg hrightNonneg hleftLe hrightLe)
  | sorting hbase hbuffers hpages hsortCost ih =>
    obtain ⟨hn, -⟩ := hbase.nonneg hm
    obtain ⟨baseCost', hyields, hbaseCost⟩ := ih hm
    obtain ⟨pages', hpages', hpagesNonneg, hpagesLe⟩ := pagesOf_anti hpage hn hpages
    obtain ⟨cost', hsortCost', hcost⟩ := externalSortCost_anti (Int.ofNat_le.2 hbuffers)
      (Int.ofNat_le.2 hnum) hpagesNonneg hpagesLe hsortCost
    exact ⟨_, .sorting hyields (hbuffers.trans hnum) hpages' hsortCost',
      add_le_add hbaseCost hcost⟩

/-- With larger pages and more buffers, a feasible plan stays feasible, puts out as many tuples,
leaves the same distinct counts and costs no more. -/
theorem estimate_mono {e : Estimate} (hle : settings ≤ settings')
    (h : p.estimate catalog settings = .ok e) (he : e.feasible = true) :
    ∃ e', p.estimate catalog settings' = .ok e' ∧ e'.feasible = true ∧
      e'.cardinality = e.cardinality ∧
      (p.pass catalog settings').2.distinct = (p.pass catalog settings).2.distinct ∧
      e'.cost ≤ e.cost := by
  obtain ⟨cost', hyields, hcost⟩ := (yields_of_estimate h he).mono .empty hle
  obtain ⟨hestimate, hdistinct⟩ := hyields.estimate
  exact ⟨_, hestimate, rfl, rfl, hdistinct, hcost⟩

theorem estimate_mono_sample :
    Sample.settings ≤ Sample.ampleSettings ∧
      (Sample.plan 0 1).estimate Sample.catalog Sample.settings = .ok ⟨496, 40, true⟩ ∧
      ∃ e, (Sample.plan 0 1).estimate Sample.catalog Sample.ampleSettings = .ok e ∧
        e.feasible = true ∧ e.cardinality = 40 ∧ e.cost ≤ 496 := by
  have hle : Sample.settings ≤ Sample.ampleSettings := by decide
  have hestimate : (Sample.plan 0 1).estimate Sample.catalog Sample.settings =
      .ok ⟨496, 40, true⟩ := by decide +kernel
  obtain ⟨e, he, hfeasible, hcardinality, -, hcost⟩ := estimate_mono hle hestimate rfl
  exact ⟨hle, hestimate, e, he, hfeasible, hcardinality, hcost⟩

end Plan

end QueryPlan
