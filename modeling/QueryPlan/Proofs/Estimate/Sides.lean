import Mathlib
import QueryPlan.Proofs.Estimate.Context

/-!
# The sides of a join

Which side of a join is visited first makes no difference where the two scan different columns: each
side leaves the counts of the other one alone and reads only what its own scans have set. Nor does
it matter which side a condition names first, since a condition keeps one in so many pairs as the
larger of both counts and sets both counts to the smaller one. So a join and the join with its sides
exchanged put out as many tuples and leave the same distinct counts. They also cost the same, unless
the join is carried out by blocks, which are blocks of the left side only.

## Main definitions

* `Counts.Same` : two maps have the same counts for all columns.
* `PassState.EndsLike` : two passes end alike but for the events and the order of the columns.

## Main results

* `Plan.Yields.exchange` : two plans that scan different columns, visited in either order.
* `Condition.Match.exchange` : the conditions of a join with both sides exchanged.
* `Plan.estimate_exchange` : a join and the join with its sides exchanged.
-/

namespace QueryPlan

/-- Multiplication of doubles does not depend on the order of the factors. -/
theorem Binary64.mul_comm (x y : Binary64) : x.mul y = y.mul x := by
  cases x <;> cases y <;> simp only [mul, bne_comm, Nat.mul_comm]

theorem crossProduct_exchange {l r : ℤ} {x : Binary64} (h : crossProduct l r = .ok x) :
    crossProduct r l = .ok x := by
  obtain ⟨y, hy, h⟩ := bind_eq_ok_iff.1 h
  obtain ⟨z, hz, h⟩ := bind_eq_ok_iff.1 h
  obtain rfl := Except.ok.inj h
  exact bind_eq_ok_iff.2 ⟨z, hz, bind_eq_ok_iff.2 ⟨y, hy, congrArg Except.ok (z.mul_comm y)⟩⟩

theorem matchingPairs_comm (pairs : Binary64) (l r : ℤ) :
    matchingPairs pairs l r = matchingPairs pairs r l := by
  rw [matchingPairs, matchingPairs, max_comm]

/-- Joining by a nested loop or by sorting and merging costs the same from both sides. -/
theorem chargeOfCode_comm {code : ℤ} (hcode : code = 0 ∨ code = 2) (l r : ℤ) (buffers : ℕ) :
    chargeOfCode code l r buffers = chargeOfCode code r l buffers := by
  obtain rfl | rfl := hcode
  · exact Int.mul_comm l r
  · rfl

/-- Two maps have the same counts for all columns. -/
def Counts.Same (m m' : Counts) : Prop := ∀ k, m.get? k = m'.get? k

namespace Counts.Same

variable {m m' : Counts} {k : AttributeKey} {v : ℤ}

/-- Two columns are set to one count in either order. -/
theorem insert_exchange (h : Counts.Same m m') (k j : AttributeKey) (v : ℤ) :
    Counts.Same ((m.insert k v).insert j v) ((m'.insert j v).insert k v) := by
  intro i
  simp only [OrderedMap.get?_insert, h i]
  split_ifs <;> rfl

end Counts.Same

namespace Condition

variable {left right : Schema} {c : Condition} {cs : List Condition} {m m' u : Counts}
  {pairs kept : Binary64} {l r n : ℤ}

/-- Conditions with both sides exchanged keep as many pairs and leave the same counts. -/
theorem Narrow.exchange (h : Narrow left right cs m pairs m' kept) (hm : Counts.Same m u) :
    ∃ cs' u', cs.mapM flipped? = some cs' ∧ Narrow right left cs' u pairs u' kept ∧
      Counts.Same m' u' := by
  induction h generalizing u with
  | nil => exact ⟨[], u, rfl, .nil, hm⟩
  | @cons c cs m pairs a l r dl dr kept m' pairs' hl hrhs hr hdl hdr hkept _ ih =>
    obtain ⟨cs', u', hcs, hnarrow, hm'⟩ := ih (hm.insert_exchange l.key r.key (min dl dr))
    have hc : c.flipped? = some ⟨a, .column c.lhs, c.comparator.converse, c.kind⟩ := by
      rw [flipped?, hrhs]
      rfl
    refine ⟨_ :: cs', u', by rw [List.mapM_cons, hc, hcs]; rfl, ?_, hm'⟩
    rw [min_comm] at hnarrow
    rw [matchingPairs_comm] at hkept
    exact .cons hr rfl hl (hm _ ▸ hdr) (hm _ ▸ hdl) hkept hnarrow

theorem Match.exchange (h : Match left right cs m l r n m') (hm : Counts.Same m u) :
    ∃ cs' u', cs.mapM flipped? = some cs' ∧ Match right left cs' u r l n u' ∧
      Counts.Same m' u' := by
  obtain ⟨pairs, kept, hpairs, hnarrow, hn⟩ := h
  obtain ⟨cs', u', hcs, hnarrow', hm'⟩ := hnarrow.exchange hm
  exact ⟨cs', u', hcs, ⟨pairs, kept, crossProduct_exchange hpairs, hnarrow', hn⟩, hm'⟩

end Condition

/-- Two passes end alike: with the same cost, feasible or not, and with the same distinct counts.
The events and the order in which columns were first counted may differ. -/
structure PassState.EndsLike (s t : PassState) : Prop where
  cost : s.cost = t.cost
  feasible : s.feasible = t.feasible
  distinct : Counts.Same s.distinct t.distinct

namespace Plan

open PassM

variable {catalog : Catalog} {settings : Settings} {left right : Plan} {cs : List Condition}
  {m m' m₁ m₂ : Counts} {l r n cost leftCost rightCost code place : ℤ}

/-- Two plans that scan different columns yield the same in either order. -/
theorem Yields.exchange (hdisjoint : left.seeds.Disjoint right.seeds)
    (hleft : left.Yields catalog settings m l m₁ leftCost)
    (hright : right.Yields catalog settings m₁ r m₂ rightCost) :
    ∃ u₁ u₂, right.Yields catalog settings m r u₁ rightCost ∧
      left.Yields catalog settings u₁ l u₂ leftCost ∧ Counts.Same m₂ u₂ := by
  obtain ⟨u₁, hright', hu₁⟩ := hright.transport m
  obtain ⟨u₂, hleft', hu₂⟩ := hleft.transport u₁
  refine ⟨u₁, u₂, hright', hleft', fun k => ?_⟩
  by_cases hl : k ∈ left.seeds
  · rw [hright.frame (hdisjoint hl), hu₂ k hl]
  · rw [hleft'.frame hl]
    by_cases hr : k ∈ right.seeds
    · exact hu₁ k hr
    · rw [hright.frame hr, hleft.frame hl, hright'.frame hr]

/-- A join and the join with its sides exchanged yield the same, but for the cost of blocks. -/
theorem Yields.join_exchange (hdisjoint : left.seeds.Disjoint right.seeds)
    (h : (Plan.join left right cs code place).Yields catalog settings m n m' cost) :
    ∃ cs' u' cost', cs.mapM Condition.flipped? = some cs' ∧
      (Plan.join right left cs' code place).Yields catalog settings m n u' cost' ∧
      Counts.Same m' u' ∧ (code = 0 ∨ code = 2 → cost' = cost) := by
  cases h with
  | join hleft hright hleftPages hrightPages hmatch hcode =>
    obtain ⟨u₁, u₂, hright', hleft', hsame⟩ := hleft.exchange hdisjoint hright
    obtain ⟨cs', u', hcs, hmatch', hends⟩ := hmatch.exchange hsame
    refine ⟨cs', u', _, hcs, .join hright' hleft' hrightPages hleftPages hmatch' hcode, hends,
      fun hcharge => ?_⟩
    rw [chargeOfCode_comm hcharge]
    ring

/-- The sides of a join that is feasible put out the same in either order, and both orders end in
the same state. -/
theorem Yields.returns_exchange (hdisjoint : left.seeds.Disjoint right.seeds)
    (h : (Plan.join left right cs code place).Yields catalog settings m n m' cost) {s : PassState}
    (hs : s.feasible = true) (hm : s.distinct = m) :
    ∃ (l r : ℤ) (t u t' u' : PassState),
      (left.evaluate catalog settings).Returns s l t ∧
      (right.evaluate catalog settings).Returns t r u ∧
      (right.evaluate catalog settings).Returns s r t' ∧
      (left.evaluate catalog settings).Returns t' l u' ∧ u.EndsLike u' := by
  cases h with
  | join hleft hright =>
    obtain ⟨u₁, u₂, hright', hleft', hsame⟩ := hleft.exchange hdisjoint hright
    obtain ⟨t, ht, htFeasible, htDistinct, htCost⟩ := hleft.returns hs hm
    obtain ⟨u, hu, huFeasible, rfl, huCost⟩ := hright.returns htFeasible htDistinct
    obtain ⟨t', ht', htFeasible', htDistinct', htCost'⟩ := hright'.returns hs hm
    obtain ⟨u', hu', huFeasible', rfl, huCost'⟩ := hleft'.returns htFeasible' htDistinct'
    refine ⟨_, _, t, u, t', u', ht, hu, ht', hu', ?_, huFeasible.trans huFeasible'.symm, hsame⟩
    rw [huCost, htCost, huCost', htCost', add_right_comm]

/-- Where a join is feasible and its sides scan different columns, the join with its sides and the
sides of its conditions exchanged is feasible, puts out as many tuples and leaves the same distinct
counts; by a nested loop or by sorting and merging it costs the same as well. The two sides put out
what they do, and end in the same state, whichever of them is visited first. -/
theorem estimate_exchange {e : Estimate} (hdisjoint : left.seeds.Disjoint right.seeds)
    (h : (join left right cs code place).estimate catalog settings = .ok e)
    (he : e.feasible = true) :
    ∃ (cs' : List Condition) (e' : Estimate), cs.mapM Condition.flipped? = some cs' ∧
      (join right left cs' code place).estimate catalog settings = .ok e' ∧
      e'.feasible = true ∧ e'.cardinality = e.cardinality ∧
      Counts.Same ((join left right cs code place).pass catalog settings).2.distinct
        ((join right left cs' code place).pass catalog settings).2.distinct ∧
      (code = 0 ∨ code = 2 → e'.cost = e.cost) ∧
      ∃ (l r : ℤ) (s t s' t' : PassState),
        (left.evaluate catalog settings).Returns {} l s ∧
        (right.evaluate catalog settings).Returns s r t ∧
        (right.evaluate catalog settings).Returns {} r s' ∧
        (left.evaluate catalog settings).Returns s' l t' ∧ t.EndsLike t' := by
  have hyields := yields_of_estimate h he
  obtain ⟨cs', u, cost', hcs, hyields', hsame, hcost⟩ := hyields.join_exchange hdisjoint
  obtain ⟨hestimate, hpass⟩ := hyields'.estimate
  exact ⟨cs', _, hcs, hestimate, rfl, rfl, hpass ▸ hsame, hcost,
    hyields.returns_exchange hdisjoint rfl rfl⟩

/-- Two conditions between the tables `A` and `B` that name a column of `B` twice. -/
def Sample.related : List Condition :=
  [{ lhs := Sample.column "A" "x", rhs := .column (Sample.column "B" "x"), kind := .join },
    { lhs := Sample.column "A" "w", rhs := .column (Sample.column "B" "x"), comparator := .less,
      kind := .join }]

theorem estimate_exchange_sample :
    Sample.left.seeds.Disjoint (Sample.table "B" "x" "y").seeds ∧
      (join Sample.left (Sample.table "B" "x" "y") Sample.related 0 1).estimate Sample.catalog
        Sample.settings = .ok ⟨28, 1, true⟩ ∧
      ∃ cs' e', Sample.related.mapM Condition.flipped? = some cs' ∧
        (join (Sample.table "B" "x" "y") Sample.left cs' 0 1).estimate Sample.catalog
          Sample.settings = .ok e' ∧
        e'.feasible = true ∧ e'.cardinality = 1 ∧ e'.cost = 28 := by
  have hdisjoint : Sample.left.seeds.Disjoint (Sample.table "B" "x" "y").seeds :=
    List.disjoint_left.2 (by decide)
  have hestimate : (join Sample.left (Sample.table "B" "x" "y") Sample.related 0 1).estimate
      Sample.catalog Sample.settings = .ok ⟨28, 1, true⟩ := by decide +kernel
  obtain ⟨cs', e', hcs, hestimate', he', hcardinality, -, hcost, -⟩ :=
    estimate_exchange hdisjoint hestimate rfl
  exact ⟨hdisjoint, hestimate, cs', e', hcs, hestimate', he', hcardinality, hcost (.inl rfl)⟩

end Plan

end QueryPlan
