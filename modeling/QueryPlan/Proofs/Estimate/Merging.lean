import Mathlib
import QueryPlan.Proofs.Estimate.Costs

/-!
# The passes of a merge sort

A merge pass divides the number of runs by the number that is merged at a time and rounds up. It
makes no difference whether quotients are rounded up after every pass or once at the end, so a sort
of `pages` pages with `B` buffers has `⌈pages / (B * (B - 1) ^ j)⌉` runs left after `j` passes. It
is done as soon as this is one run, and the number of passes is a logarithm that is rounded up,
computed without ever rounding a logarithm.

## Main results

* `ceilDiv_ceilDiv`, `iterate_ceilDiv` : quotients that are rounded up one after the other.
* `mergePasses_eq_clog` : merging until one run is left takes the logarithm of the number of runs.
* `externalSortCost_logarithm` : the cost of an external merge sort.
-/

namespace QueryPlan

variable {a b c : ℤ} {fanIn runs : ℕ}

/-- Rounding up twice is rounding up once. -/
theorem ceilDiv_ceilDiv (a : ℤ) (hb : 0 < b) (hc : 0 < c) :
    ceilDiv (ceilDiv a b) c = ceilDiv a (b * c) := by
  refine eq_of_forall_ge_iff fun n => ?_
  rw [ceilDiv_le_iff hc, ceilDiv_le_iff hb, ceilDiv_le_iff (mul_pos hb hc)]
  ring_nf

/-- The runs that are left after some passes, each of which rounds up. -/
theorem iterate_ceilDiv (a : ℤ) (hb : 0 < b) (hc : 0 < c) (j : ℕ) :
    (fun runs => ceilDiv runs c)^[j] (ceilDiv a b) = ceilDiv a (b * c ^ j) := by
  induction j with
  | zero => rw [Function.iterate_zero_apply, pow_zero, mul_one]
  | succ j ih =>
    rw [Function.iterate_succ_apply', ih, ceilDiv_ceilDiv a (mul_pos hb (pow_pos hc j)) hc,
      mul_assoc, ← pow_succ]

/-- Merging until one run is left takes the logarithm of the number of runs, rounded up. -/
theorem mergePasses_eq_clog (hfan : 2 ≤ fanIn) (runs : ℕ) :
    mergePasses fanIn runs = Nat.clog fanIn runs := by
  refine eq_of_forall_ge_iff fun j => ?_
  rw [mergePasses_le_iff hfan, Nat.clog_le_iff_le_pow hfan]

/-- An external merge sort of any number of pages with at least three buffers `B` ends and reads and
writes all pages once for the runs of `B` pages and once for every merge pass. The number `k` of
these passes is the least one for which `B * (B - 1) ^ k` pages are enough, that is the logarithm
of the number of runs to the base `B - 1`, rounded up; the passes that leave more than one run are
the first `k` ones. -/
theorem externalSortCost_logarithm {pages buffers : ℤ} (hpages : 0 ≤ pages)
    (hbuffers : minBuffers ≤ buffers) :
    ∃ k : ℕ, externalSortCost pages buffers = .ok (2 * pages * (1 + k)) ∧
      IsLeast {j : ℕ | pages ≤ buffers * (buffers - 1) ^ j} k ∧
      (k : ℤ) = ⌈Real.logb (buffers - 1 : ℤ) (ceilDiv pages buffers : ℤ)⌉ ∧
      ∀ j : ℕ, 1 < (fun runs => ceilDiv runs (buffers - 1))^[j] (ceilDiv pages buffers) ↔
        j < k := by
  have hthree : (3 : ℤ) ≤ buffers := hbuffers
  obtain ⟨fanIn, hfanIn⟩ : ∃ n : ℕ, buffers - 1 = n := Int.eq_ofNat_of_zero_le (by omega)
  have hruns := ceilDiv_nonneg hpages (show 0 < buffers by omega)
  obtain ⟨runs, hruns⟩ := Int.eq_ofNat_of_zero_le hruns
  have hfan : 2 ≤ fanIn := by omega
  have hcost : externalSortCost pages buffers = _ := externalSortCost_of_minBuffers hbuffers
  rw [hfanIn, hruns, Int.toNat_natCast, Int.toNat_natCast] at hcost
  -- After `j` passes at most one run is left if and only if there were no more passes to do.
  have henough (j : ℕ) : pages ≤ buffers * (buffers - 1) ^ j ↔ mergePasses fanIn runs ≤ j := by
    rw [mergePasses_le_iff hfan, mul_comm, ← ceilDiv_le_iff (by omega), hruns, hfanIn]
    exact_mod_cast Iff.rfl
  refine ⟨mergePasses fanIn runs, hcost, ⟨(henough _).2 le_rfl, fun j hj => (henough j).1 hj⟩, ?_,
    fun j => ?_⟩
  · rw [hfanIn, hruns, mergePasses_eq_clog hfan, Int.cast_natCast, Int.cast_natCast,
      Real.ceil_logb_natCast (Nat.cast_nonneg _), Int.clog_natCast]
  · rw [iterate_ceilDiv pages (by omega) (by omega), ← not_le, ← not_le, ← henough,
      ceilDiv_le_iff (mul_pos (by omega) (pow_pos (by omega) j)), one_mul]

theorem externalSortCost_logarithm_sample :
    (0 : ℤ) ≤ 750 ∧ (minBuffers : ℤ) ≤ 6 ∧ externalSortCost 750 6 = .ok (2 * 750 * (1 + 3)) ∧
      IsLeast {j : ℕ | (750 : ℤ) ≤ 6 * (6 - 1) ^ j} 3 := by
  have hpages : (0 : ℤ) ≤ 750 := by decide
  have hbuffers : (minBuffers : ℤ) ≤ 6 := by decide
  obtain ⟨k, hcost, hleast, -, hloop⟩ := externalSortCost_logarithm hpages hbuffers
  have hmore : 2 < k := (hloop 2).1 (by decide)
  have hdone : ¬ 3 < k := fun h => absurd ((hloop 3).2 h) (by decide)
  obtain rfl : k = 3 := by omega
  exact ⟨hpages, hbuffers, hcost, hleast⟩

end QueryPlan
