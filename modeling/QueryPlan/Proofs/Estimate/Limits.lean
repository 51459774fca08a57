import Mathlib
import QueryPlan.Proofs.Estimate.Bits

/-!
# The cost that stands for infeasible plans

A plan that cannot be carried out is given a fixed cost, and a cost that is equal to it is shown as
"infeasible". Costs have no bound, so a plan over a large table can reach that cost, and pass it,
although it can be carried out. How large a table has to be for this is said by the bits of the
numbers of tuples: no operator charges more than a multiple of the power of two that they make
together.

## Main definitions

* `Plan.bits` : the bits of the numbers of tuples of all scanned tables together.
* `chargeLimit` : what one operator charges at most.

## Main results

* `Plan.Yields.le_twoPow`, `Plan.Yields.cost_le` : bounds on the tuples and on the cost of a plan.
* `Plan.estimate_below_infeasible` : what is shown as infeasible, and when a feasible plan costs
  less than every infeasible one.
* `Plan.estimate_reaches_infeasible` : a scan that costs as much as an infeasible plan, and one that
  costs more.
-/

namespace QueryPlan

/-! ### Charges -/

section Charges

variable {pageSize fanIn runs k a b : ℕ} {tuples size pages buffers cost left right code : ℤ}

/-- Merging at least two runs at a time, the runs of a power of two are merged in as many passes as
it has bits. -/
theorem mergePasses_le (hfan : 2 ≤ fanIn) (hruns : runs ≤ 2 ^ k) : mergePasses fanIn runs ≤ k :=
  (mergePasses_le_iff hfan).2 (hruns.trans (Nat.pow_le_pow_left hfan k))

/-- What an operator charges at most over inputs of tables with the given bits together. -/
def chargeLimit (bits : ℕ) : ℕ := 2 * (bits + 1) * twoPow bits

theorem chargeLimit_mono (h : a ≤ b) : chargeLimit a ≤ chargeLimit b :=
  Nat.mul_le_mul (by omega) (twoPow_le_twoPow h)

theorem twoPow_le_chargeLimit (k : ℕ) : 2 * twoPow k ≤ chargeLimit k :=
  Nat.mul_le_mul_right _ (by omega)

theorem externalSortCost_le (hbuffers : minBuffers ≤ buffers) (hpages : 0 ≤ pages)
    (hle : pages ≤ twoPow k) (h : externalSortCost pages buffers = .ok cost) :
    cost ≤ chargeLimit k := by
  have hthree : (3 : ℤ) ≤ buffers := hbuffers
  rw [externalSortCost_of_minBuffers hbuffers] at h
  obtain rfl := Except.ok.inj h
  have hruns : ceilDiv pages buffers ≤ pages :=
    (ceilDiv_le_iff (by omega)).2 (le_mul_of_one_le_right hpages (by omega))
  have hpasses : mergePasses (buffers - 1).toNat (ceilDiv pages buffers).toNat ≤ k := by
    refine mergePasses_le (by omega) (?_ : _ ≤ twoPow k)
    omega
  have hpasses' : (mergePasses (buffers - 1).toNat (ceilDiv pages buffers).toNat : ℤ) ≤ k := by
    exact_mod_cast hpasses
  calc 2 * pages * (1 + mergePasses (buffers - 1).toNat (ceilDiv pages buffers).toNat)
      ≤ 2 * twoPow k * (1 + k) := by gcongr
    _ = chargeLimit k := by
        simp only [chargeLimit]
        push_cast
        ring

theorem chargeOfCode_le {settings : Settings} (hcode : settings.Supports code) (hl : 0 ≤ left)
    (hr : 0 ≤ right) (ha : left ≤ twoPow a) (hb : right ≤ twoPow b) :
    chargeOfCode code left right settings.buffersPerJoin ≤ chargeLimit (a + b) := by
  have hpos (k : ℕ) : (0 : ℤ) < twoPow k := by exact_mod_cast twoPow_pos k
  have hproduct : left * right ≤ twoPow (a + b) := by
    rw [twoPow_add]
    push_cast
    exact mul_le_mul ha hb hr (hpos a).le
  have hlimit : (2 * twoPow (a + b) : ℤ) ≤ chargeLimit (a + b) := by
    exact_mod_cast twoPow_le_chargeLimit (a + b)
  have hab := hpos (a + b)
  unfold chargeOfCode
  split_ifs with h0 h1
  · omega
  · have hthree := hcode.three_le h0
    have hblocks : ceilDiv left ((settings.buffersPerJoin : ℤ) - 2) ≤ left :=
      (ceilDiv_le_iff (by omega)).2 (le_mul_of_one_le_right hl (by omega))
    have hleft : left ≤ twoPow (a + b) :=
      ha.trans (by exact_mod_cast twoPow_le_twoPow (Nat.le_add_right a b))
    have hscan : ceilDiv left ((settings.buffersPerJoin : ℤ) - 2) * right ≤ left * right :=
      mul_le_mul_of_nonneg_right hblocks hr
    omega
  · omega

end Charges

namespace Plan

variable {catalog : Catalog} {settings : Settings} {p q : Plan} {m m' : Counts} {n cost : ℤ}

/-- The bits of the numbers of tuples of all scanned tables together. Statistics that cannot be read
count for nothing. -/
def bits (catalog : Catalog) : Plan → ℕ
  | scan table schema =>
    match catalog.loadStatistics table schema.width with
    | .ok statistics => statistics.tupleCount.size
    | .error _ => 0
  | select base _ | project base _ | sorting base _ _ => base.bits catalog
  | join left right _ _ _ => left.bits catalog + right.bits catalog
  | foreign _ _ _ | foreignLeaf _ _ => 0

theorem bits_scan {table : String} {schema : Schema} {statistics : Statistics}
    (h : catalog.loadStatistics table schema.width = .ok statistics) :
    (scan table schema).bits catalog = statistics.tupleCount.size := by
  rw [bits, h]

/-- A plan does not put out more tuples than its tables together have bits for. -/
theorem Yields.le_twoPow (h : p.Yields catalog settings m n m' cost) (hm : m.Nonneg) :
    n ≤ twoPow (p.bits catalog) := by
  induction h with
  | scan hload hpages =>
    rw [bits_scan hload]
    exact_mod_cast (Nat.lt_size_self _).le
  | select hbase hkeeps ih =>
    obtain ⟨hn, hm₁⟩ := hbase.nonneg hm
    exact hkeeps.le hm₁ hn (ih hm)
  | project _ ih => exact ih hm
  | join hleft hright _ _ hmatch _ ihl ihr =>
    obtain ⟨hl, hm₁⟩ := hleft.nonneg hm
    obtain ⟨hr, hm₂⟩ := hright.nonneg hm₁
    exact hmatch.le hm₂ hl hr (ihl hm) (ihr hm₁)
  | sorting _ _ _ _ ih => exact ih hm

/-- Every operator of a plan charges at most the limit for its tables. -/
theorem Yields.cost_le (h : p.Yields catalog settings m n m' cost) (hm : m.Nonneg) :
    cost ≤ p.size * chargeLimit (p.bits catalog) := by
  induction h with
  | @scan table schema _ statistics pages hload hpages =>
    have hpagesLe : pages ≤ statistics.tupleCount := (pagesOf_le (Int.natCast_nonneg _) hpages).2
    have hbits : (statistics.tupleCount : ℤ) ≤ twoPow statistics.tupleCount.size := by
      exact_mod_cast (Nat.lt_size_self _).le
    have hlimit := twoPow_le_chargeLimit statistics.tupleCount.size
    rw [bits_scan hload, size]
    omega
  | @select base c _ _ _ cost _ _ _ _ ih =>
    refine (ih hm).trans ?_
    exact_mod_cast Nat.mul_le_mul_right _ (Nat.le_succ base.size)
  | @project base _ _ _ _ cost _ ih =>
    refine (ih hm).trans ?_
    exact_mod_cast Nat.mul_le_mul_right _ (Nat.le_succ base.size)
  | @join left right _ _ _ _ l m₁ leftCost r m₂ rightCost leftPages rightPages _ _ hleft hright
      hleftPages hrightPages _ hcode ihl ihr =>
    obtain ⟨hl, hm₁⟩ := hleft.nonneg hm
    obtain ⟨hr, -⟩ := hright.nonneg hm₁
    obtain ⟨hleftNonneg, hleftLe⟩ := pagesOf_le hl hleftPages
    obtain ⟨hrightNonneg, hrightLe⟩ := pagesOf_le hr hrightPages
    have hcharge := chargeOfCode_le hcode hleftNonneg hrightNonneg
      (hleftLe.trans (hleft.le_twoPow hm)) (hrightLe.trans (hright.le_twoPow hm₁))
    have hleftLimit : (chargeLimit (left.bits catalog) : ℤ) ≤
        chargeLimit (left.bits catalog + right.bits catalog) := by
      exact_mod_cast chargeLimit_mono (Nat.le_add_right _ _)
    have hrightLimit : (chargeLimit (right.bits catalog) : ℤ) ≤
        chargeLimit (left.bits catalog + right.bits catalog) := by
      exact_mod_cast chargeLimit_mono (Nat.le_add_left _ _)
    calc leftCost + rightCost + chargeOfCode _ leftPages rightPages settings.buffersPerJoin
        ≤ left.size * chargeLimit (left.bits catalog + right.bits catalog) +
            right.size * chargeLimit (left.bits catalog + right.bits catalog) +
            chargeLimit (left.bits catalog + right.bits catalog) := by
          refine add_le_add (add_le_add ((ihl hm).trans ?_) ((ihr hm₁).trans ?_)) hcharge
          · exact mul_le_mul_of_nonneg_left hleftLimit (Int.natCast_nonneg _)
          · exact mul_le_mul_of_nonneg_left hrightLimit (Int.natCast_nonneg _)
      _ = (left.size + right.size + 1 : ℕ) *
            chargeLimit (left.bits catalog + right.bits catalog) := by
          push_cast
          ring
  | @sorting base _ _ _ n _ baseCost pages cost hbase hbuffers hpages hcost ih =>
    obtain ⟨hn, -⟩ := hbase.nonneg hm
    obtain ⟨hpagesNonneg, hpagesLe⟩ := pagesOf_le hn hpages
    have hsort : cost ≤ chargeLimit (base.bits catalog) :=
      externalSortCost_le (Int.ofNat_le.2 hbuffers) hpagesNonneg
        (hpagesLe.trans (hbase.le_twoPow hm)) hcost
    calc baseCost + cost
        ≤ base.size * chargeLimit (base.bits catalog) + chargeLimit (base.bits catalog) :=
          add_le_add (ih hm) hsort
      _ = (base.size + 1 : ℕ) * chargeLimit (base.bits catalog) := by
          push_cast
          ring

end Plan

/-! ### Costs as they are shown -/

/-- The digits of a cost do not read "infeasible". -/
theorem toString_ne_infeasible (cost : ℤ) : toString cost ≠ "infeasible" := by
  have hdigits (n : ℕ) : 'i' ∉ (Nat.repr n).toList := fun hmem => by
    rw [Nat.repr, String.toList_ofList] at hmem
    exact absurd (Nat.isDigit_of_mem_toDigits (by decide) (by decide) hmem) (by decide)
  intro h
  have hmem : 'i' ∈ (toString cost).toList := by
    rw [h]
    decide
  cases cost with
  | ofNat n => exact hdigits n hmem
  | negSucc n =>
    have hsign : toString (Int.negSucc n) = "-" ++ Nat.repr (n + 1) := rfl
    rw [hsign, String.toList_append, List.mem_append] at hmem
    exact hmem.elim (by decide) (hdigits _)

theorem costText_eq_infeasible_iff {cost : ℤ} : costText cost = "infeasible" ↔ cost = maxCost := by
  unfold costText
  split
  · rename_i h
    exact iff_of_true rfl h
  · rename_i h
    exact iff_of_false (toString_ne_infeasible cost) h

namespace Plan

variable {catalog : Catalog} {settings : Settings} {p q : Plan} {e e' : Estimate}

/-- What is shown as infeasible is either an infeasible plan, or a feasible one that costs exactly
as much as stands for these. Where the tables of a feasible plan are small enough for its size, it
costs less than every infeasible plan and is shown by its cost. -/
theorem estimate_below_infeasible (h : p.estimate catalog settings = .ok e)
    (h' : q.estimate catalog settings = .ok e') :
    (costText e.cost = "infeasible" ↔ e.feasible = false ∨ e.cost = maxCost) ∧
      (e.feasible = true → e'.feasible = false →
        (p.size * chargeLimit (p.bits catalog) : ℤ) < maxCost →
        e.cost < e'.cost ∧ costText e.cost = toString e.cost ∧
          costText e'.cost = "infeasible") := by
  have hinfeasible {q : Plan} {e : Estimate} (h : q.estimate catalog settings = .ok e)
      (he : e.feasible = false) : e.cost = maxCost := by
    obtain ⟨n, t, -, rfl⟩ := estimate_eq_ok_iff.1 h
    cases ht : t.feasible with
    | false => rw [estimateOf, if_neg (by simp [ht])]
    | true => simp [estimateOf, ht] at he
  refine ⟨?_, fun he he' hlimit => ?_⟩
  · rw [costText_eq_infeasible_iff]
    exact ⟨.inr, fun hcost => hcost.elim (hinfeasible h) id⟩
  · have hcost := (yields_of_estimate h he).cost_le .empty
    have hlt : e.cost < maxCost := hcost.trans_lt hlimit
    rw [hinfeasible h' he']
    exact ⟨hlt, if_neg hlt.ne, if_pos rfl⟩

theorem estimate_below_infeasible_sample :
    ∃ e e', (Sample.plan 0 1).estimate Sample.catalog Sample.settings = .ok e ∧
      (Sample.plan 0 7).estimate Sample.catalog Sample.settings = .ok e' ∧
      e.feasible = true ∧ e'.feasible = false ∧ e.cost < e'.cost ∧
      costText e.cost = toString e.cost ∧ costText e'.cost = "infeasible" := by
  have h : (Sample.plan 0 1).estimate Sample.catalog Sample.settings = .ok ⟨496, 40, true⟩ := by
    decide +kernel
  have h' : (Sample.plan 0 7).estimate Sample.catalog Sample.settings =
      .ok ⟨maxCost, 0, false⟩ := by decide +kernel
  obtain ⟨-, hbelow⟩ := estimate_below_infeasible h h'
  exact ⟨_, _, h, h', rfl, rfl, hbelow rfl rfl (by decide +kernel)⟩

/-- A catalog with two tables of which one has as many tuples as the cost of an infeasible plan, and
the other one more. -/
def Sample.hugeCatalog : Catalog where
  files := (Files.put {} "A.stat" "9223372036854775807\n1\n".toUTF8).put "B.stat"
    "9223372036854775808\n1\n".toUTF8
  directory := ""

/-- A scan of a table with one tuple on each page of the standard size. -/
def Sample.wideScan (table : String) : Plan := .scan table ⟨[Sample.column table "x"], 4096⟩

/-- A scan of a large table is feasible, but costs exactly as much as stands for infeasible plans
and is shown as one of these; a scan of a larger one costs more than they do. -/
theorem estimate_reaches_infeasible :
    ∃ e e' e'', (Sample.wideScan "A").estimate Sample.hugeCatalog default = .ok e ∧
      (Sample.wideScan "B").estimate Sample.hugeCatalog default = .ok e' ∧
      (Plan.foreignLeaf "Window" ⟨[], 0⟩).estimate Sample.hugeCatalog default = .ok e'' ∧
      e.feasible = true ∧ e'.feasible = true ∧ e''.feasible = false ∧
      ¬ e.cost < e''.cost ∧ costText e.cost = "infeasible" ∧ e''.cost < e'.cost := by
  refine ⟨⟨maxCost, maxCost, true⟩, ⟨maxCost + 1, maxCost + 1, true⟩, ⟨maxCost, 0, false⟩, ?_⟩
  decide +kernel

end Plan

end QueryPlan
