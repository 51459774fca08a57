import Mathlib
import QueryPlan.Proofs.Estimate.Selectivity
import QueryPlan.Proofs.Estimate.Yields
import QueryPlan.Proofs.Number.Quotients

/-!
# Shares of tuples

A selection on equality keeps one in `d` tuples, any comparison by order keeps half of them, and
both numbers are rounded up. The share is computed as a double. For tables of up to `2 ^ 53` tuples
this makes no difference: a rounded share lies between the same two whole numbers as the exact one.

## Main results

* `ceilReal_eq` : when a double is rounded up to a whole number.
* `selectedTuples_equal`, `selectedTuples_range` : the tuples that are kept.
* `Plan.returns_select_share` : selections on equality and by order.
-/

namespace QueryPlan

open Binary64

variable {n d num den : ℕ}

/-! ### Doubles that are whole numbers or shares of them -/

namespace Binary64

/-- What is rounded to at most `2 ^ 53` is finite. -/
theorem ofUnitsRatio_of_le (negative : Bool)
    (h : roundSignificant precision num den ≤ twoPow 53 * unitsPerOne) :
    ofUnitsRatio negative num den = finite negative (roundSignificant precision num den) := by
  refine if_pos (h.trans ?_)
  calc twoPow 53 * unitsPerOne = twoPow (53 + 1074) := by rw [twoPow_add, unitsPerOne]
    _ ≤ twoPow 2045 := twoPow_le_twoPow (by decide)
    _ ≤ maxUnits := Nat.le_mul_of_pos_left _ (by decide)

end Binary64

/-- A double between two whole numbers next to each other is rounded up to the larger one. -/
theorem ceilReal_eq {units : ℕ} {c : ℤ} (hlow : (c - 1) * unitsPerOne < units)
    (hhigh : units ≤ c * unitsPerOne) : ceilReal (finite false units) = .ok c := by
  have hpos : (0 : ℤ) < unitsPerOne := by exact_mod_cast unitsPerOne_pos
  have hdiv : -(units : ℤ) / unitsPerOne = -c := by
    refine le_antisymm (Int.lt_add_one_iff.1 ((Int.ediv_lt_iff_lt_mul hpos).2 ?_))
      ((Int.le_ediv_iff_mul_le hpos).2 ?_) <;> linarith
  refine congrArg Except.ok ?_
  change -(-(units : ℤ) / unitsPerOne) = c
  rw [hdiv, neg_neg]

theorem toReal_whole (hn : n ≤ twoPow 53) :
    toReal n = .ok (finite false (n * unitsPerOne)) := by
  have hround : roundSignificant precision (n * unitsPerOne) 1 = n * unitsPerOne :=
    quotientUnits_one hn
  have hfinite := ofUnitsRatio_of_le false (hround.trans_le (Nat.mul_le_mul_right _ hn))
  rw [hround] at hfinite
  refine toReal_eq_ok_iff.2 (finite?_eq_some_iff.2 ⟨false, _, ?_, rfl⟩)
  rwa [ofInt, decide_eq_false (not_lt.2 (Int.natCast_nonneg n)), Int.natAbs_natCast]

/-- A share of a whole number of tuples is a finite double. -/
theorem quotientReal_whole (hn : n ≤ twoPow 53) (hpos : 0 < d) (hd : d ≤ twoPow 53) :
    quotientReal n d = .ok (finite false (quotientUnits n d)) := by
  have hle := (quotientUnits_le hn hpos hd).trans (Nat.mul_le_mul_right _ hn)
  have hfinite := ofUnitsRatio_of_le false hle
  refine (quotientReal_eq_ok_iff (by omega)).2 (finite?_eq_some_iff.2 ⟨false, _, ?_, rfl⟩)
  rwa [decide_eq_false (not_lt.2 (Int.natCast_nonneg n)),
    decide_eq_false (not_lt.2 (Int.natCast_nonneg d)), bne_self_eq_false, Int.natAbs_natCast,
    Int.natAbs_natCast]

/-! ### The tuples that are kept -/

theorem selectedTuples_equal_eq (hpos : 0 < d) :
    selectedTuples .equal n d = quotientReal n d >>= ceilReal :=
  if_neg (Int.natCast_ne_zero.2 hpos.ne')

/-- A selection on equality keeps exactly one in `d` tuples, rounded up. -/
theorem selectedTuples_equal (hn : n ≤ twoPow 53) (hpos : 0 < d) (hd : d ≤ twoPow 53) :
    selectedTuples .equal n d = .ok ⌈(n / d : ℚ)⌉ := by
  have hpos' : (0 : ℚ) < d := by exact_mod_cast hpos
  generalize hc : ⌈(n / d : ℚ)⌉ = c
  obtain ⟨hlow, hhigh⟩ := Int.ceil_eq_iff.1 hc
  rw [lt_div_iff₀ hpos'] at hlow
  rw [div_le_iff₀ hpos'] at hhigh
  have hbelow : (c - 1) * d < n := by exact_mod_cast hlow
  have habove : n ≤ c * d := by exact_mod_cast hhigh
  rw [selectedTuples_equal_eq hpos, quotientReal_whole hn hpos hd]
  exact ceilReal_eq (mul_lt_quotientUnits hn hpos hd hbelow)
    (quotientUnits_le_mul hn hpos hd habove)

theorem unitsPerOne_eq : unitsPerOne = twoPow 1073 * 2 := twoPow_succ 1073

/-- Half of a whole number of tuples is a double. -/
theorem half_mul_whole (hn : n ≤ twoPow 53) :
    half.mul (finite false (n * unitsPerOne)) = finite false (n * twoPow 1073) := by
  have hround : roundSignificant precision (twoPow 1073 * (n * unitsPerOne)) unitsPerOne =
      n * twoPow 1073 := by
    rw [← roundSignificant_whole hn 1073]
    exact roundSignificant_congr (by decide) unitsPerOne_pos one_pos (by ring)
  have hle : n * twoPow 1073 ≤ twoPow 53 * unitsPerOne :=
    Nat.mul_le_mul hn (twoPow_le_twoPow (Nat.le_succ 1073))
  rw [← hround] at hle
  exact (ofUnitsRatio_of_le false hle).trans (by rw [hround])

theorem selectedTuples_range_eq {comparator : Comparator} (hequal : comparator ≠ .equal)
    (hnotEqual : comparator ≠ .notEqual) (hpos : 0 < d) :
    selectedTuples comparator n d = toReal n >>= fun all => ceilReal (half.mul all) := by
  have hne : (d : ℤ) ≠ 0 := Int.natCast_ne_zero.2 hpos.ne'
  cases comparator with
  | equal => exact absurd rfl hequal
  | notEqual => exact absurd rfl hnotEqual
  | less | lessEqual | greater | greaterEqual => exact if_neg hne

/-- A selection by order keeps exactly half of the tuples, rounded up. -/
theorem selectedTuples_range {comparator : Comparator} (hequal : comparator ≠ .equal)
    (hnotEqual : comparator ≠ .notEqual) (hn : n ≤ twoPow 53) (hpos : 0 < d) :
    selectedTuples comparator n d = .ok ⌈(n / 2 : ℚ)⌉ := by
  generalize hc : ⌈(n / 2 : ℚ)⌉ = c
  obtain ⟨hlow, hhigh⟩ := Int.ceil_eq_iff.1 hc
  rw [lt_div_iff₀ two_pos] at hlow
  rw [div_le_iff₀ two_pos] at hhigh
  have hbelow : (c - 1) * 2 < (n : ℤ) := by exact_mod_cast hlow
  have habove : (n : ℤ) ≤ c * 2 := by exact_mod_cast hhigh
  rw [selectedTuples_range_eq hequal hnotEqual hpos]
  refine bind_eq_ok_iff.2 ⟨_, toReal_whole hn, ?_⟩
  rw [half_mul_whole hn]
  have hhalf := twoPow_pos 1073
  -- With the unit as a variable nothing evaluates the power.
  refine ceilReal_eq ?_ ?_ <;> rw [unitsPerOne_eq] <;> generalize twoPow 1073 = unit at * <;>
    push_cast <;> nlinarith

namespace Plan

open PassM

variable {catalog : Catalog} {settings : Settings} {base : Plan} {c : Condition} {a : Attribute}
  {s t : PassState} {n d kept : ℤ}

/-- What a selection keeps is what it puts out. It is free of charge. -/
theorem returns_select (hbase : (base.evaluate catalog settings).Returns s n t)
    (ht : t.feasible = true) (ha : base.schema.resolve? c.lhs = some a)
    (hd : t.distinct.get? a.key = some d)
    (hkept : selectedTuples c.comparator n d = .ok kept) :
    ∃ u, ((select base c).evaluate catalog settings).Returns s kept u ∧ u.feasible = true ∧
      u.cost = t.cost := by
  have hselect := (returns_evaluateSelect_iff ht).2 ⟨_, ⟨a, d, ha, hd, hkept, rfl⟩, rfl⟩
  exact ⟨_, returns_bind_iff.2 ⟨_, _, hbase, returns_bind_iff.2 ⟨_, _, hselect,
    returns_recordEstimate_iff.2 ⟨rfl, rfl⟩⟩⟩, ht, rfl⟩

/-- Wherever a selection stands in a plan, and whatever lies below it: of up to `2 ^ 53` tuples with
up to `2 ^ 53` distinct values in its column it keeps exactly one in so many if it compares for
equality, and exactly half of them if it compares by order, both rounded up. -/
theorem returns_select_share (hbase : (base.evaluate catalog settings).Returns s n t)
    (ht : t.feasible = true) (ha : base.schema.resolve? c.lhs = some a)
    (hd : t.distinct.get? a.key = some d) (hc : c.comparator ≠ .notEqual)
    (hn0 : 0 ≤ n) (hn : n ≤ 2 ^ 53) (hd1 : 1 ≤ d) (hd2 : d ≤ 2 ^ 53) :
    ∃ kept u, ((select base c).evaluate catalog settings).Returns s kept u ∧
      u.feasible = true ∧ u.cost = t.cost ∧
      kept = (if c.comparator = .equal then ⌈(n / d : ℚ)⌉ else ⌈(n / 2 : ℚ)⌉) ∧ kept ≤ n := by
  lift n to ℕ using hn0
  lift d to ℕ using zero_le_one.trans hd1
  have hn' : n ≤ twoPow 53 := by exact_mod_cast hn
  have hd' : d ≤ twoPow 53 := by exact_mod_cast hd2
  have hpos : 0 < d := by exact_mod_cast hd1
  have hone : (1 : ℚ) ≤ d := by exact_mod_cast hd1
  have hkept : selectedTuples c.comparator n d =
      .ok (if c.comparator = .equal then ⌈(n / d : ℚ)⌉ else ⌈(n / 2 : ℚ)⌉) := by
    split_ifs with hequal
    · rw [hequal, selectedTuples_equal hn' hpos hd']
    · exact selectedTuples_range hequal hc hn' hpos
  obtain ⟨u, hreturns, hu, hcost⟩ := returns_select hbase ht ha hd hkept
  refine ⟨_, u, hreturns, hu, hcost, rfl, ?_⟩
  split_ifs
  · exact Int.ceil_le.2 (div_le_self (Nat.cast_nonneg n) hone)
  · exact Int.ceil_le.2 (half_le_self (Nat.cast_nonneg n))

/-- A catalog with the statistics of one table. -/
def Sample.soleCatalog (statistics : String) : Catalog where
  files := Files.put {} "T.stat" statistics.toUTF8
  directory := ""

/-- A scan of the table, which has one column. -/
def Sample.soleScan : Plan := .scan "T" ⟨[Sample.column "T" "x"], 4⟩

/-- A comparison of this column with a number. -/
def Sample.comparison (comparator : Comparator) : Condition :=
  { lhs := Sample.column "T" "x", rhs := .integer 1, comparator := comparator }

theorem returns_select_share_sample :
    ∃ t kept u,
      (Sample.soleScan.evaluate (Sample.soleCatalog "9007199254740991\n3\n") default).Returns {}
        9007199254740991 t ∧
      ((select Sample.soleScan (Sample.comparison .equal)).evaluate
        (Sample.soleCatalog "9007199254740991\n3\n") default).Returns {} kept u ∧
      u.cost = t.cost ∧ kept = 3002399751580331 := by
  have hscan : (Sample.soleScan.evaluate (Sample.soleCatalog "9007199254740991\n3\n")
      default).Returns {} 9007199254740991 _ := Prod.ext (by decide +kernel) rfl
  obtain ⟨kept, u, hselect, -, hcost, hkept, -⟩ :=
    returns_select_share (c := Sample.comparison .equal) (a := Sample.column "T" "x") (d := 3) hscan
      (by decide +kernel) (by decide +kernel) (by decide +kernel) (by decide) (by decide)
      (by decide) (by decide) (by decide)
  refine ⟨_, kept, u, hscan, hselect, hcost, hkept.trans ((if_pos rfl).trans ?_)⟩
  norm_num

end Plan

end QueryPlan
