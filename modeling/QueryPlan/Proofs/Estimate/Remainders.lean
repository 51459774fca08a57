import Mathlib
import QueryPlan.Proofs.Estimate.Shares

/-!
# Remainders of tuples

A selection of what differs from a value keeps all tuples but one in `d`, and the remainder is
rounded up. It is computed as the difference of two doubles, so it is rounded twice before it is
rounded up. The first rounding moves the share of the tuples that are taken away by less than one
part of the divisor, the second one moves the difference to its grid. Where the remainder is a
little more than a whole number, the second rounding can take it to that number, and then one tuple
too few is kept.

This depends on two gaps of doubles alone, the one around the share and the one around the whole
number below the remainder.

## Main definitions

* `LosesTuple` : the remainder is rounded to the whole number below it.

## Main results

* `selectedTuples_notEqual` : the tuples that are kept.
* `not_losesTuple` : no tuple is lost as long as the product of both numbers is small.
* `Plan.returns_select_remainder` : selections of what differs from a value.
* `Plan.returns_select_loses` : a selection that loses a tuple.
-/

namespace QueryPlan

open Binary64

variable {n d g : ℕ}

/-! ### A remainder and the whole number below it -/

/-- What the tuples lack to the next multiple of `d`. -/
def lack (n d : ℕ) : ℕ := d - n % d

/-- The largest whole number below what remains without one in `d` tuples, if that is not whole. -/
def wholeBelow (n d : ℕ) : ℕ := n - n / d - 1

/-- What remains without one in `d` tuples is `wholeBelow n d + lack n d / d`, and the fraction is
so small that the remainder is rounded to the whole number: it is less than half of the gap of
doubles around this number. As the share is rounded before, its own gap is added to that gap if the
whole number is an even point of the grid, which attracts what is halfway, and taken off it if it is
not. -/
def LosesTuple (n d : ℕ) : Prop :=
  ¬ d ∣ n ∧
    2 * (lack n d * unitsPerOne) <
      if wholeBelow n d * unitsPerOne / gapAround (wholeBelow n d) 1 % 2 = 0 then
        d * (gapAround (wholeBelow n d) 1 + gapAround n d)
      else d * (gapAround (wholeBelow n d) 1 - gapAround n d)

instance (n d : ℕ) : Decidable (LosesTuple n d) := inferInstanceAs (Decidable (_ ∧ _))

theorem lack_pos (hpos : 0 < d) : 0 < lack n d := Nat.sub_pos_of_lt (Nat.mod_lt n hpos)

theorem lack_lt (hpos : 0 < d) (hdvd : ¬ d ∣ n) : lack n d < d :=
  Nat.sub_lt hpos (Nat.pos_of_ne_zero fun h => hdvd (Nat.dvd_of_mod_eq_zero h))

theorem div_add_one_mul_eq (hpos : 0 < d) : (n / d + 1) * d = n + lack n d := by
  have hdiv := Nat.div_add_mod' n d
  have hmod := Nat.mod_lt n hpos
  rw [add_one_mul, lack]
  omega

theorem two_le_of_not_dvd (hpos : 0 < d) (hdvd : ¬ d ∣ n) : 2 ≤ d :=
  Nat.lt_of_le_of_ne hpos fun h => hdvd (h ▸ one_dvd n)

theorem pos_of_not_dvd (hdvd : ¬ d ∣ n) : 0 < n :=
  Nat.pos_of_ne_zero fun h => hdvd (h ▸ dvd_zero d)

theorem wholeBelow_add (hpos : 0 < d) (hdvd : ¬ d ∣ n) :
    wholeBelow n d + (n / d + 1) = n := by
  have hlt : n / d < n := Nat.div_lt_self (pos_of_not_dvd hdvd) (two_le_of_not_dvd hpos hdvd)
  rw [wholeBelow]
  omega

theorem wholeBelow_lt (hpos : 0 < d) (hdvd : ¬ d ∣ n) : wholeBelow n d < n :=
  (Nat.lt_add_of_pos_right (n / d).add_one_pos).trans_eq (wholeBelow_add hpos hdvd)

theorem mul_wholeBelow_add (hpos : 0 < d) (hdvd : ¬ d ∣ n) :
    d * wholeBelow n d + lack n d + n = n * d := by
  calc d * wholeBelow n d + lack n d + n = wholeBelow n d * d + (n + lack n d) := by ring
    _ = (wholeBelow n d + (n / d + 1)) * d := by
        rw [← div_add_one_mul_eq hpos, Nat.add_mul _ (n / d + 1)]
    _ = n * d := by rw [wholeBelow_add hpos hdvd]

/-! ### The two gaps -/

section Gaps

variable (hn : n ≤ twoPow 53) (hpos : 0 < d) (hd : d ≤ twoPow 53) (hdvd : ¬ d ∣ n)

include hpos hd hdvd

/-- As long as the product of both numbers is small, both gaps together are narrow. -/
theorem gaps_le (hmul : n * d ≤ twoPow 53) :
    d * (gapAround (wholeBelow n d) 1 + gapAround n d) ≤ 2 * (lack n d * unitsPerOne) := by
  have hn0 := pos_of_not_dvd hdvd
  have hlack := lack_pos (n := n) hpos
  have hshare := twoPow_mul_gapAround_le hn0 hpos hd
  have hbelow : twoPow 52 * (d * gapAround (wholeBelow n d) 1) ≤
      (d * wholeBelow n d + lack n d) * unitsPerOne := by
    obtain h0 | hN := Nat.eq_zero_or_pos (wholeBelow n d)
    · rw [h0, gapAround_zero, Nat.mul_one, Nat.mul_zero, Nat.zero_add]
      exact (twoPow_mul_le_unitsPerOne hd).trans (Nat.le_mul_of_pos_left _ hlack)
    · calc twoPow 52 * (d * gapAround (wholeBelow n d) 1)
          = d * (twoPow 52 * (1 * gapAround (wholeBelow n d) 1)) := by ring
        _ ≤ d * (wholeBelow n d * unitsPerOne) :=
            Nat.mul_le_mul_left d (twoPow_mul_gapAround_le hN one_pos (twoPow_pos 53))
        _ ≤ (d * wholeBelow n d + lack n d) * unitsPerOne := by
            rw [← Nat.mul_assoc]
            exact Nat.mul_le_mul_right _ (Nat.le_add_right _ _)
  refine Nat.le_of_mul_le_mul_left ?_ (twoPow_pos 52)
  calc twoPow 52 * (d * (gapAround (wholeBelow n d) 1 + gapAround n d))
      = twoPow 52 * (d * gapAround (wholeBelow n d) 1) + twoPow 52 * (d * gapAround n d) := by
        ring
    _ ≤ (d * wholeBelow n d + lack n d) * unitsPerOne + n * unitsPerOne :=
        Nat.add_le_add hbelow hshare
    _ = n * d * unitsPerOne := by rw [← Nat.add_mul, mul_wholeBelow_add hpos hdvd]
    _ ≤ twoPow 52 * 2 * unitsPerOne := Nat.mul_le_mul_right _ hmul
    _ = twoPow 52 * (2 * unitsPerOne) := Nat.mul_assoc _ _ _
    _ ≤ twoPow 52 * (2 * (lack n d * unitsPerOne)) :=
        Nat.mul_le_mul_left _ (Nat.mul_le_mul_left 2 (Nat.le_mul_of_pos_left _ hlack))

include hn

/-- The gap around the share is at most half of that around the whole number below the remainder, or
else both are so narrow that no tuple is lost. -/
theorem gaps_apart : gapAround n d * 2 ∣ gapAround (wholeBelow n d) 1 ∨
    d * (gapAround (wholeBelow n d) 1 + gapAround n d) ≤ 2 * (lack n d * unitsPerOne) := by
  have hsum := wholeBelow_add hpos hdvd
  have hmul := mul_wholeBelow_add hpos hdvd
  have htwo := two_le_of_not_dvd hpos hdvd
  have hn0 := pos_of_not_dvd hdvd
  obtain h0 | hN := Nat.eq_zero_or_pos (wholeBelow n d)
  · have hone : n = 1 := by
      have hlt := lack_lt hpos hdvd
      rw [h0, Nat.mul_zero, Nat.zero_add] at hmul
      by_contra hne
      have hn2 : 2 ≤ n := by omega
      nlinarith
    exact .inr (gaps_le hpos hd hdvd (by rwa [hone, Nat.one_mul]))
  have hbelow : gapAround (wholeBelow n d) 1 = twoPow ((wholeBelow n d).log2 + 1021) * 2 := by
    have h := gapAround_eq (n := wholeBelow n d) one_pos (by rwa [Nat.div_one])
    rw [Nat.div_one] at h
    exact h.trans (twoPow_succ _)
  obtain hm | hm := Nat.eq_zero_or_pos (n / d)
  · left
    rw [hbelow]
    refine Nat.mul_dvd_mul_right ?_ 2
    exact (gapAround_dvd_of_lt hpos ((Nat.div_eq_zero_iff_lt hpos).1 hm)).trans
      (twoPow_dvd_twoPow (Nat.le_add_left _ _))
  have hshare := gapAround_eq hpos hm
  obtain rfl | hthree := htwo.eq_or_lt
  · right
    have heq : wholeBelow n 2 = n / 2 := by omega
    have hlog : (n / 2).log2 < 52 := by
      refine log2_lt_of_lt_twoPow hm.ne' ((Nat.div_lt_iff_lt_mul two_pos).2 ?_)
      rw [← twoPow_succ]
      exact hn.lt_of_ne fun h => hdvd (h ▸ ⟨twoPow 52, by rw [twoPow_succ, Nat.mul_comm]⟩)
    have hle : gapAround n 2 * 2 ≤ unitsPerOne := by
      rw [hshare, ← twoPow_succ, unitsPerOne_eq_twoPow]
      exact twoPow_le_twoPow (by omega)
    rw [heq] at hbelow ⊢
    rw [hbelow, ← twoPow_succ, ← hshare]
    have hlack := Nat.le_mul_of_pos_left unitsPerOne (lack_pos (n := n) two_pos)
    omega
  · left
    have hlog : (n / d).log2 + 1 ≤ (wholeBelow n d).log2 := by
      refine (Nat.le_log2 hN.ne').2 ?_
      calc twoPow ((n / d).log2 + 1) = twoPow (n / d).log2 * 2 := twoPow_succ _
        _ ≤ n / d * 2 := Nat.mul_le_mul_right 2 (Nat.log2_self_le hm.ne')
        _ ≤ wholeBelow n d := by
          have hdiv : n / d * d < n :=
            (Nat.div_mul_le_self n d).lt_of_ne fun h => hdvd ⟨n / d, by rw [Nat.mul_comm, h]⟩
          have hwide := Nat.mul_le_mul_left (n / d) hthree
          omega
    rw [hshare, hbelow]
    exact Nat.mul_dvd_mul_right (twoPow_dvd_twoPow (by omega)) 2

/-- When what exceeds the whole number below the remainder is rounded away. -/
theorem losesTuple_iff (hg : quotientUnits n d + g = (n / d + 1) * unitsPerOne) :
    LosesTuple n d ↔ 2 * g < gapAround (wholeBelow n d) 1 ∨
      2 * g = gapAround (wholeBelow n d) 1 ∧
        wholeBelow n d * unitsPerOne / gapAround (wholeBelow n d) 1 % 2 = 0 := by
  have hn0 := pos_of_not_dvd hdvd
  have hmul : quotientUnits n d * d + g * d = n * unitsPerOne + lack n d * unitsPerOne := by
    rw [← Nat.add_mul, hg, ← Nat.add_mul, ← div_add_one_mul_eq hpos, Nat.mul_right_comm]
  have hnear : 2 * (quotientUnits n d * d) < 2 * (n * unitsPerOne) + d * gapAround n d :=
    (le_quotientUnits_iff hn0 hn hpos hd (Dvd.intro_left _ rfl)).1 le_rfl
  have hparity := Nat.mod_two_eq_zero_or_one
    (wholeBelow n d * unitsPerOne / gapAround (wholeBelow n d) 1)
  rw [LosesTuple, and_iff_right hdvd, Nat.mul_add, Nat.mul_sub]
  obtain ⟨w, hw⟩ | hfar := gaps_apart hn hpos hd hdvd
  · -- Half of the wider gap is a whole number of narrower ones, so it is on the grid of the share.
    have hhalf : gapAround (wholeBelow n d) 1 = 2 * (gapAround n d * w) := by
      rw [hw, Nat.mul_assoc, Nat.mul_left_comm]
    have hbelow : gapAround (wholeBelow n d) 1 ∣ unitsPerOne :=
      gapAround_dvd one_pos ((Nat.div_one _).trans_lt ((wholeBelow_lt hpos hdvd).trans_le hn))
    have hshare : gapAround n d ∣ unitsPerOne :=
      gapAround_dvd hpos ((Nat.div_lt_self hn0 (two_le_of_not_dvd hpos hdvd)).trans_le hn)
    have hle : gapAround n d * w ≤ (n / d + 1) * unitsPerOne := by
      have hone := Nat.le_of_dvd unitsPerOne_pos hbelow
      have hnext := Nat.le_mul_of_pos_left unitsPerOne (n / d).add_one_pos
      omega
    obtain ⟨y, hy⟩ := Nat.exists_eq_add_of_le' hle
    have hgrid : gapAround n d ∣ y :=
      (Nat.dvd_add_left (Dvd.intro w rfl)).1 (hy ▸ hshare.mul_left _)
    have hreach := le_quotientUnits_iff hn0 hn hpos hd hgrid
    have hpass := lt_quotientUnits_iff hn0 hn hpos hd hgrid
    have hymul : 2 * (y * d) + d * gapAround (wholeBelow n d) 1 =
        2 * (n * unitsPerOne) + 2 * (lack n d * unitsPerOne) := by
      calc 2 * (y * d) + d * gapAround (wholeBelow n d) 1
          = 2 * ((y + gapAround n d * w) * d) := by
            rw [hhalf]
            ring
        _ = 2 * (quotientUnits n d * d + g * d) := by rw [← hy, ← hg, Nat.add_mul]
        _ = 2 * (n * unitsPerOne) + 2 * (lack n d * unitsPerOne) := by rw [hmul, Nat.mul_add]
    split_ifs <;> omega
  · -- The wider gap is too narrow.
    have hgap : d * gapAround (wholeBelow n d) 1 < 2 * (g * d) := by
      rw [Nat.mul_add] at hfar
      omega
    have hwide : gapAround (wholeBelow n d) 1 < 2 * g :=
      Nat.lt_of_mul_lt_mul_left (by rwa [Nat.mul_comm d (2 * g), Nat.mul_assoc])
    rw [Nat.mul_add] at hfar
    split_ifs <;> omega

omit hn hdvd in
/-- No tuple is lost as long as the product of both numbers is small. -/
theorem not_losesTuple (hmul : n * d ≤ twoPow 53) : ¬ LosesTuple n d := by
  rintro ⟨hdvd, hlose⟩
  have hle := gaps_le hpos hd hdvd hmul
  rw [Nat.mul_add] at hle
  rw [Nat.mul_add, Nat.mul_sub] at hlose
  split_ifs at hlose <;> omega

end Gaps

/-! ### The tuples that are kept -/

/-- The difference of two doubles that are not larger than `2 ^ 53`. -/
theorem Binary64.sub_whole (hn : n ≤ twoPow 53) {v : ℕ} (hv : v ≤ n * unitsPerOne) :
    (finite false (n * unitsPerOne)).sub (finite false v) =
      finite false (roundSignificant precision (n * unitsPerOne - v) 1) := by
  have hround : roundSignificant precision (n * unitsPerOne - v) 1 ≤ twoPow 53 * unitsPerOne :=
    calc roundSignificant precision (n * unitsPerOne - v) 1
        ≤ roundSignificant precision (n * unitsPerOne) 1 :=
          roundSignificant_mono (by decide) one_pos one_pos
            (Nat.mul_le_mul_right 1 (Nat.sub_le _ _))
      _ = n * unitsPerOne := quotientUnits_one hn
      _ ≤ twoPow 53 * unitsPerOne := Nat.mul_le_mul_right _ hn
  rw [sub_of_le hv, ofUnitsRatio_of_le false hround]

theorem selectedTuples_notEqual_eq (hpos : 0 < d) :
    selectedTuples .notEqual n d =
      quotientReal n d >>= fun share => toReal n >>= fun all => ceilReal (all.sub share) :=
  if_neg (Int.natCast_ne_zero.2 hpos.ne')

theorem ceil_sub_div (n d : ℕ) : ⌈(n - n / d : ℚ)⌉ = n - n / d := by
  rw [sub_eq_add_neg, Int.ceil_natCast_add, Int.ceil_neg, Rat.floor_natCast_div_natCast,
    ← sub_eq_add_neg]

theorem ceilReal_whole (k : ℕ) : ceilReal (finite false (k * unitsPerOne)) = .ok k := by
  have hpos : (0 : ℤ) < unitsPerOne := by exact_mod_cast unitsPerOne_pos
  refine ceilReal_eq ?_ (by rw [Nat.cast_mul])
  rw [Nat.cast_mul, sub_one_mul]
  exact sub_lt_self _ hpos

/-- What is between two whole numbers next to each other is rounded up to the larger one, or else it
is the smaller one. -/
theorem ceilReal_between {k units : ℕ} (hlow : k * unitsPerOne ≤ units)
    (hhigh : units ≤ (k + 1) * unitsPerOne) :
    ceilReal (finite false units) = .ok (k + 1 - if units ≤ k * unitsPerOne then 1 else 0) := by
  split_ifs with hle
  · rw [hle.antisymm hlow, ceilReal_whole, add_sub_cancel_right]
  · rw [sub_zero]
    refine ceilReal_eq ?_ (by exact_mod_cast hhigh)
    rw [add_sub_cancel_right]
    exact_mod_cast not_le.1 hle

section Remainder

variable (hn : n ≤ twoPow 53) (hpos : 0 < d) (hd : d ≤ twoPow 53)

include hn hpos

/-- A whole remainder is computed exactly. -/
theorem ceilReal_remainder_of_dvd (hdvd : d ∣ n) :
    ceilReal (finite false
      (roundSignificant precision (n * unitsPerOne - quotientUnits n d) 1)) =
        .ok (n - n / d) := by
  obtain ⟨m, rfl⟩ := hdvd
  have hm : m ≤ d * m := Nat.le_mul_of_pos_left m hpos
  have hshare : quotientUnits (d * m) d = m * unitsPerOne := by
    rw [Nat.mul_comm, quotientUnits_mul (hm.trans hn) hpos]
  have hround : roundSignificant precision ((d * m - m) * unitsPerOne) 1 =
      (d * m - m) * unitsPerOne := quotientUnits_one ((Nat.sub_le _ _).trans hn)
  have hwhole : ((d * m : ℕ) : ℤ) / d = m := by exact_mod_cast Nat.mul_div_cancel_left m hpos
  rw [hshare, ← Nat.sub_mul, hround, ceilReal_whole, hwhole, Nat.cast_sub hm]

include hd

/-- A share that is not whole stays between the whole numbers next to it. -/
theorem quotientUnits_between (hdvd : ¬ d ∣ n) :
    n / d * unitsPerOne < quotientUnits n d ∧
      quotientUnits n d < (n / d + 1) * unitsPerOne := by
  have hnext := div_add_one_mul_eq (n := n) hpos
  have hless := lack_lt hpos hdvd
  have hlack := lack_pos (n := n) hpos
  have hlow : n / d * d < n := by
    rw [add_one_mul] at hnext
    omega
  have hhigh : n < (n / d + 1) * d := by omega
  constructor
  · exact_mod_cast mul_lt_quotientUnits (c := (n / d : ℕ)) hn hpos hd (by exact_mod_cast hlow)
  · exact_mod_cast
      quotientUnits_lt_mul (c := (n / d + 1 : ℕ)) hn hpos hd (by exact_mod_cast hhigh)

/-- A remainder that is not whole is rounded up to the whole number above it, unless it was rounded
to the one below before. -/
theorem ceilReal_remainder_of_not_dvd (hdvd : ¬ d ∣ n) :
    ceilReal (finite false
      (roundSignificant precision (n * unitsPerOne - quotientUnits n d) 1)) =
        .ok (n - n / d - if LosesTuple n d then 1 else 0) := by
  obtain ⟨hlow, hhigh⟩ := quotientUnits_between hn hpos hd hdvd
  obtain ⟨g, hg⟩ := Nat.exists_eq_add_of_le hhigh.le
  have hg0 : 0 < g := by omega
  have hg1 : g < unitsPerOne := by
    rw [add_one_mul] at hg
    omega
  have hsum := wholeBelow_add hpos hdvd
  have hwhole : (n : ℤ) - n / d = wholeBelow n d + 1 := by
    rw [← Int.natCast_div]
    omega
  have hdifference : n * unitsPerOne - quotientUnits n d =
      wholeBelow n d * unitsPerOne + g := by
    have hmul := congrArg (· * unitsPerOne) hsum
    simp only [Nat.add_mul (wholeBelow n d)] at hmul
    omega
  have hbelow := (wholeBelow_lt hpos hdvd).trans_le hn
  obtain ⟨hfrom, hto⟩ := roundSignificant_between hbelow hg1.le
  rw [hdifference, hwhole, ceilReal_between hfrom hto]
  simp only [roundSignificant_le_whole_iff hbelow hg0 hg1,
    losesTuple_iff hn hpos hd hdvd hg.symm]

/-- A selection of what differs from a value keeps all tuples but one in `d`, rounded up, or one
tuple less. -/
theorem selectedTuples_notEqual : selectedTuples .notEqual n d =
    .ok (⌈(n - n / d : ℚ)⌉ - if LosesTuple n d then 1 else 0) := by
  rw [selectedTuples_notEqual_eq hpos]
  refine bind_eq_ok_iff.2 ⟨_, quotientReal_whole hn hpos hd,
    bind_eq_ok_iff.2 ⟨_, toReal_whole hn, ?_⟩⟩
  rw [sub_whole hn (quotientUnits_le hn hpos hd), ceil_sub_div]
  by_cases hdvd : d ∣ n
  · rw [ceilReal_remainder_of_dvd hn hpos hdvd, if_neg fun h => h.1 hdvd, sub_zero]
  · exact ceilReal_remainder_of_not_dvd hn hpos hd hdvd

end Remainder

namespace Plan

open PassM

variable {catalog : Catalog} {settings : Settings} {base : Plan} {c : Condition} {a : Attribute}
  {s t : PassState} {n d : ℤ}

/-- Wherever a selection of what differs from a value stands in a plan, and whatever lies below it:
of up to `2 ^ 53` tuples with up to `2 ^ 53` distinct values in its column it keeps all but one in
so many, rounded up, or one tuple less than that. It keeps no less as long as the product of both
numbers is not larger than `2 ^ 53` either. -/
theorem returns_select_remainder (hbase : (base.evaluate catalog settings).Returns s n t)
    (ht : t.feasible = true) (ha : base.schema.resolve? c.lhs = some a)
    (hd : t.distinct.get? a.key = some d) (hc : c.comparator = .notEqual)
    (hn0 : 0 ≤ n) (hn : n ≤ 2 ^ 53) (hd1 : 1 ≤ d) (hd2 : d ≤ 2 ^ 53) :
    ∃ kept u, ((select base c).evaluate catalog settings).Returns s kept u ∧
      u.feasible = true ∧ u.cost = t.cost ∧
      kept = ⌈(n - n / d : ℚ)⌉ - (if LosesTuple n.toNat d.toNat then 1 else 0) ∧
      (n * d ≤ 2 ^ 53 → kept = ⌈(n - n / d : ℚ)⌉) := by
  lift n to ℕ using hn0
  lift d to ℕ using zero_le_one.trans hd1
  have hn' : n ≤ twoPow 53 := by exact_mod_cast hn
  have hd' : d ≤ twoPow 53 := by exact_mod_cast hd2
  have hpos : 0 < d := by exact_mod_cast hd1
  have hkept := selectedTuples_notEqual hn' hpos hd'
  rw [← hc] at hkept
  obtain ⟨u, hreturns, hu, hcost⟩ := returns_select hbase ht ha hd hkept
  refine ⟨_, u, hreturns, hu, hcost, rfl, fun hmul => ?_⟩
  rw [if_neg (not_losesTuple hpos hd' (by exact_mod_cast hmul)), sub_zero]
  rfl

theorem returns_select_remainder_sample :
    ∃ t kept u,
      (Sample.soleScan.evaluate (Sample.soleCatalog "9007199254740989\n5\n") default).Returns {}
        9007199254740989 t ∧
      ((select Sample.soleScan (Sample.comparison .notEqual)).evaluate
        (Sample.soleCatalog "9007199254740989\n5\n") default).Returns {} kept u ∧
      u.cost = t.cost ∧ LosesTuple 9007199254740989 5 ∧
      kept = ⌈(9007199254740989 - 9007199254740989 / 5 : ℚ)⌉ - 1 := by
  have hscan : (Sample.soleScan.evaluate (Sample.soleCatalog "9007199254740989\n5\n")
      default).Returns {} 9007199254740989 _ := Prod.ext (by decide +kernel) rfl
  have hlose : LosesTuple 9007199254740989 5 := by decide +kernel
  obtain ⟨kept, u, hselect, -, hcost, hkept, -⟩ :=
    returns_select_remainder (c := Sample.comparison .notEqual) (a := Sample.column "T" "x")
      (d := 5) hscan (by decide +kernel) (by decide +kernel) (by decide +kernel) rfl
      (by decide) (by decide) (by decide) (by decide)
  refine ⟨_, kept, u, hscan, hselect, hcost, hlose, hkept.trans ?_⟩
  have hlose' : LosesTuple (Int.toNat 9007199254740989) (Int.toNat 5) := hlose
  rw [if_pos hlose']
  norm_num

/-- Of 134217731 tuples with 67108866 distinct values a selection of what differs from a value keeps
one less than all but one in so many, rounded up. -/
theorem returns_select_loses :
    ∃ t u,
      (Sample.soleScan.evaluate (Sample.soleCatalog "134217731\n67108866\n") default).Returns {}
        134217731 t ∧
      t.feasible = true ∧ t.distinct.get? (Sample.column "T" "x").key = some 67108866 ∧
      ((select Sample.soleScan (Sample.comparison .notEqual)).evaluate
        (Sample.soleCatalog "134217731\n67108866\n") default).Returns {} 134217729 u ∧
      u.feasible = true ∧ ⌈(134217731 - 134217731 / 67108866 : ℚ)⌉ = 134217730 := by
  refine ⟨_, _, Prod.ext (by decide +kernel) rfl, by decide +kernel, by decide +kernel,
    Prod.ext (by decide +kernel) rfl, by decide +kernel, ?_⟩
  norm_num

end Plan

end QueryPlan
