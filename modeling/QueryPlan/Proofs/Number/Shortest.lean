import Mathlib
import QueryPlan.Number.Shortest
import QueryPlan.Proofs.Number.Rounding

/-!
# Reading back the shortest decimal

The numbers that are rounded to a double form an interval around it: half the gap on either side,
with the ends if the significand is even. The decimal that is picked for a double lies in its
interval, for with seventeen digits even the nearest point of the decimal grid does; and every
number of the interval is read as that double.

## Main definitions

* `Binary64.Representable`, `Binary64.IsDouble` : the magnitudes of the finite doubles, and the
  numbers that have them.
* `Decimal.ReadsAs` : a number lies in the interval around a magnitude.

## Main results

* `Decimal.ReadsAs.roundSignificant` : the numbers of the interval are rounded to the magnitude.
* `Decimal.readsAs_shortest` : the decimal that is picked lies in the interval.
* `Decimal.ofDecimal_shortest` : the decimal that is picked is read as the double.
-/

namespace QueryPlan

open Binary64

variable {units m k num den c : ℕ} {e : ℤ} {x : ℚ}

/-- The magnitudes of the finite doubles: at most 53 significant bits, up to the largest one. -/
def Binary64.Representable (units : ℕ) : Prop :=
  units ≤ maxUnits ∧ ∃ m k, m < twoPow precision ∧ units = m * twoPow k

/-- A number that there is as a double: the magnitude of a finite one is that of a double. -/
def Binary64.IsDouble : Binary64 → Prop
  | .finite _ units => Representable units
  | .infinite _ | .notNumber => True

namespace Decimal

/-! ### Significands -/

/-- A magnitude is a significand of 53 bits times a power of two; the significand has fewer bits
only in front of the power one. -/
structure Normal (units m k : ℕ) : Prop where
  eq : units = m * twoPow k
  lt : m < twoPow precision
  full : k = 0 ∨ twoPow 52 ≤ m

theorem twoPow_precision : twoPow precision = 2 * twoPow 52 := by
  rw [precision, twoPow_succ, mul_comm]

theorem Normal.log2_lt (h : Normal units m k) (hpos : 0 < units) : units.log2 < 53 + k := by
  rw [Nat.log2_lt hpos.ne', h.eq]
  calc m * twoPow k < twoPow 53 * twoPow k := Nat.mul_lt_mul_of_pos_right h.lt (twoPow_pos k)
    _ = 2 ^ (53 + k) := (twoPow_add 53 k).symm

theorem Normal.gapAbove_eq (h : Normal units m k) (hpos : 0 < units) :
    gapAbove units = twoPow k := by
  have hlt := h.log2_lt hpos
  rw [gapAbove, precision]
  obtain rfl | hfull := h.full
  · rw [show units.log2 + 1 - 53 = 0 by omega]
  · have hle : 52 + k ≤ units.log2 := by
      rw [Nat.le_log2 hpos.ne', h.eq]
      calc 2 ^ (52 + k) = twoPow 52 * twoPow k := twoPow_add 52 k
        _ ≤ m * twoPow k := Nat.mul_le_mul_right _ hfull
    rw [show units.log2 + 1 - 53 = k by omega]

theorem Normal.div_gapAbove (h : Normal units m k) (hpos : 0 < units) :
    units / gapAbove units = m := by
  rw [h.gapAbove_eq hpos, h.eq, Nat.mul_div_cancel _ (twoPow_pos k)]

/-- Bits move from the power to the significand as long as there is room for them. -/
theorem exists_normal_mul {s : ℕ} (hs : s < twoPow precision) (t : ℕ) :
    ∃ m k, Normal (s * twoPow t) m k := by
  induction t generalizing s with
  | zero => exact ⟨s, 0, rfl, hs, .inl rfl⟩
  | succ t ih =>
    obtain hfull | hroom := le_or_gt (twoPow 52) s
    · exact ⟨s, t + 1, rfl, hs, .inr hfull⟩
    · have hshift : s * twoPow (t + 1) = s * 2 * twoPow t := by rw [twoPow_succ]; ring
      rw [hshift]
      exact ih (by rw [twoPow_precision]; omega)

theorem exists_normal (h : Representable units) : ∃ m k, Normal units m k := by
  obtain ⟨-, s, t, hs, rfl⟩ := h
  exact exists_normal_mul hs t

/-- The gap below is that above, or half of it in front of a power of two. -/
theorem Normal.gapBelow_eq (h : Normal units m k) (hpos : 0 < units) :
    gapBelow units = twoPow k ∧ (k = 0 ∨ twoPow 52 < m) ∨
      ∃ j, k = j + 1 ∧ m = twoPow 52 ∧ gapBelow units = twoPow j := by
  rw [gapBelow, h.gapAbove_eq hpos]
  split
  · rename_i hpower
    obtain ⟨hunits, hgap⟩ := hpower
    right
    cases k with
    | zero => simp at hgap
    | succ j =>
      refine ⟨j, rfl, ?_, by rw [twoPow_succ]; omega⟩
      have hfull : twoPow 52 ≤ m := h.full.resolve_left (Nat.succ_ne_zero j)
      have hlog : units.log2 < 53 + (j + 1) := h.log2_lt hpos
      have hle : m * twoPow (j + 1) ≤ twoPow 52 * twoPow (j + 1) := by
        rw [← h.eq, hunits, ← twoPow_add]
        exact twoPow_le_twoPow (by omega)
      exact le_antisymm (Nat.le_of_mul_le_mul_right hle (twoPow_pos _)) hfull
  · rename_i hpower
    refine .inl ⟨rfl, or_iff_not_imp_left.2 fun hk => ?_⟩
    refine lt_of_le_of_ne (h.full.resolve_left hk) ?_
    rintro rfl
    have hlog : units.log2 = 52 + k := by
      rw [h.eq, ← twoPow_add, twoPow, Nat.pow_eq, Nat.log2_two_pow]
    have hunits : units = twoPow units.log2 := by
      rw [hlog, twoPow_add]
      exact h.eq
    exact hpower ⟨hunits, Nat.one_lt_two_pow hk⟩

theorem gapBelow_le_gapAbove (units : ℕ) : gapBelow units ≤ gapAbove units := by
  unfold gapBelow
  split
  · exact Nat.div_le_self _ _
  · exact le_rfl

theorem gapAbove_le (hunits : Representable units) (hpos : 0 < units) : gapAbove units ≤ units := by
  obtain ⟨m, k, hnormal⟩ := exists_normal hunits
  have hm : 0 < m := by
    refine Nat.pos_of_ne_zero ?_
    rintro rfl
    exact hpos.ne' (hnormal.eq.trans (Nat.zero_mul _))
  rw [hnormal.gapAbove_eq hpos]
  exact hnormal.eq ▸ Nat.le_mul_of_pos_left _ hm

theorem gapBelow_le (hunits : Representable units) (hpos : 0 < units) : gapBelow units ≤ units :=
  (gapBelow_le_gapAbove units).trans (gapAbove_le hunits hpos)

/-! ### The interval around a magnitude -/

/-- A number, in units, lies in the interval of the numbers that are rounded to a magnitude. -/
def ReadsAs (units : ℕ) (x : ℚ) : Prop :=
  if units / gapAbove units % 2 = 0 then
    2 * (units : ℚ) - gapBelow units ≤ 2 * x ∧ 2 * x ≤ 2 * units + gapAbove units
  else 2 * (units : ℚ) - gapBelow units < 2 * x ∧ 2 * x < 2 * units + gapAbove units

theorem ReadsAs.bounds (h : ReadsAs units x) :
    2 * (units : ℚ) - gapBelow units ≤ 2 * x ∧ 2 * x ≤ 2 * units + gapAbove units := by
  unfold ReadsAs at h
  split at h
  · exact h
  · exact ⟨h.1.le, h.2.le⟩

theorem readsAs_of_lt (hlow : 2 * (units : ℚ) - gapBelow units < 2 * x)
    (hhigh : 2 * x < 2 * units + gapAbove units) : ReadsAs units x := by
  unfold ReadsAs
  split
  · exact ⟨hlow.le, hhigh.le⟩
  · exact ⟨hlow, hhigh⟩

/-- The ends of the interval belong to even significands. -/
theorem ReadsAs.even (h : ReadsAs units x)
    (hend : 2 * x = 2 * (units : ℚ) - gapBelow units ∨ 2 * x = 2 * units + gapAbove units) :
    units / gapAbove units % 2 = 0 := by
  by_contra hodd
  rw [ReadsAs, if_neg hodd] at h
  obtain hlow | hhigh := hend
  · exact h.1.ne' hlow
  · exact h.2.ne hhigh

/-- The interval in terms of the two sides of a quotient. -/
theorem ReadsAs.mul_bounds (hden : 0 < den) (h : ReadsAs units (num / den)) :
    2 * (units * den) ≤ 2 * num + gapBelow units * den ∧
      2 * num ≤ 2 * (units * den) + gapAbove units * den ∧
      (2 * (units * den) = 2 * num + gapBelow units * den ∨
        2 * num = 2 * (units * den) + gapAbove units * den → units / gapAbove units % 2 = 0) := by
  have hden' : (0 : ℚ) < den := Nat.cast_pos.2 hden
  have hnum : (num : ℚ) / den * den = num := div_mul_cancel₀ _ hden'.ne'
  obtain ⟨hlow, hhigh⟩ := h.bounds
  refine ⟨?_, ?_, fun hend => h.even ?_⟩
  · have hlow' := mul_le_mul_of_nonneg_right hlow hden'.le
    have hcast : 2 * ((units : ℚ) * den) ≤ 2 * num + gapBelow units * den := by linarith
    exact_mod_cast hcast
  · have hhigh' := mul_le_mul_of_nonneg_right hhigh hden'.le
    have hcast : 2 * (num : ℚ) ≤ 2 * (units * den) + gapAbove units * den := by linarith
    exact_mod_cast hcast
  · refine hend.imp (fun hend => ?_) fun hend => ?_ <;>
      refine mul_right_cancel₀ hden'.ne' ?_
    · have hcast : 2 * ((units : ℚ) * den) = 2 * num + gapBelow units * den := by exact_mod_cast hend
      linarith
    · have hcast : 2 * (num : ℚ) = 2 * (units * den) + gapAbove units * den := by exact_mod_cast hend
      linarith

theorem significantStep_eq (hden : 0 < den) (hlow : k = 0 ∨ twoPow (52 + k) * den ≤ num)
    (hhigh : num < twoPow (53 + k) * den) : significantStep precision num den = twoPow k := by
  have hquotient : num / den < twoPow (53 + k) := (Nat.div_lt_iff_lt_mul hden).2 hhigh
  rw [significantStep, precision]
  obtain rfl | hlow := hlow
  · obtain hzero | hpos := Nat.eq_zero_or_pos (num / den)
    · simp [hzero]
    · have hlt : (num / den).log2 < 53 := (Nat.log2_lt hpos.ne').2 hquotient
      rw [show (num / den).log2 + 1 - 53 = 0 by omega]
  · have hle : twoPow (52 + k) ≤ num / den := (Nat.le_div_iff_mul_le hden).2 hlow
    have hne : num / den ≠ 0 := ((twoPow_pos _).trans_le hle).ne'
    have hlt : (num / den).log2 < 53 + k := (Nat.log2_lt hne).2 hquotient
    have hge : 52 + k ≤ (num / den).log2 := (Nat.le_log2 hne).2 hle
    rw [show (num / den).log2 + 1 - 53 = k by omega]

theorem Normal.units_mul (h : Normal units m k) (den : ℕ) :
    units * den = m * (den * twoPow k) := by
  rw [h.eq]
  ring

/-- The interval ends below the next power of two. -/
theorem ReadsAs.lt_twoPow_mul (h : ReadsAs units (num / den)) (hnormal : Normal units m k)
    (hpos : 0 < units) (hden : 0 < den) : num < twoPow (53 + k) * den := by
  obtain ⟨-, hhigh, -⟩ := h.mul_bounds hden
  rw [hnormal.gapAbove_eq hpos, hnormal.units_mul] at hhigh
  have hstep := Nat.mul_pos hden (twoPow_pos k)
  have hm : (m + 1) * (den * twoPow k) ≤ twoPow 53 * (den * twoPow k) :=
    Nat.mul_le_mul_right _ hnormal.lt
  rw [twoPow_add]
  nlinarith

/-- On the grid of the magnitude the numbers of the interval are rounded to its significand. -/
theorem ReadsAs.roundHalfEven_eq (h : ReadsAs units (num / den)) (hnormal : Normal units m k)
    (hpos : 0 < units) (hden : 0 < den) : roundHalfEven num (den * twoPow k) = m := by
  obtain ⟨hlow, hhigh, heven⟩ := h.mul_bounds hden
  rw [hnormal.div_gapAbove hpos] at heven
  rw [hnormal.gapAbove_eq hpos, hnormal.units_mul] at hhigh heven
  rw [hnormal.units_mul] at hlow
  have hgap : gapBelow units * den ≤ twoPow k * den :=
    Nat.mul_le_mul_right den (hnormal.gapAbove_eq hpos ▸ gapBelow_le_gapAbove units)
  refine QueryPlan.roundHalfEven_eq (Nat.mul_pos hden (twoPow_pos k)) (by nlinarith) (by nlinarith)
    fun hend => heven ?_
  exact hend.imp (fun _ => by nlinarith) fun _ => by nlinarith

/-- On the grid below a power of two, which is twice as fine, the numbers of the interval are
rounded to this power. -/
theorem ReadsAs.roundHalfEven_below (h : ReadsAs units (num / den))
    (hnormal : Normal units (twoPow 52) (k + 1)) (hgap : gapBelow units = twoPow k) (hden : 0 < den)
    (hbelow : num < twoPow (53 + k) * den) : roundHalfEven num (den * twoPow k) = twoPow 53 := by
  obtain ⟨hlow, -, -⟩ := h.mul_bounds hden
  rw [hgap, hnormal.units_mul, twoPow_succ k] at hlow
  rw [twoPow_add, twoPow_succ 52] at hbelow
  have hhalf := Nat.mul_pos hden (twoPow_pos k)
  refine QueryPlan.roundHalfEven_eq hhalf ?_ ?_ fun _ => ?_
  · rw [twoPow_succ 52]
    nlinarith
  · rw [twoPow_succ 52]
    nlinarith
  · rw [twoPow_succ 52, Nat.mul_mod_left]

/-- The numbers in the interval around a magnitude are rounded to it. -/
theorem ReadsAs.roundSignificant (h : ReadsAs units (num / den)) (hunits : Representable units)
    (hpos : 0 < units) (hden : 0 < den) : roundSignificant precision num den = units := by
  obtain ⟨m, k, hnormal⟩ := exists_normal hunits
  rw [QueryPlan.roundSignificant]
  by_cases hfull : k = 0 ∨ twoPow (52 + k) * den ≤ num
  · rw [significantStep_eq hden hfull (h.lt_twoPow_mul hnormal hpos hden),
      h.roundHalfEven_eq hnormal hpos hden, ← hnormal.eq]
  · -- below a power of two the grid is twice as fine
    obtain ⟨hk, hbelow⟩ := not_or.1 hfull
    obtain ⟨hlow, -, -⟩ := h.mul_bounds hden
    obtain ⟨hgap, hm⟩ | ⟨j, rfl, rfl, hgap⟩ := hnormal.gapBelow_eq hpos
    · have hm : twoPow 52 + 1 ≤ m := hm.resolve_left hk
      have hmul := Nat.mul_le_mul_right (den * twoPow k) hm
      rw [hgap, hnormal.units_mul] at hlow
      rw [twoPow_add] at hbelow
      exact absurd (show num < num by nlinarith) (lt_irrefl num)
    · rw [show 52 + (j + 1) = 53 + j by omega, not_le] at hbelow
      have hstep : significantStep precision num den = twoPow j := by
        refine significantStep_eq hden (.inr ?_) hbelow
        have hfew : 1 ≤ twoPow 52 := twoPow_pos 52
        have hmul := Nat.mul_le_mul_right (den * twoPow j) hfew
        rw [hgap, hnormal.units_mul, twoPow_succ j] at hlow
        rw [twoPow_add]
        nlinarith
      rw [hstep, h.roundHalfEven_below hnormal hgap hden hbelow, hnormal.eq, twoPow_succ 52,
        twoPow_succ j]
      ring

/-! ### Decimals -/

/-- A decimal as a number of units. -/
def inUnits (c : ℕ) (e : ℤ) : ℚ := c * (10 : ℚ) ^ e * unitsPerOne

theorem tenPow_cast (n : ℕ) : ((tenPow n : ℕ) : ℚ) = 10 ^ n := by
  rw [tenPow, Nat.pow_eq, Nat.cast_pow, Nat.cast_ofNat]

theorem twoPow_cast (n : ℕ) : ((twoPow n : ℕ) : ℚ) = 2 ^ n := by
  rw [twoPow, Nat.pow_eq, Nat.cast_pow, Nat.cast_ofNat]

theorem unitsPerOne_cast_pos : (0 : ℚ) < unitsPerOne := Nat.cast_pos.2 unitsPerOne_pos

/-- A decimal with a natural exponent as a quotient. -/
theorem inUnits_of_nonneg (c : ℕ) (he : 0 ≤ e) :
    inUnits c e = (c * tenPow e.toNat * unitsPerOne : ℕ) / (1 : ℕ) := by
  obtain ⟨n, rfl⟩ := Int.eq_ofNat_of_zero_le he
  unfold inUnits tenPow
  generalize unitsPerOne = u
  simp

/-- A decimal with a negative exponent as a quotient. -/
theorem inUnits_of_neg (c : ℕ) (he : ¬0 ≤ e) :
    inUnits c e = (c * unitsPerOne : ℕ) / (tenPow (-e).toNat : ℕ) := by
  obtain ⟨n, rfl⟩ : ∃ n : ℕ, e = -(n : ℤ) := ⟨(-e).toNat, by omega⟩
  unfold inUnits tenPow
  generalize unitsPerOne = u
  simp only [neg_neg, Int.toNat_natCast, zpow_neg, zpow_natCast, Nat.cast_mul, Nat.pow_eq,
    Nat.cast_pow, Nat.cast_ofNat]
  rw [div_eq_mul_inv]
  ring

/-- The test for reading back is that for the interval. -/
theorem readsBack_iff (hunits : Representable units) (hpos : 0 < units) :
    readsBack units c e = true ↔ ReadsAs units (inUnits c e) := by
  obtain ⟨num, den, hden, hvalue, hread⟩ : ∃ num den : ℕ, 0 < den ∧ inUnits c e = num / den ∧
      readsBack units c e =
        if units / gapAbove units % 2 == 0 then
          decide ((2 * units - gapBelow units) * den ≤ 2 * num) &&
            decide (2 * num ≤ (2 * units + gapAbove units) * den)
        else
          decide ((2 * units - gapBelow units) * den < 2 * num) &&
            decide (2 * num < (2 * units + gapAbove units) * den) := by
    by_cases he : 0 ≤ e
    · exact ⟨_, 1, one_pos, inUnits_of_nonneg c he, by simp only [readsBack, if_pos he]⟩
    · exact ⟨_, _, tenPow_pos _, inUnits_of_neg c he, by simp only [readsBack, if_neg he]⟩
  have hden' : (0 : ℚ) < den := Nat.cast_pos.2 hden
  have hlow : ((2 * units - gapBelow units : ℕ) : ℚ) = 2 * units - gapBelow units := by
    rw [Nat.cast_sub ((gapBelow_le hunits hpos).trans (by omega))]
    push_cast
    ring
  have htwice : 2 * ((num : ℚ) / den) = (2 * num : ℕ) / den := by
    push_cast
    ring
  have hhigh : 2 * (units : ℚ) + gapAbove units = (2 * units + gapAbove units : ℕ) := by
    push_cast
    ring
  rw [hread, hvalue, ReadsAs, htwice, ← hlow, hhigh, le_div_iff₀ hden', div_le_iff₀ hden',
    lt_div_iff₀ hden', div_lt_iff₀ hden']
  norm_cast
  by_cases heven : units / gapAbove units % 2 = 0 <;> simp [heven]

/-! ### The decimal that is picked -/

/-- What is found on a grid lies in the interval. -/
theorem readsAs_of_onGrid? {d : Decimal} (hunits : Representable units) (hpos : 0 < units)
    (h : onGrid? units e = some d) : ReadsAs units (inUnits d.digits d.exponent) := by
  rw [← readsBack_iff hunits hpos]
  simp only [onGrid?] at h
  generalize (if 0 ≤ e then units else units * tenPow (-e).toNat) = num at h
  generalize (if 0 ≤ e then unitsPerOne * tenPow e.toNat else unitsPerOne) = den at h
  generalize (if roundHalfEven num den = num / den then num / den + 1 else num / den) = other at h
  split at h
  · rename_i hread
    obtain rfl := Option.some.inj h
    exact hread
  · split at h
    · rename_i hread
      obtain rfl := Option.some.inj h
      exact hread
    · cases h

/-- A magnitude as a quotient of the step of a grid. -/
theorem exists_onGrid?_eq (units : ℕ) (e : ℤ) : ∃ num den : ℕ, 0 < den ∧
    (units : ℚ) * den = num * ((10 : ℚ) ^ e * unitsPerOne) ∧
    (readsBack units (roundHalfEven num den) e = true →
      onGrid? units e = some ⟨roundHalfEven num den, e⟩) := by
  by_cases he : 0 ≤ e
  · refine ⟨units, unitsPerOne * tenPow e.toNat, Nat.mul_pos unitsPerOne_pos (tenPow_pos _), ?_,
      fun hread => by simp only [onGrid?, if_pos he, if_pos hread]⟩
    obtain ⟨n, rfl⟩ := Int.eq_ofNat_of_zero_le he
    unfold tenPow
    generalize unitsPerOne = u
    simp [mul_comm]
  · refine ⟨units * tenPow (-e).toNat, unitsPerOne, unitsPerOne_pos, ?_,
      fun hread => by simp only [onGrid?, if_neg he, if_pos hread]⟩
    obtain ⟨n, rfl⟩ : ∃ n : ℕ, e = -(n : ℤ) := ⟨(-e).toNat, by omega⟩
    unfold tenPow
    generalize unitsPerOne = u
    have hten : (10 : ℚ) ^ n ≠ 0 := pow_ne_zero _ (by norm_num)
    simp only [neg_neg, Int.toNat_natCast, zpow_neg, zpow_natCast, Nat.cast_mul, Nat.pow_eq,
      Nat.cast_pow, Nat.cast_ofNat]
    field_simp

/-- The rounded quotient is a point of the grid at most half a step from the magnitude. -/
theorem abs_inUnits_roundHalfEven_le (hden : 0 < den)
    (hvalue : (units : ℚ) * den = num * ((10 : ℚ) ^ e * unitsPerOne)) :
    2 * |inUnits (roundHalfEven num den) e - units| ≤ (10 : ℚ) ^ e * unitsPerOne := by
  have hden' : (0 : ℚ) < den := Nat.cast_pos.2 hden
  have hlow : 2 * ((roundHalfEven num den : ℚ) * den) ≤ 2 * num + den := by
    exact_mod_cast two_mul_roundHalfEven_le num den
  have hhigh : 2 * (num : ℚ) ≤ 2 * (roundHalfEven num den * den) + den := by
    exact_mod_cast two_mul_le_roundHalfEven hden
  have hstep : 0 < (10 : ℚ) ^ e * unitsPerOne :=
    mul_pos (zpow_pos (by norm_num) e) unitsPerOne_cast_pos
  rw [inUnits, mul_assoc]
  generalize (10 : ℚ) ^ e * unitsPerOne = step at *
  generalize (roundHalfEven num den : ℚ) = c at *
  rw [← abs_two, ← abs_mul, abs_le]
  constructor <;> refine le_of_mul_le_mul_right ?_ hden' <;> nlinarith

/-- A point of the grid that is nearest to the magnitude is found if it lies in the interval. -/
theorem exists_onGrid? (hunits : Representable units) (hpos : 0 < units)
    (h : ∀ c : ℕ, 2 * |inUnits c e - units| ≤ (10 : ℚ) ^ e * unitsPerOne →
      ReadsAs units (inUnits c e)) : ∃ d, onGrid? units e = some d := by
  obtain ⟨num, den, hden, hvalue, hgrid⟩ := exists_onGrid?_eq units e
  have hread : readsBack units (roundHalfEven num den) e = true :=
    (readsBack_iff hunits hpos).2 (h _ (abs_inUnits_roundHalfEven_le hden hvalue))
  exact ⟨_, hgrid hread⟩

/-- Eight is less than ten. -/
theorem twoPow_three_mul_le (n : ℕ) : twoPow (3 * n) ≤ tenPow n :=
  calc twoPow (3 * n) = (2 ^ 3) ^ n := Nat.pow_mul 2 3 n
    _ ≤ tenPow n := Nat.pow_le_pow_left (by decide) n

theorem unitsPerOne_le_tenPow : unitsPerOne ≤ tenPow 400 :=
  (twoPow_le_twoPow (by decide)).trans (twoPow_three_mul_le 400)

theorem tenPow_length_sub_one_le {n : ℕ} (hn : 0 < n) : tenPow (length n - 1) ≤ n := by
  obtain hone | hmore := Nat.lt_or_ge 0 (length n - 1)
  · by_contra hlt
    have hlength := (Nat.length_toDigits_le_iff (by decide) hone).2 (not_le.1 hlt)
    unfold length at hlength hone
    omega
  · rw [Nat.le_zero.1 hmore]
    exact hn

/-- The leading digit of a magnitude is not above it. -/
theorem tenPow_leadingExponent_le (hpos : 0 < units) :
    (10 : ℚ) ^ leadingExponent units * unitsPerOne ≤ units := by
  have hshift (n : ℕ) (hn : 0 < n) : (n : ℤ) - 401 = ((n - 1 : ℕ) : ℤ) - (400 : ℕ) := by omega
  obtain ⟨n, hn⟩ : ∃ n, units * tenPow 400 / unitsPerOne = n := ⟨_, rfl⟩
  have hnpos : 0 < n := by
    rw [← hn]
    exact Nat.div_pos (unitsPerOne_le_tenPow.trans (Nat.le_mul_of_pos_left _ hpos))
      unitsPerOne_pos
  have hlength : 0 < length n := List.length_pos_iff.2 Nat.toDigits_ne_nil
  have hle : tenPow (length n - 1) * unitsPerOne ≤ units * tenPow 400 :=
    calc tenPow (length n - 1) * unitsPerOne
        ≤ n * unitsPerOne := Nat.mul_le_mul_right _ (tenPow_length_sub_one_le hnpos)
      _ ≤ units * tenPow 400 := hn ▸ Nat.div_mul_le_self _ _
  have hcast : (10 : ℚ) ^ (length n - 1) * unitsPerOne ≤ units * 10 ^ 400 := by
    rw [← tenPow_cast, ← tenPow_cast, ← Nat.cast_mul, ← Nat.cast_mul]
    exact Nat.cast_le.2 hle
  have hexponent : leadingExponent units = ((length n - 1 : ℕ) : ℤ) - (400 : ℕ) := by
    rw [leadingExponent, hn, hshift _ hlength]
  rw [hexponent, zpow_sub₀ (by norm_num), zpow_natCast, zpow_natCast, div_mul_eq_mul_div]
  exact (div_le_iff₀ (by positivity)).2 hcast

/-- A magnitude is less than `10 ^ 16` times the gap below it. -/
theorem lt_gapBelow_mul (hunits : Representable units) (hpos : 0 < units) :
    units < gapBelow units * 10 ^ 16 := by
  obtain ⟨m, k, hnormal⟩ := exists_normal hunits
  have hm : m < 2 ^ 53 := hnormal.lt
  rw [hnormal.eq]
  obtain ⟨hbelow, -⟩ | ⟨j, rfl, rfl, hbelow⟩ := hnormal.gapBelow_eq hpos
  · rw [← hnormal.eq, hbelow, hnormal.eq, mul_comm]
    exact Nat.mul_lt_mul_of_pos_left (by omega) (twoPow_pos k)
  · rw [← hnormal.eq, hbelow, hnormal.eq, twoPow_succ j]
    have hj := twoPow_pos j
    have hfew : twoPow 52 * 2 < 10 ^ 16 := by decide
    nlinarith

/-- With seventeen digits, the points of the grid that are nearest lie in the interval. -/
theorem readsAs_of_seventeen (hunits : Representable units) (hpos : 0 < units)
    (h : 2 * |inUnits c (leadingExponent units - 16) - units| ≤
      (10 : ℚ) ^ (leadingExponent units - 16) * unitsPerOne) :
    ReadsAs units (inUnits c (leadingExponent units - 16)) := by
  have hstep : (10 : ℚ) ^ (leadingExponent units - 16) * unitsPerOne < gapBelow units := by
    have hlead := tenPow_leadingExponent_le hpos
    have hgap : (units : ℚ) < gapBelow units * 10 ^ 16 := by
      exact_mod_cast lt_gapBelow_mul hunits hpos
    rw [zpow_sub₀ (by norm_num), div_mul_eq_mul_div]
    exact (div_lt_iff₀ (by norm_num)).2 (hlead.trans_lt (mod_cast hgap))
  have hbelow : (gapBelow units : ℚ) ≤ gapAbove units := by
    exact_mod_cast gapBelow_le_gapAbove units
  obtain ⟨hlow, hhigh⟩ := abs_le.1 (le_refl |inUnits c (leadingExponent units - 16) - units|)
  refine readsAs_of_lt ?_ ?_ <;> linarith

theorem readsAs_search {fuel count : ℕ} (hunits : Representable units) (hpos : 0 < units)
    (hlow : count ≤ 17) (hhigh : 17 < count + fuel) :
    ReadsAs units (inUnits (search units fuel count).digits (search units fuel count).exponent) := by
  induction fuel generalizing count with
  | zero => omega
  | succ fuel ih =>
    rw [search]
    split
    · rename_i d hd
      exact readsAs_of_onGrid? hunits hpos hd
    · rename_i hnone
      obtain rfl | hless := Nat.eq_or_lt_of_le hlow
      · obtain ⟨d, hd⟩ := exists_onGrid? hunits hpos fun c => readsAs_of_seventeen hunits hpos
        rw [show leadingExponent units - (17 : ℕ) + 1 = leadingExponent units - 16 by omega, hd]
          at hnone
        cases hnone
      · exact ih hless (by omega)

/-- The decimal that is picked lies in the interval around the magnitude. -/
theorem readsAs_shortest (hunits : Representable units) (hpos : 0 < units) :
    ReadsAs units (inUnits (shortest units).digits (shortest units).exponent) := by
  rw [shortest, if_neg hpos.ne']
  exact readsAs_search hunits hpos (by decide) (by decide)

/-! ### Reading a decimal -/

/-- The interval around a magnitude ends before its double. -/
theorem ReadsAs.le_double (h : ReadsAs units x) (hunits : Representable units) (hpos : 0 < units) :
    x ≤ 2 * units := by
  have hgap : (gapAbove units : ℚ) ≤ units := by exact_mod_cast gapAbove_le hunits hpos
  linarith [h.bounds.2]

/-- The interval around a magnitude begins no earlier than at its half. -/
theorem ReadsAs.half_le (h : ReadsAs units x) (hunits : Representable units)
    (hpos : 0 < units) : (units : ℚ) ≤ 2 * x := by
  have hgap : (gapBelow units : ℚ) ≤ units := by exact_mod_cast gapBelow_le hunits hpos
  linarith [h.bounds.1]

theorem ReadsAs.pos (h : ReadsAs units (inUnits c e)) (hunits : Representable units)
    (hpos : 0 < units) : 0 < c := by
  refine Nat.pos_of_ne_zero ?_
  rintro rfl
  have hle := h.half_le hunits hpos
  have hpos' : (0 : ℚ) < units := Nat.cast_pos.2 hpos
  simp only [inUnits, Nat.cast_zero, zero_mul, mul_zero] at hle
  linarith

theorem two_mul_maxUnits_lt : 2 * maxUnits < tenPow 401 * unitsPerOne :=
  calc 2 * maxUnits = 2 * (twoPow 53 - 1) * twoPow 2045 := by rw [maxUnits, Nat.mul_assoc]
    _ < twoPow 54 * twoPow 2045 := Nat.mul_lt_mul_of_pos_right (by decide) (twoPow_pos _)
    _ = twoPow (54 + 2045) := (twoPow_add _ _).symm
    _ ≤ twoPow (3 * 401 + 1074) := twoPow_le_twoPow (by decide)
    _ = twoPow (3 * 401) * unitsPerOne := by rw [twoPow_add, unitsPerOne]
    _ ≤ tenPow 401 * unitsPerOne := Nat.mul_le_mul_right _ (twoPow_three_mul_le 401)

/-- A decimal of a double has no exponent that is too large to be computed. -/
theorem ReadsAs.exponent_le (h : ReadsAs units (inUnits c e)) (hunits : Representable units)
    (hpos : 0 < units) : e ≤ 400 := by
  by_contra hbig
  have hc : (1 : ℚ) ≤ c := by exact_mod_cast h.pos hunits hpos
  have hten : (10 : ℚ) ^ 401 ≤ 10 ^ e := by
    rw [← zpow_natCast]
    exact zpow_le_zpow_right₀ (by norm_num) (by push_cast; omega)
  have hmax : 2 * (units : ℚ) < 10 ^ 401 * unitsPerOne := by
    have hlt := (Nat.mul_le_mul_left 2 hunits.1).trans_lt two_mul_maxUnits_lt
    rw [← tenPow_cast, ← Nat.cast_ofNat, ← Nat.cast_mul, ← Nat.cast_mul]
    exact Nat.cast_lt.2 hlt
  have hle : (10 : ℚ) ^ 401 * unitsPerOne ≤ inUnits c e :=
    mul_le_mul_of_nonneg_right (hten.trans (le_mul_of_one_le_left (by positivity) hc))
      unitsPerOne_cast_pos.le
  exact absurd (hle.trans (h.le_double hunits hpos)) (not_le.2 hmax)

/-- A decimal of a double is not too small to be computed. -/
theorem ReadsAs.le_exponent_add (h : ReadsAs units (inUnits c e)) (hunits : Representable units)
    (hpos : 0 < units) : -400 ≤ e + (c.log2 : ℤ) := by
  by_contra hsmall
  obtain ⟨n, hn⟩ : ∃ n, c.log2 = n := ⟨_, rfl⟩
  rw [hn] at hsmall
  have hc : (c : ℚ) ≤ 2 ^ (n + 1) := by
    have hlt : c < 2 ^ (n + 1) := hn ▸ Nat.lt_log2_self
    exact_mod_cast hlt.le
  have hten : (10 : ℚ) ^ e ≤ (10 ^ (401 + n))⁻¹ := by
    rw [← zpow_natCast, ← zpow_neg]
    exact zpow_le_zpow_right₀ (by norm_num) (by push_cast; omega)
  have hone : (1 : ℚ) ≤ 2 * inUnits c e :=
    le_trans (by exact_mod_cast hpos) (h.half_le hunits hpos)
  have hle : (10 : ℚ) ^ (401 + n) ≤ 2 * 2 ^ (n + 1) * unitsPerOne := by
    have hbound : inUnits c e ≤ 2 ^ (n + 1) * (10 ^ (401 + n))⁻¹ * unitsPerOne :=
      mul_le_mul_of_nonneg_right (mul_le_mul hc hten (by positivity) (by positivity))
        unitsPerOne_cast_pos.le
    have hpow : (0 : ℚ) < 10 ^ (401 + n) := by positivity
    have hdiv : (1 : ℚ) ≤ 2 * 2 ^ (n + 1) * unitsPerOne / 10 ^ (401 + n) := by
      refine (hone.trans (mul_le_mul_of_nonneg_left hbound zero_le_two)).trans_eq ?_
      generalize (10 : ℚ) ^ (401 + n) = power
      rw [div_eq_mul_inv]
      ring
    rwa [le_div_iff₀ hpow, one_mul] at hdiv
  have hnat : tenPow (401 + n) ≤ twoPow (1 + (n + 1) + 1074) := by
    rw [twoPow_add, ← unitsPerOne, twoPow_add]
    refine (Nat.cast_le (α := ℚ)).1 ?_
    rw [Nat.cast_mul, Nat.cast_mul, tenPow_cast, twoPow_cast 1, twoPow_cast (n + 1), pow_one]
    exact hle
  have hpow := (twoPow_three_mul_le (401 + n)).trans hnat
  have := (Nat.pow_le_pow_iff_right (by decide)).1 hpow
  omega

/-- A decimal in the interval around a magnitude is read as the double of that magnitude. -/
theorem ReadsAs.ofDecimal (h : ReadsAs units (inUnits c e)) (hunits : Representable units)
    (hpos : 0 < units) (negative : Bool) :
    Binary64.ofDecimal negative c e = .finite negative units := by
  have hratio (num den : ℕ) (hden : 0 < den) (hvalue : inUnits c e = num / den) :
      ofUnitsRatio negative num den = .finite negative units := by
    have hread : ReadsAs units (num / den) := hvalue ▸ h
    rw [ofUnitsRatio, hread.roundSignificant hunits hpos hden, if_pos hunits.1]
  rw [Binary64.ofDecimal, if_neg (h.pos hunits hpos).ne',
    if_neg (not_lt.2 (h.exponent_le hunits hpos)),
    if_neg (not_lt.2 (h.le_exponent_add hunits hpos))]
  split
  · rename_i he
    exact hratio _ 1 one_pos (inUnits_of_nonneg c he)
  · rename_i he
    exact hratio _ _ (tenPow_pos _) (inUnits_of_neg c he)

/-- Zeros at the end of the digits of a decimal are made up for by its exponent. -/
theorem inUnits_mul_tenPow (c j : ℕ) (e : ℤ) : inUnits (c * tenPow j) (e - j) = inUnits c e := by
  rw [inUnits, inUnits, Nat.cast_mul, tenPow_cast, mul_assoc (c : ℚ), ← zpow_natCast,
    ← zpow_add₀ (by norm_num), add_sub_cancel]

/-- The decimal that is picked for a double, with any number of zeros after it, is read as that
double. -/
theorem ofDecimal_shortest (hunits : Representable units) (negative : Bool) (j : ℕ) :
    Binary64.ofDecimal negative ((shortest units).digits * tenPow j)
      ((shortest units).exponent - j) = .finite negative units := by
  obtain rfl | hpos := Nat.eq_zero_or_pos units
  · simp [shortest, Binary64.ofDecimal]
  · have hread := readsAs_shortest hunits hpos
    rw [← inUnits_mul_tenPow _ j] at hread
    exact hread.ofDecimal hunits hpos negative

end Decimal

end QueryPlan
