import Mathlib
import QueryPlan.Number.Binary64
import QueryPlan.Proofs.Number.Rounding

/-!
# Quotients of whole numbers as doubles

Whole numbers up to `2 ^ 53` are doubles. A quotient of two of them is rounded by less than one part
of the divisor, since the gap of doubles around it is that narrow. A quotient that is not a whole
number is at least that far away from all whole numbers, so rounding never takes it to one of them,
and the whole numbers below it stay below it.

## Main definitions

* `quotientUnits` : the double nearest to a quotient of whole numbers, in units.
* `gapAround` : the gap of doubles around a quotient, in units.

## Main results

* `roundSignificant_whole` : whole numbers up to `2 ^ 53` are kept.
* `quotientUnits_near` : how far a quotient is rounded.
* `mul_lt_quotientUnits`, `quotientUnits_lt_mul`, `quotientUnits_le_mul` : a rounded quotient and
  whole numbers.
* `le_quotientUnits_iff`, `lt_quotientUnits_iff` : a rounded quotient and the points of its grid, of
  which it is never halfway between two.
* `roundSignificant_le_whole_iff` : when a fraction beside a whole number is lost.
-/

namespace QueryPlan

open Binary64

variable {n d m a : ℕ} {c : ℤ}

/-- The double nearest to the quotient of two whole numbers, in units. -/
def quotientUnits (n d : ℕ) : ℕ := roundSignificant precision (n * unitsPerOne) d

/-- The gap of doubles around the quotient of two whole numbers, in units. -/
def gapAround (n d : ℕ) : ℕ := significantStep precision (n * unitsPerOne) d

theorem gapAround_pos (n d : ℕ) : 0 < gapAround n d := twoPow_pos _

/-- A quotient is rounded by at most half of the gap around it. -/
theorem quotientUnits_mul_bounds (hd : 0 < d) :
    2 * (quotientUnits n d * d) ≤ 2 * (n * unitsPerOne) + d * gapAround n d ∧
      2 * (n * unitsPerOne) ≤ 2 * (quotientUnits n d * d) + d * gapAround n d := by
  have hstep := Nat.mul_pos hd (gapAround_pos n d)
  have hmul : quotientUnits n d * d =
      roundHalfEven (n * unitsPerOne) (d * gapAround n d) * (d * gapAround n d) := by
    unfold quotientUnits roundSignificant gapAround
    ring
  rw [hmul]
  exact ⟨two_mul_roundHalfEven_le _ _, two_mul_le_roundHalfEven hstep⟩

/-- Whole numbers up to `2 ^ 53`, times a power of two, are kept. -/
theorem roundSignificant_whole (hn : n ≤ twoPow 53) (k : ℕ) :
    roundSignificant precision (n * twoPow k) 1 = n * twoPow k := by
  obtain rfl | hpos := Nat.eq_zero_or_pos n
  · rw [Nat.zero_mul, roundSignificant_zero]
  have hne : n * twoPow k ≠ 0 := (Nat.mul_pos hpos (twoPow_pos k)).ne'
  have hdvd : 1 * significantStep precision (n * twoPow k) 1 ∣ n * twoPow k := by
    rw [Nat.one_mul, significantStep, Nat.div_one, precision]
    obtain hlt | rfl := hn.lt_or_eq
    · have hlog : (n * twoPow k).log2 < 53 + k := by
        rw [Nat.log2_lt hne]
        calc n * twoPow k < twoPow 53 * twoPow k := Nat.mul_lt_mul_of_pos_right hlt (twoPow_pos k)
          _ = twoPow (53 + k) := (twoPow_add 53 k).symm
      exact (Nat.pow_dvd_pow 2 (by omega)).mul_left n
    · rw [← twoPow_add]
      have hlog : (twoPow (53 + k)).log2 = 53 + k := Nat.log2_two_pow
      rw [hlog]
      exact Nat.pow_dvd_pow 2 (by omega)
  simpa only [Nat.mul_one] using roundSignificant_mul one_pos hdvd

theorem quotientUnits_one (hn : n ≤ twoPow 53) : quotientUnits n 1 = n * unitsPerOne :=
  roundSignificant_whole hn 1074

/-- A quotient that is a whole number is kept. -/
theorem quotientUnits_mul (hm : m ≤ twoPow 53) (hd : 0 < d) :
    quotientUnits (m * d) d = m * unitsPerOne := by
  rw [← quotientUnits_one hm]
  exact roundSignificant_congr (by decide) hd one_pos (by ring)

theorem twoPow_mul_le_unitsPerOne (hd : d ≤ twoPow 53) : twoPow 52 * d ≤ unitsPerOne :=
  calc twoPow 52 * d ≤ twoPow 52 * twoPow 53 := Nat.mul_le_mul_left _ hd
    _ = twoPow 105 := (twoPow_add 52 53).symm
    _ ≤ unitsPerOne := twoPow_le_twoPow (by decide)

/-- The gap around a quotient is 53 bits narrower than the power of two below the quotient. -/
theorem twoPow_mul_gapAround_le (hn : 0 < n) (hpos : 0 < d) (hd : d ≤ twoPow 53) :
    twoPow 52 * (d * gapAround n d) ≤ n * unitsPerOne := by
  have hwide : twoPow 52 ≤ n * unitsPerOne / d := by
    rw [Nat.le_div_iff_mul_le hpos]
    exact (twoPow_mul_le_unitsPerOne hd).trans (Nat.le_mul_of_pos_left _ hn)
  have hne : n * unitsPerOne / d ≠ 0 := ((twoPow_pos 52).trans_le hwide).ne'
  have hlog : 52 ≤ (n * unitsPerOne / d).log2 := (Nat.le_log2 hne).2 hwide
  have hgap : twoPow 52 * gapAround n d = twoPow (n * unitsPerOne / d).log2 := by
    rw [gapAround, significantStep, precision, ← twoPow_add]
    congr 1
    omega
  calc twoPow 52 * (d * gapAround n d) = twoPow 52 * gapAround n d * d := by ring
    _ = twoPow (n * unitsPerOne / d).log2 * d := by rw [hgap]
    _ ≤ n * unitsPerOne / d * d := Nat.mul_le_mul_right d (Nat.log2_self_le hne)
    _ ≤ n * unitsPerOne := Nat.div_mul_le_self _ _

/-- Around a quotient of whole numbers up to `2 ^ 53` that is not kept, the gap of doubles is less
than two parts of the divisor. -/
theorem gapAround_lt (hn : n ≤ twoPow 53) (hpos : 0 < d) (hd : d ≤ twoPow 53) :
    d * gapAround n d < 2 * unitsPerOne ∨ quotientUnits n d * d = n * unitsPerOne := by
  obtain rfl | hn0 := Nat.eq_zero_or_pos n
  · right
    rw [quotientUnits, Nat.zero_mul, roundSignificant_zero, Nat.zero_mul]
  have hgap := twoPow_mul_gapAround_le hn0 hpos hd
  have hwhole : n * unitsPerOne ≤ twoPow 52 * (2 * unitsPerOne) := by
    rw [← Nat.mul_assoc, ← twoPow_succ]
    exact Nat.mul_le_mul_right _ hn
  have hle := Nat.le_of_mul_le_mul_left (hgap.trans hwhole) (twoPow_pos 52)
  refine hle.lt_or_eq.imp_right fun heq => ?_
  -- The gap is as wide as that only around a power of two.
  refine roundSignificant_mul hpos ⟨twoPow 52, ?_⟩
  change _ = d * gapAround n d * _
  rw [heq] at hgap ⊢
  rw [Nat.mul_comm (2 * unitsPerOne)]
  exact hwhole.antisymm hgap

/-- A quotient of whole numbers up to `2 ^ 53` is rounded by less than one part of the divisor. -/
theorem quotientUnits_near (hn : n ≤ twoPow 53) (hpos : 0 < d) (hd : d ≤ twoPow 53) :
    quotientUnits n d * d < n * unitsPerOne + unitsPerOne ∧
      n * unitsPerOne < quotientUnits n d * d + unitsPerOne := by
  have hunits := unitsPerOne_pos
  have hbounds := quotientUnits_mul_bounds (n := n) hpos
  obtain hgap | hexact := gapAround_lt hn hpos hd <;> omega

section Whole

variable (hn : n ≤ twoPow 53) (hpos : 0 < d) (hd : d ≤ twoPow 53)

include hn hpos hd

/-- A whole number below a quotient stays below it. -/
theorem mul_lt_quotientUnits (h : c * d < n) : c * unitsPerOne < quotientUnits n d := by
  have hnear : (n * unitsPerOne : ℤ) < quotientUnits n d * d + unitsPerOne := by
    exact_mod_cast (quotientUnits_near hn hpos hd).2
  have hnext : (c * d + 1) * unitsPerOne ≤ (n : ℤ) * unitsPerOne :=
    mul_le_mul_of_nonneg_right h (Int.natCast_nonneg _)
  refine lt_of_mul_lt_mul_right (a := (d : ℤ)) ?_ (Int.natCast_nonneg d)
  linarith

/-- A whole number above a quotient stays above it. -/
theorem quotientUnits_lt_mul (h : n < c * d) : quotientUnits n d < c * unitsPerOne := by
  have hnear : (quotientUnits n d * d : ℤ) < n * unitsPerOne + unitsPerOne := by
    exact_mod_cast (quotientUnits_near hn hpos hd).1
  have hnext : ((n : ℤ) + 1) * unitsPerOne ≤ c * d * unitsPerOne :=
    mul_le_mul_of_nonneg_right h (Int.natCast_nonneg _)
  refine lt_of_mul_lt_mul_right (a := (d : ℤ)) ?_ (Int.natCast_nonneg d)
  linarith

/-- A whole number that is not below a quotient is not below the rounded one. -/
theorem quotientUnits_le_mul (h : n ≤ c * d) : quotientUnits n d ≤ c * unitsPerOne := by
  obtain hlt | heq := h.lt_or_eq
  · exact (quotientUnits_lt_mul hn hpos hd hlt).le
  · have hc : 0 ≤ c := nonneg_of_mul_nonneg_left (heq ▸ Int.natCast_nonneg n) (by omega)
    obtain ⟨m, rfl⟩ := Int.eq_ofNat_of_zero_le hc
    obtain rfl : n = m * d := by exact_mod_cast heq
    have hm : m ≤ twoPow 53 := (Nat.le_mul_of_pos_right m hpos).trans hn
    exact_mod_cast (quotientUnits_mul hm hpos).le

/-- A quotient of whole numbers is not larger than the numerator. -/
theorem quotientUnits_le : quotientUnits n d ≤ n * unitsPerOne := by
  have hle : (n : ℤ) ≤ n * d := by exact_mod_cast Nat.le_mul_of_pos_right n hpos
  exact_mod_cast quotientUnits_le_mul hn hpos hd hle

end Whole

/-! ### The grid around a quotient -/

section Grid

variable {g y : ℕ}

theorem unitsPerOne_eq_twoPow : unitsPerOne = twoPow 1074 := rfl

theorem twoPow_dvd_twoPow {k l : ℕ} (h : k ≤ l) : twoPow k ∣ twoPow l := Nat.pow_dvd_pow 2 h

theorem log2_lt_of_lt_twoPow {k : ℕ} (ha : a ≠ 0) (h : a < twoPow k) : a.log2 < k :=
  (Nat.log2_lt ha).2 h

/-- What has a whole part has as many bits as this part, besides those of the fraction. -/
theorem log2_of_whole (hm : 0 < m) (hlow : m * unitsPerOne ≤ a)
    (hhigh : a < (m + 1) * unitsPerOne) : a.log2 = m.log2 + 1074 := by
  have ha : a ≠ 0 := ((Nat.mul_pos hm unitsPerOne_pos).trans_le hlow).ne'
  rw [unitsPerOne_eq_twoPow] at hlow hhigh
  refine (Nat.log2_eq_iff ha).2 ⟨?_, ?_⟩
  · calc twoPow (m.log2 + 1074) = twoPow m.log2 * twoPow 1074 := twoPow_add _ _
      _ ≤ m * twoPow 1074 := Nat.mul_le_mul_right _ (Nat.log2_self_le hm.ne')
      _ ≤ a := hlow
  · calc a < (m + 1) * twoPow 1074 := hhigh
      _ ≤ twoPow (m.log2 + 1) * twoPow 1074 := Nat.mul_le_mul_right _ Nat.lt_log2_self
      _ = twoPow (m.log2 + 1074 + 1) := by rw [← twoPow_add, Nat.add_right_comm]

/-- The gap around a quotient that is at least one depends on its whole part alone. -/
theorem gapAround_eq (hpos : 0 < d) (hm : 0 < n / d) :
    gapAround n d = twoPow ((n / d).log2 + 1022) := by
  have hlow : n / d * unitsPerOne ≤ n * unitsPerOne / d := by
    rw [Nat.le_div_iff_mul_le hpos]
    calc n / d * unitsPerOne * d = n / d * d * unitsPerOne := by ring
      _ ≤ n * unitsPerOne := Nat.mul_le_mul_right _ (Nat.div_mul_le_self n d)
  have hhigh : n * unitsPerOne / d < (n / d + 1) * unitsPerOne := by
    rw [Nat.div_lt_iff_lt_mul hpos]
    calc n * unitsPerOne < d * (n / d + 1) * unitsPerOne :=
          Nat.mul_lt_mul_of_pos_right (Nat.lt_mul_div_succ n hpos) unitsPerOne_pos
      _ = (n / d + 1) * unitsPerOne * d := by ring
  rw [gapAround, significantStep, precision, log2_of_whole hm hlow hhigh]
  congr 1

/-- The gap around a quotient below one. -/
theorem gapAround_dvd_of_lt (hpos : 0 < d) (h : n < d) : gapAround n d ∣ twoPow 1021 := by
  have hlt : n * unitsPerOne / d < twoPow 1074 := by
    rw [Nat.div_lt_iff_lt_mul hpos, ← unitsPerOne_eq_twoPow, Nat.mul_comm unitsPerOne]
    exact Nat.mul_lt_mul_of_pos_right h unitsPerOne_pos
  refine twoPow_dvd_twoPow ?_
  obtain h0 | hne := eq_or_ne (n * unitsPerOne / d) 0
  · rw [h0, precision]
    simp
  · have hlog := log2_lt_of_lt_twoPow hne hlt
    rw [precision]
    omega

/-- One is a whole number of the gaps around a quotient with a whole part of up to 53 bits. -/
theorem gapAround_dvd (hpos : 0 < d) (h : n / d < twoPow 53) : gapAround n d ∣ unitsPerOne := by
  rw [unitsPerOne_eq_twoPow]
  obtain h0 | hm := Nat.eq_zero_or_pos (n / d)
  · exact (gapAround_dvd_of_lt hpos ((Nat.div_eq_zero_iff_lt hpos).1 h0)).trans
      (twoPow_dvd_twoPow (by decide))
  · have hlog := log2_lt_of_lt_twoPow hm.ne' h
    rw [gapAround_eq hpos hm]
    exact twoPow_dvd_twoPow (by omega)

@[simp] theorem gapAround_zero (d : ℕ) : gapAround 0 d = 1 := by
  rw [gapAround, significantStep, Nat.zero_mul, Nat.zero_div]
  rfl

/-- A quotient of whole numbers up to `2 ^ 53` is never halfway between two doubles: the odd number
of half gaps would divide the numerator, but has too many bits. -/
theorem quotient_not_halfway (hn0 : 0 < n) (hn : n ≤ twoPow 53) (hpos : 0 < d)
    (hd : d ≤ twoPow 53) (k : ℕ) :
    2 * (k * (d * gapAround n d)) ≠ 2 * (n * unitsPerOne) + d * gapAround n d := by
  intro heq
  have hnarrow := twoPow_mul_gapAround_le hn0 hpos hd
  have hstep := Nat.mul_pos hpos (gapAround_pos n d)
  generalize d * gapAround n d = step at *
  have heven : twoPow 53 = twoPow 52 * 2 := twoPow_succ 52
  have hodd : (2 * k - 1) * step = n * unitsPerOne * 2 := by
    rw [Nat.sub_mul, Nat.mul_assoc]
    omega
  have hk : 0 < k := by
    refine Nat.pos_of_ne_zero fun h => ?_
    rw [h] at heq
    omega
  have hcoprime (l : ℕ) : Nat.Coprime (2 * k - 1) (twoPow l) := by
    refine Nat.Coprime.pow_right l (Nat.coprime_two_right.2 ?_)
    exact Nat.Even.sub_odd (by omega) (even_two_mul k) odd_one
  have hdvd : 2 * k - 1 ∣ n := by
    refine (hcoprime (1074 + 1)).dvd_of_dvd_mul_right ⟨step, ?_⟩
    rw [hodd, twoPow_succ, unitsPerOne_eq_twoPow, Nat.mul_assoc]
  have hwide : twoPow 53 ≤ 2 * k - 1 := by
    refine Nat.le_of_mul_le_mul_right ?_ hstep
    rw [hodd, heven, Nat.mul_right_comm]
    exact Nat.mul_le_mul_right 2 hnarrow
  have hle := Nat.le_of_dvd hn0 hdvd
  omega

/-- Which points of its grid a quotient reaches when it is rounded. -/
theorem le_quotientUnits_iff (hn0 : 0 < n) (hn : n ≤ twoPow 53) (hpos : 0 < d)
    (hd : d ≤ twoPow 53) (hy : gapAround n d ∣ y) :
    y ≤ quotientUnits n d ↔ 2 * (y * d) < 2 * (n * unitsPerOne) + d * gapAround n d := by
  obtain ⟨k, rfl⟩ := hy
  have hgap := gapAround_pos n d
  have hround : gapAround n d * k ≤ quotientUnits n d ↔
      k ≤ roundHalfEven (n * unitsPerOne) (d * gapAround n d) := by
    rw [Nat.mul_comm]
    exact Nat.mul_le_mul_right_iff hgap
  have hhalfway := quotient_not_halfway hn0 hn hpos hd k
  have hmul : gapAround n d * k * d = k * (d * gapAround n d) := by ring
  rw [hround, le_roundHalfEven_iff (Nat.mul_pos hpos hgap), hmul]
  exact or_iff_left fun h => hhalfway h.1

/-- Which points of its grid a quotient passes when it is rounded. -/
theorem lt_quotientUnits_iff (hn0 : 0 < n) (hn : n ≤ twoPow 53) (hpos : 0 < d)
    (hd : d ≤ twoPow 53) (hy : gapAround n d ∣ y) :
    y < quotientUnits n d ↔ 2 * (y * d) + d * gapAround n d < 2 * (n * unitsPerOne) := by
  have hnext : y < quotientUnits n d ↔ y + gapAround n d ≤ quotientUnits n d := by
    have hgrid : gapAround n d ∣ quotientUnits n d := Dvd.intro_left _ rfl
    have hgap := gapAround_pos n d
    refine ⟨fun h => ?_, fun h => by omega⟩
    have hle := Nat.le_of_dvd (Nat.sub_pos_of_lt h) (Nat.dvd_sub hgrid hy)
    omega
  rw [hnext, le_quotientUnits_iff hn0 hn hpos hd (hy.add dvd_rfl), add_mul,
    Nat.mul_comm (gapAround n d)]
  omega

/-- What exceeds a whole number by a fraction is rounded to it, to the next one or in between. -/
theorem roundSignificant_between (hn : n < twoPow 53) (hg : g ≤ unitsPerOne) :
    n * unitsPerOne ≤ roundSignificant precision (n * unitsPerOne + g) 1 ∧
      roundSignificant precision (n * unitsPerOne + g) 1 ≤ (n + 1) * unitsPerOne := by
  constructor
  · calc n * unitsPerOne = roundSignificant precision (n * unitsPerOne) 1 :=
          (quotientUnits_one hn.le).symm
      _ ≤ roundSignificant precision (n * unitsPerOne + g) 1 :=
          roundSignificant_mono (by decide) one_pos one_pos
            (Nat.mul_le_mul_right 1 (Nat.le_add_right _ g))
  · calc roundSignificant precision (n * unitsPerOne + g) 1
        ≤ roundSignificant precision ((n + 1) * unitsPerOne) 1 := by
          refine roundSignificant_mono (by decide) one_pos one_pos (Nat.mul_le_mul_right 1 ?_)
          rw [add_one_mul]
          exact Nat.add_le_add_left hg _
      _ = (n + 1) * unitsPerOne := quotientUnits_one hn

/-- What exceeds a whole number by a fraction is rounded to that number if the fraction is less than
half of the gap around it, or just half of it and the number is an even point of its grid. -/
theorem roundSignificant_le_whole_iff (hn : n < twoPow 53) (hg0 : 0 < g) (hg : g < unitsPerOne) :
    roundSignificant precision (n * unitsPerOne + g) 1 ≤ n * unitsPerOne ↔
      2 * g < gapAround n 1 ∨ 2 * g = gapAround n 1 ∧ n * unitsPerOne / gapAround n 1 % 2 = 0 := by
  obtain rfl | hpos := Nat.eq_zero_or_pos n
  · have hround : twoPow g.log2 ≤ roundSignificant precision g 1 :=
      twoPow_le_roundSignificant one_pos
        (by rw [droppedBits, Nat.div_one, precision]; omega)
        (by rw [Nat.mul_one]; exact Nat.log2_self_le hg0.ne')
    have hbelow := twoPow_pos g.log2
    rw [gapAround_zero, Nat.zero_mul, Nat.zero_add]
    omega
  · have hstep : significantStep precision (n * unitsPerOne + g) 1 = gapAround n 1 := by
      have hlog := log2_of_whole hpos (Nat.le_add_right (n * unitsPerOne) g)
        (by rw [add_one_mul]; exact Nat.add_lt_add_left hg _)
      have hlog' := log2_of_whole hpos le_rfl
        (Nat.mul_lt_mul_of_pos_right (Nat.lt_succ_self n) unitsPerOne_pos)
      rw [gapAround, significantStep, significantStep, Nat.div_one, Nat.div_one, hlog, hlog']
    have hgap := gapAround_pos n 1
    have hgrid : gapAround n 1 ∣ n * unitsPerOne :=
      (gapAround_dvd one_pos (by rwa [Nat.div_one])).mul_left n
    rw [roundSignificant, hstep, Nat.one_mul]
    generalize gapAround n 1 = gap at *
    generalize n * unitsPerOne = whole at *
    obtain ⟨k, rfl⟩ := hgrid
    rw [Nat.mul_div_cancel_left k hgap, Nat.mul_comm gap k, Nat.mul_le_mul_right_iff hgap,
      ← Nat.lt_succ_iff, ← not_le, Nat.succ_eq_add_one, le_roundHalfEven_iff hgap, add_one_mul]
    omega

end Grid

end QueryPlan
