import Mathlib
import QueryPlan.Proofs.Estimate.Resources

/-!
# Cardinalities and powers of two

A selection keeps no more tuples than it is given, and a join no more than there are pairs. The
doubles that they compute with are rounded, so that one may well end above its exact value; but it
never passes a power of two in doing so. Bounds on numbers of tuples are therefore carried as
numbers of bits.

## Main definitions

* `Binary64.WithinBits` : a double is not above a power of two.

## Main results

* `roundSignificant_le_units` : rounding does not pass a power of two.
* `selectedTuples_le` : a selection keeps no more than the power of two above its input.
* `Condition.Match.le` : a join puts out no more than the product of those above its inputs.
-/

namespace QueryPlan

open Binary64

variable {a b bits num den u v : ℕ} {n tuples distinct kept : ℤ} {x y pairs pairs' : Binary64}

/-- Rounding a number of units does not pass a power of two. -/
theorem roundSignificant_le_units (hden : 0 < den) (h : num ≤ twoPow bits * unitsPerOne * den) :
    roundSignificant precision num den ≤ twoPow bits * unitsPerOne := by
  have hunits : twoPow bits * unitsPerOne = twoPow (bits + 1074) := (twoPow_add _ _).symm
  rw [hunits] at h ⊢
  refine roundSignificant_le_twoPow hden ?_ h
  have hquotient : num / den ≤ 2 ^ (bits + 1074) := Nat.div_le_of_le_mul (Nat.mul_comm _ _ ▸ h)
  have hlog : (num / den).log2 ≤ bits + 1074 := by
    rw [Nat.log2_eq_log_two]
    exact (Nat.log_mono_right hquotient).trans_eq (Nat.log_pow one_lt_two _)
  unfold droppedBits precision
  omega

/-- A power of two is on the grid that it is rounded to. -/
theorem twoPow_le_roundSignificant_self (k : ℕ) :
    twoPow k ≤ roundSignificant precision (twoPow k) 1 := by
  refine twoPow_le_roundSignificant one_pos ?_ (Nat.mul_one _).le
  have hlog : (twoPow k / 1).log2 = k := by
    rw [Nat.div_one, Nat.log2_eq_log_two]
    exact Nat.log_pow one_lt_two k
  rw [droppedBits, hlog, precision]
  omega

/-- At least one whole is rounded to at least one whole. -/
theorem unitsPerOne_le_roundSignificant (h : unitsPerOne ≤ num) :
    unitsPerOne ≤ roundSignificant precision num 1 :=
  calc unitsPerOne ≤ roundSignificant precision unitsPerOne 1 :=
        twoPow_le_roundSignificant_self _
    _ ≤ roundSignificant precision num 1 :=
        roundSignificant_mono (by decide) one_pos one_pos (Nat.mul_le_mul_right 1 h)

namespace Binary64

/-- A double is at most the power of two with the given number of bits, whatever its sign. Of what
is not finite nothing is asked, since no number of tuples is made of it. -/
def WithinBits (bits : ℕ) : Binary64 → Prop
  | finite _ units => units ≤ twoPow bits * unitsPerOne
  | infinite _ | notNumber => True

theorem withinBits_ofUnitsRatio {negative : Bool} (hden : 0 < den)
    (h : num ≤ twoPow bits * unitsPerOne * den) :
    (ofUnitsRatio negative num den).WithinBits bits := by
  unfold ofUnitsRatio
  dsimp only
  split
  · exact roundSignificant_le_units hden h
  · trivial

theorem withinBits_half : half.WithinBits 0 := by
  change twoPow 1073 ≤ twoPow 0 * unitsPerOne
  rw [twoPow_zero, Nat.one_mul]
  exact twoPow_le_twoPow (Nat.le_succ _)

theorem WithinBits.mul (hx : x.WithinBits a) (hy : y.WithinBits b) :
    (x.mul y).WithinBits (a + b) := by
  cases x with
  | finite s u =>
    cases y with
    | finite t v =>
      refine withinBits_ofUnitsRatio unitsPerOne_pos ?_
      calc u * v ≤ twoPow a * unitsPerOne * (twoPow b * unitsPerOne) := Nat.mul_le_mul hx hy
        _ = twoPow (a + b) * unitsPerOne * unitsPerOne := by rw [twoPow_add]; ring
    | infinite t => by_cases hu : u = 0 <;> simp [Binary64.mul, WithinBits, hu]
    | notNumber => trivial
  | infinite s =>
    cases y with
    | finite t v => by_cases hv : v = 0 <;> simp [Binary64.mul, WithinBits, hv]
    | infinite t | notNumber => trivial
  | notNumber => trivial

/-- A quotient by at least one whole is not above the dividend. -/
theorem WithinBits.div (hx : x.WithinBits bits) {negative : Bool} (hv : unitsPerOne ≤ v) :
    (x.div (finite negative v)).WithinBits bits := by
  have hpos : 0 < v := unitsPerOne_pos.trans_le hv
  cases x with
  | finite s u =>
    rw [Binary64.div, if_neg hpos.ne']
    refine withinBits_ofUnitsRatio hpos ?_
    calc u * unitsPerOne ≤ twoPow bits * unitsPerOne * v := Nat.mul_le_mul hx hv
  | infinite s | notNumber => trivial

/-- A difference of numbers without a sign is not above both of them. -/
theorem withinBits_sub (hu : u ≤ twoPow bits * unitsPerOne) (hv : v ≤ twoPow bits * unitsPerOne) :
    ((finite false u).sub (finite false v)).WithinBits bits := by
  have hsigned : (signed false u - signed false v).natAbs ≤ twoPow bits * unitsPerOne := by
    simp only [signed, Bool.false_eq_true, ↓reduceIte]
    omega
  unfold Binary64.sub
  dsimp only
  split
  · exact Nat.zero_le _
  · exact withinBits_ofUnitsRatio one_pos (by rwa [Nat.mul_one])

theorem WithinBits.ceil_le (hx : x.WithinBits bits) (h : x.ceil = .ok n) : n ≤ twoPow bits := by
  cases x with
  | finite s u =>
    obtain rfl := Except.ok.inj h
    have hu : (u : ℤ) ≤ twoPow bits * unitsPerOne := by exact_mod_cast hx
    have hsigned : signed s u ≤ u := by
      unfold signed
      split <;> omega
    have hunits : (0 : ℤ) < unitsPerOne := by exact_mod_cast unitsPerOne_pos
    have hdiv : -(twoPow bits : ℤ) ≤ -signed s u / unitsPerOne := by
      rw [Int.le_ediv_iff_mul_le hunits, neg_mul, neg_le_neg_iff]
      exact hsigned.trans hu
    omega
  | infinite s => cases h
  | notNumber => cases h

end Binary64

/-! ### The numbers of a pass -/

/-- A number of tuples as a double: without a sign, and within its bits. -/
theorem exists_units_of_toReal (hn : 0 ≤ n) (hbits : n ≤ twoPow bits) (h : toReal n = .ok x) :
    ∃ units, x = finite false units ∧ units ≤ twoPow bits * unitsPerOne := by
  refine ⟨_, eq_finite_of_ofInt? hn (toReal_eq_ok_iff.1 h), roundSignificant_le_units one_pos ?_⟩
  rw [Nat.mul_one]
  exact Nat.mul_le_mul_right _ (by omega)

theorem toReal_withinBits (hn : 0 ≤ n) (hbits : n ≤ twoPow bits) (h : toReal n = .ok x) :
    x.WithinBits bits := by
  obtain ⟨units, rfl, hunits⟩ := exists_units_of_toReal hn hbits h
  exact hunits

/-- A share of some tuples is not rounded beyond the power of two above all of them. -/
theorem exists_units_of_quotientReal (htuples : 0 ≤ tuples) (hbits : tuples ≤ twoPow bits)
    (hdistinct : 0 < distinct) (h : quotientReal tuples distinct = .ok x) :
    ∃ units, x = finite false units ∧ units ≤ twoPow bits * unitsPerOne := by
  have hquotient := (quotientReal_eq_ok_iff hdistinct.ne').1 h
  refine ⟨_, eq_finite_of_ofQuotient? htuples hdistinct.le hquotient,
    roundSignificant_le_units (by omega) ?_⟩
  calc tuples.natAbs * unitsPerOne ≤ twoPow bits * unitsPerOne :=
        Nat.mul_le_mul_right _ (by omega)
    _ ≤ twoPow bits * unitsPerOne * distinct.natAbs := Nat.le_mul_of_pos_right _ (by omega)

theorem ceilReal_le (hx : x.WithinBits bits) (h : ceilReal x = .ok n) : n ≤ twoPow bits :=
  hx.ceil_le (ceilReal_eq_ok_iff.1 h)

/-- A selection does not keep more tuples than the power of two above those it is given. -/
theorem selectedTuples_le {comparator : Comparator} (htuples : 0 ≤ tuples)
    (hbits : tuples ≤ twoPow bits) (hdistinct : 0 ≤ distinct)
    (h : selectedTuples comparator tuples distinct = .ok kept) : kept ≤ twoPow bits := by
  unfold selectedTuples at h
  split at h
  · exact (Except.ok.inj h).symm.trans_le (Int.natCast_nonneg _)
  · rename_i hne
    have hpos : 0 < distinct := lt_of_le_of_ne hdistinct (Ne.symm hne)
    cases comparator with
    | equal =>
      obtain ⟨share, hshare, hkept⟩ := bind_eq_ok_iff.1 h
      obtain ⟨units, rfl, hunits⟩ := exists_units_of_quotientReal htuples hbits hpos hshare
      exact ceilReal_le (x := finite false units) hunits hkept
    | notEqual =>
      obtain ⟨share, hshare, h⟩ := bind_eq_ok_iff.1 h
      obtain ⟨all, hall, hkept⟩ := bind_eq_ok_iff.1 h
      obtain ⟨units, rfl, hunits⟩ := exists_units_of_quotientReal htuples hbits hpos hshare
      obtain ⟨units', rfl, hunits'⟩ := exists_units_of_toReal htuples hbits hall
      exact ceilReal_le (withinBits_sub hunits' hunits) hkept
    | less | lessEqual | greater | greaterEqual =>
      obtain ⟨all, hall, hkept⟩ := bind_eq_ok_iff.1 h
      have hhalf := withinBits_half.mul (toReal_withinBits htuples hbits hall)
      rw [Nat.zero_add] at hhalf
      exact ceilReal_le hhalf hkept

theorem crossProduct_withinBits {left right : ℤ} (hleft : 0 ≤ left) (hright : 0 ≤ right)
    (ha : left ≤ twoPow a) (hb : right ≤ twoPow b) (h : crossProduct left right = .ok x) :
    x.WithinBits (a + b) := by
  obtain ⟨l, hl, h⟩ := bind_eq_ok_iff.1 h
  obtain ⟨r, hr, h⟩ := bind_eq_ok_iff.1 h
  obtain rfl := Except.ok.inj h
  exact (toReal_withinBits hleft ha hl).mul (toReal_withinBits hright hb hr)

/-- One more condition does not keep more pairs. -/
theorem matchingPairs_withinBits {left right : ℤ} (hx : x.WithinBits bits) (hleft : 0 ≤ left)
    (h : matchingPairs x left right = .ok y) : y.WithinBits bits := by
  unfold matchingPairs at h
  dsimp only at h
  split at h
  · exact Except.ok.inj h ▸ Nat.zero_le _
  · rename_i hne
    obtain ⟨divisor, hdivisor, h⟩ := bind_eq_ok_iff.1 h
    obtain rfl := Except.ok.inj h
    have hlargest : 0 ≤ max left right := hleft.trans (le_max_left _ _)
    obtain rfl := eq_finite_of_ofInt? hlargest (toReal_eq_ok_iff.1 hdivisor)
    exact hx.div (unitsPerOne_le_roundSignificant (Nat.le_mul_of_pos_left _ (by omega)))

namespace Condition

variable {left right schema : Schema} {c : Condition} {cs : List Condition} {m m' : Counts}
  {l r : ℤ}

theorem Keeps.le (h : c.Keeps schema m tuples kept m') (hm : m.Nonneg) (ht : 0 ≤ tuples)
    (hbits : tuples ≤ twoPow bits) : kept ≤ twoPow bits := by
  obtain ⟨a, distinct, -, hdistinct, hkept, -⟩ := h
  exact selectedTuples_le ht hbits (hm _ _ hdistinct) hkept

theorem Narrow.withinBits (h : Narrow left right cs m pairs m' pairs') (hm : m.Nonneg)
    (hpairs : pairs.WithinBits bits) : pairs'.WithinBits bits := by
  induction h with
  | nil => exact hpairs
  | cons hl hrhs hr hdl hdr hkept _ ih =>
    have hmin := le_min (hm _ _ hdl) (hm _ _ hdr)
    exact ih ((hm.insert _ hmin).insert _ hmin) (matchingPairs_withinBits hpairs (hm _ _ hdl) hkept)

/-- A join does not put out more tuples than the product of the powers of two above those it is
given. -/
theorem Match.le (h : Match left right cs m l r n m') (hm : m.Nonneg) (hl : 0 ≤ l) (hr : 0 ≤ r)
    (ha : l ≤ twoPow a) (hb : r ≤ twoPow b) : n ≤ twoPow (a + b) := by
  obtain ⟨pairs, kept, hpairs, hnarrow, hn⟩ := h
  exact ceilReal_le (hnarrow.withinBits hm (crossProduct_withinBits hl hr ha hb hpairs)) hn

end Condition

end QueryPlan
