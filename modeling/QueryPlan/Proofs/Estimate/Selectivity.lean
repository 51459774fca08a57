import Mathlib
import QueryPlan.Estimate.Selectivity
import QueryPlan.Proofs.Number.Rounding
import QueryPlan.Proofs.Program

/-!
# Cardinalities are not negative

A selection keeps a share of its input and a join a share of the pairs, so neither puts out a
negative number of tuples. The one difference that is taken is that of all tuples and those that are
equal to a value. Both are rounded, the second from a smaller exact value, and rounding keeps the
order.

## Main definitions

* `Binary64.Unsigned` : the sign of a double is not set.

## Main results

* `selectedTuples_nonneg` : a selection does not keep a negative number of tuples.
* `crossProduct_unsigned`, `matchingPairs_unsigned`, `ceilReal_nonneg` : nor does a join, condition
  by condition.
-/

namespace QueryPlan

namespace Binary64

variable {x y : Binary64} {a b : ℤ}

/-- The sign of a double is not set. What is not a number has none. -/
def Unsigned : Binary64 → Prop
  | finite negative _ => negative = false
  | infinite negative => negative = false
  | notNumber => True

theorem unsigned_ofUnitsRatio (num den : ℕ) : (ofUnitsRatio false num den).Unsigned := by
  unfold ofUnitsRatio
  dsimp only
  split <;> rfl

theorem Unsigned.mul (hx : x.Unsigned) (hy : y.Unsigned) : (x.mul y).Unsigned := by
  cases x with
  | finite s u =>
    obtain rfl : s = false := hx
    cases y with
    | finite t v =>
      obtain rfl : t = false := hy
      exact unsigned_ofUnitsRatio _ _
    | infinite t =>
      obtain rfl : t = false := hy
      by_cases hu : u = 0 <;> simp [Binary64.mul, Unsigned, hu]
    | notNumber => trivial
  | infinite s =>
    obtain rfl : s = false := hx
    cases y with
    | finite t v =>
      obtain rfl : t = false := hy
      by_cases hv : v = 0 <;> simp [Binary64.mul, Unsigned, hv]
    | infinite t =>
      obtain rfl : t = false := hy
      rfl
    | notNumber => trivial
  | notNumber => trivial

theorem Unsigned.div (hx : x.Unsigned) (hy : y.Unsigned) : (x.div y).Unsigned := by
  cases x with
  | finite s u =>
    obtain rfl : s = false := hx
    cases y with
    | finite t v =>
      obtain rfl : t = false := hy
      by_cases hv : v = 0
      · by_cases hu : u = 0 <;> simp [Binary64.div, Unsigned, hu, hv]
      · rw [Binary64.div, if_neg hv]
        exact unsigned_ofUnitsRatio _ _
    | infinite t =>
      obtain rfl : t = false := hy
      rfl
    | notNumber => trivial
  | infinite s =>
    obtain rfl : s = false := hx
    cases y with
    | finite t v =>
      obtain rfl : t = false := hy
      rfl
    | infinite t => trivial
    | notNumber => trivial
  | notNumber => trivial

/-- The difference to a smaller number is computed from the difference of the units. -/
theorem sub_of_le {u v : ℕ} (h : v ≤ u) :
    (finite false u).sub (finite false v) = ofUnitsRatio false (u - v) 1 := by
  have hsigned : signed false u - signed false v = ((u - v : ℕ) : ℤ) := by
    simp only [signed, Bool.false_eq_true, ↓reduceIte]
    omega
  unfold Binary64.sub
  dsimp only
  rw [hsigned]
  split
  · rename_i h0
    rw [Int.natCast_eq_zero.1 h0]
    simp [ofUnitsRatio]
  · rw [decide_eq_false (not_lt.2 (Int.natCast_nonneg _)), Int.natAbs_natCast]

/-- The difference to a smaller number has no sign. -/
theorem unsigned_sub {u v : ℕ} (h : v ≤ u) : ((finite false u).sub (finite false v)).Unsigned := by
  rw [sub_of_le h]
  exact unsigned_ofUnitsRatio _ _

theorem Unsigned.ceil_nonneg (hx : x.Unsigned) {n : ℤ} (h : x.ceil = .ok n) : 0 ≤ n := by
  cases x with
  | finite s u =>
    obtain rfl : s = false := hx
    obtain rfl := Except.ok.inj h
    have hunits : (0 : ℤ) < unitsPerOne := by exact_mod_cast unitsPerOne_pos
    have hle : -signed false u / (unitsPerOne : ℤ) ≤ 0 := by
      refine Int.ediv_nonpos_of_nonpos_of_neg ?_ hunits
      simp [signed]
    omega
  | infinite s => cases h
  | notNumber => cases h

/-- What a quotient of natural numbers is rounded to. -/
theorem ofUnitsRatio_eq_finite {negative s : Bool} {num den u : ℕ}
    (h : ofUnitsRatio negative num den = finite s u) :
    s = negative ∧ u = roundSignificant precision num den := by
  unfold ofUnitsRatio at h
  dsimp only at h
  split at h
  · cases h
    exact ⟨rfl, rfl⟩
  · cases h

theorem eq_finite_of_ofInt? (ha : 0 ≤ a) (h : ofInt? a = some x) :
    x = finite false (roundSignificant precision (a.natAbs * unitsPerOne) 1) := by
  obtain ⟨s, u, hfinite, rfl⟩ := finite?_eq_some_iff.1 h
  obtain ⟨rfl, rfl⟩ := ofUnitsRatio_eq_finite hfinite
  rw [decide_eq_false (not_lt.2 ha)]

theorem eq_finite_of_ofQuotient? (ha : 0 ≤ a) (hb : 0 ≤ b) (h : ofQuotient? a b = some x) :
    x = finite false (roundSignificant precision (a.natAbs * unitsPerOne) b.natAbs) := by
  obtain ⟨s, u, hfinite, rfl⟩ := finite?_eq_some_iff.1 h
  obtain ⟨rfl, rfl⟩ := ofUnitsRatio_eq_finite hfinite
  rw [decide_eq_false (not_lt.2 ha), decide_eq_false (not_lt.2 hb), bne_self_eq_false]

end Binary64

open Binary64

variable {a b n : ℤ} {x y : Binary64}

theorem toReal_eq_ok_iff : toReal n = .ok x ↔ ofInt? n = some x := by
  unfold toReal
  cases ofInt? n <;> simp [Option.elim]

theorem quotientReal_eq_ok_iff (hb : b ≠ 0) :
    quotientReal a b = .ok x ↔ ofQuotient? a b = some x := by
  unfold quotientReal
  rw [if_neg hb]
  cases ofQuotient? a b <;> simp [Option.elim]

theorem ceilReal_eq_ok_iff : ceilReal x = .ok n ↔ x.ceil = .ok n := by
  unfold ceilReal
  split <;> simp_all

theorem ceilReal_nonneg (hx : x.Unsigned) (h : ceilReal x = .ok n) : 0 ≤ n :=
  hx.ceil_nonneg (ceilReal_eq_ok_iff.1 h)

theorem toReal_unsigned (hn : 0 ≤ n) (h : toReal n = .ok x) : x.Unsigned :=
  eq_finite_of_ofInt? hn (toReal_eq_ok_iff.1 h) ▸ rfl

/-- A share of some tuples is not rounded beyond all of them. -/
theorem unsigned_sub_of_quotientReal (ha : 0 ≤ a) (hb : 0 < b) (hx : toReal a = .ok x)
    (hy : quotientReal a b = .ok y) : (x.sub y).Unsigned := by
  obtain rfl := eq_finite_of_ofInt? ha (toReal_eq_ok_iff.1 hx)
  obtain rfl := eq_finite_of_ofQuotient? ha hb.le ((quotientReal_eq_ok_iff hb.ne').1 hy)
  refine unsigned_sub (roundSignificant_mono (by decide) (by omega) one_pos ?_)
  exact Nat.mul_le_mul_left _ (by omega)

/-- A selection does not keep a negative number of tuples. -/
theorem selectedTuples_nonneg {comparator : Comparator} {tuples distinct kept : ℤ}
    (htuples : 0 ≤ tuples) (hdistinct : 0 ≤ distinct)
    (h : selectedTuples comparator tuples distinct = .ok kept) : 0 ≤ kept := by
  unfold selectedTuples at h
  split at h
  · exact (Except.ok.inj h).le
  · rename_i hne
    have hpos : 0 < distinct := lt_of_le_of_ne hdistinct (Ne.symm hne)
    cases comparator with
    | equal =>
      obtain ⟨share, hshare, hkept⟩ := bind_eq_ok_iff.1 h
      refine ceilReal_nonneg ?_ hkept
      exact eq_finite_of_ofQuotient? htuples hdistinct ((quotientReal_eq_ok_iff hne).1 hshare) ▸ rfl
    | notEqual =>
      obtain ⟨share, hshare, h⟩ := bind_eq_ok_iff.1 h
      obtain ⟨all, hall, hkept⟩ := bind_eq_ok_iff.1 h
      exact ceilReal_nonneg (unsigned_sub_of_quotientReal htuples hpos hall hshare) hkept
    | less | lessEqual | greater | greaterEqual =>
      obtain ⟨all, hall, hkept⟩ := bind_eq_ok_iff.1 h
      have hhalf : half.Unsigned := rfl
      exact ceilReal_nonneg (hhalf.mul (toReal_unsigned htuples hall)) hkept

theorem crossProduct_unsigned {left right : ℤ} (hleft : 0 ≤ left) (hright : 0 ≤ right)
    (h : crossProduct left right = .ok x) : x.Unsigned := by
  obtain ⟨l, hl, h⟩ := bind_eq_ok_iff.1 h
  obtain ⟨r, hr, h⟩ := bind_eq_ok_iff.1 h
  obtain rfl := Except.ok.inj h
  exact (toReal_unsigned hleft hl).mul (toReal_unsigned hright hr)

theorem matchingPairs_unsigned {left right : ℤ} (hx : x.Unsigned) (hleft : 0 ≤ left)
    (h : matchingPairs x left right = .ok y) : y.Unsigned := by
  unfold matchingPairs at h
  dsimp only at h
  split at h
  · exact Except.ok.inj h ▸ rfl
  · obtain ⟨divisor, hdivisor, h⟩ := bind_eq_ok_iff.1 h
    obtain rfl := Except.ok.inj h
    exact hx.div (toReal_unsigned (hleft.trans (le_max_left _ _)) hdivisor)

end QueryPlan
