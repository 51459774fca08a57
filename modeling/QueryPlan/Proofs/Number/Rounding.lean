import Mathlib
import QueryPlan.Number.Rounding

/-!
# Order and rounding

Rounding never turns two quotients round. Which points of its grid a quotient reaches when it is
rounded is decided by comparing it with the points halfway between them, so on one grid the larger
quotient reaches whatever the smaller one does. The grid of the significant bits gets coarser with
the quotient, but every power of two lies on the grids on both sides of it.

## Main results

* `le_roundHalfEven_iff` : which whole numbers the rounded quotient reaches.
* `roundHalfEven_eq` : the nearest whole number is the only one that is that near.
* `roundHalfEven_mono`, `roundSignificant_mono` : rounding keeps the order of quotients.
-/

namespace QueryPlan

variable {a b c d k p : ℕ}

/-! ### The nearest natural number -/

theorem two_mul_roundHalfEven_le (a b : ℕ) : 2 * (roundHalfEven a b * b) ≤ 2 * a + b := by
  have hdiv := Nat.div_add_mod' a b
  have hsucc := add_one_mul (a / b) b
  unfold roundHalfEven
  dsimp only
  split_ifs <;> omega

theorem two_mul_le_roundHalfEven (hb : 0 < b) : 2 * a ≤ 2 * (roundHalfEven a b * b) + b := by
  have hdiv := Nat.div_add_mod' a b
  have hsucc := add_one_mul (a / b) b
  have hmod := Nat.mod_lt a hb
  unfold roundHalfEven
  dsimp only
  split_ifs <;> omega

/-- A quotient that is halfway between two natural numbers goes to the even one. -/
theorem roundHalfEven_even_of_halfway (hb : 0 < b)
    (h : 2 * (roundHalfEven a b * b) = 2 * a + b ∨ 2 * a = 2 * (roundHalfEven a b * b) + b) :
    roundHalfEven a b % 2 = 0 := by
  have hdiv := Nat.div_add_mod' a b
  have hsucc := add_one_mul (a / b) b
  have hmod := Nat.mod_lt a hb
  unfold roundHalfEven at h ⊢
  dsimp only at h ⊢
  split_ifs at h ⊢ <;> omega

/-- What is at most the rounded quotient lies below the quotient, or above it by at most half; by
just half if it is even. -/
theorem le_roundHalfEven_iff (hb : 0 < b) : k ≤ roundHalfEven a b ↔
    2 * (k * b) < 2 * a + b ∨ 2 * (k * b) = 2 * a + b ∧ k % 2 = 0 := by
  have hlow := two_mul_roundHalfEven_le a b
  have hhigh := two_mul_le_roundHalfEven (a := a) hb
  have heven := roundHalfEven_even_of_halfway (a := a) hb
  generalize roundHalfEven a b = r at *
  obtain hle | hlt := le_or_gt k r
  · have hmul : k * b ≤ r * b := Nat.mul_le_mul_right b hle
    refine iff_of_true hle ((lt_or_eq_of_le (by omega)).imp id fun heq => ⟨heq, ?_⟩)
    obtain rfl : k = r := Nat.eq_of_mul_eq_mul_right hb (by omega)
    exact heven (.inl heq)
  · have hmul : (r + 1) * b ≤ k * b := Nat.mul_le_mul_right b hlt
    rw [add_one_mul] at hmul
    refine iff_of_false hlt.not_ge ?_
    rintro (hbelow | ⟨heq, hk⟩)
    · omega
    · obtain rfl : k = r + 1 := Nat.eq_of_mul_eq_mul_right hb (by rw [add_one_mul]; omega)
      have hr := heven (.inr (by omega))
      omega

/-- A whole number at most half away from a quotient, and even if it is just that, is what the
quotient is rounded to. -/
theorem roundHalfEven_eq (hb : 0 < b) (hlow : 2 * (k * b) ≤ 2 * a + b)
    (hhigh : 2 * a ≤ 2 * (k * b) + b)
    (heven : 2 * (k * b) = 2 * a + b ∨ 2 * a = 2 * (k * b) + b → k % 2 = 0) :
    roundHalfEven a b = k := by
  have hreached : k ≤ roundHalfEven a b :=
    (le_roundHalfEven_iff hb).2 (hlow.lt_or_eq.imp_right fun heq => ⟨heq, heven (.inl heq)⟩)
  have hpassed : ¬ k + 1 ≤ roundHalfEven a b := by
    rw [le_roundHalfEven_iff hb, add_one_mul]
    omega
  omega

/-- Rounding to the nearest natural number keeps the order of quotients. -/
theorem roundHalfEven_mono (hb : 0 < b) (hd : 0 < d) (h : a * d ≤ c * b) :
    roundHalfEven a b ≤ roundHalfEven c d := by
  refine le_of_forall_le fun k hk => ?_
  rw [le_roundHalfEven_iff hb] at hk
  rw [le_roundHalfEven_iff hd]
  have hscale : (2 * a + b) * d ≤ (2 * c + d) * b :=
    calc (2 * a + b) * d = 2 * (a * d) + b * d := by ring
      _ ≤ 2 * (c * b) + b * d := Nat.add_le_add_right (Nat.mul_le_mul_left 2 h) _
      _ = (2 * c + d) * b := by ring
  have hle : 2 * (k * b) ≤ 2 * a + b := hk.elim le_of_lt fun heq => heq.1.le
  have hle' : 2 * (k * d) ≤ 2 * c + d := by
    refine Nat.le_of_mul_le_mul_right ?_ hb
    calc 2 * (k * d) * b = 2 * (k * b) * d := by ring
      _ ≤ (2 * a + b) * d := Nat.mul_le_mul_right d hle
      _ ≤ (2 * c + d) * b := hscale
  -- If the larger quotient is halfway below `k`, then so is the smaller one, and `k` is even.
  refine hle'.lt_or_eq.imp_right fun hhalf => ⟨hhalf, (hk.resolve_left (not_lt.2 ?_)).2⟩
  refine Nat.le_of_mul_le_mul_right ?_ hd
  calc (2 * a + b) * d ≤ (2 * c + d) * b := hscale
    _ = 2 * (k * d) * b := by rw [hhalf]
    _ = 2 * (k * b) * d := by ring

theorem roundHalfEven_le_of_le_mul (hb : 0 < b) (h : a ≤ k * b) : roundHalfEven a b ≤ k :=
  calc roundHalfEven a b ≤ roundHalfEven (k * b) b :=
        roundHalfEven_mono hb hb (Nat.mul_le_mul_right b h)
    _ = k := roundHalfEven_mul_right k hb

theorem le_roundHalfEven_of_mul_le (hb : 0 < b) (h : k * b ≤ a) : k ≤ roundHalfEven a b :=
  calc k = roundHalfEven (k * b) b := (roundHalfEven_mul_right k hb).symm
    _ ≤ roundHalfEven a b := roundHalfEven_mono hb hb (Nat.mul_le_mul_right b h)

/-! ### Significant bits -/

theorem twoPow_add (m n : ℕ) : twoPow (m + n) = twoPow m * twoPow n := Nat.pow_add 2 m n

theorem twoPow_le_twoPow {m n : ℕ} (h : m ≤ n) : twoPow m ≤ twoPow n :=
  Nat.pow_le_pow_right (by decide) h

/-- The number of bits of a quotient that are dropped when `p` bits are kept. -/
def droppedBits (p a b : ℕ) : ℕ := (a / b).log2 + 1 - p

/-- A power of two above the quotient is not passed by rounding. -/
theorem roundSignificant_le_twoPow (hb : 0 < b) {n : ℕ} (hn : droppedBits p a b ≤ n)
    (h : a ≤ twoPow n * b) : roundSignificant p a b ≤ twoPow n := by
  obtain ⟨k, rfl⟩ := Nat.exists_eq_add_of_le' hn
  have hstep := Nat.mul_pos hb (twoPow_pos (droppedBits p a b))
  rw [twoPow_add] at h ⊢
  refine Nat.mul_le_mul_right _ (roundHalfEven_le_of_le_mul hstep ?_)
  calc a ≤ twoPow k * twoPow (droppedBits p a b) * b := h
    _ = twoPow k * (b * twoPow (droppedBits p a b)) := by ring

/-- A power of two below the quotient is not passed by rounding. -/
theorem twoPow_le_roundSignificant (hb : 0 < b) {n : ℕ} (hn : droppedBits p a b ≤ n)
    (h : twoPow n * b ≤ a) : twoPow n ≤ roundSignificant p a b := by
  obtain ⟨k, rfl⟩ := Nat.exists_eq_add_of_le' hn
  have hstep := Nat.mul_pos hb (twoPow_pos (droppedBits p a b))
  rw [twoPow_add] at h ⊢
  refine Nat.mul_le_mul_right _ (le_roundHalfEven_of_mul_le hstep ?_)
  calc twoPow k * (b * twoPow (droppedBits p a b))
      = twoPow k * twoPow (droppedBits p a b) * b := by ring
    _ ≤ a := h

/-- Rounding to significant bits keeps the order of quotients. -/
theorem roundSignificant_mono (hp : 0 < p) (hb : 0 < b) (hd : 0 < d) (h : a * d ≤ c * b) :
    roundSignificant p a b ≤ roundSignificant p c d := by
  have hquotient : a / b ≤ c / d := by
    rw [Nat.le_div_iff_mul_le hd]
    refine Nat.le_of_mul_le_mul_right ?_ hb
    calc a / b * d * b = a / b * b * d := by ring
      _ ≤ a * d := Nat.mul_le_mul_right d (Nat.div_mul_le_self a b)
      _ ≤ c * b := h
  have hlog : (a / b).log2 ≤ (c / d).log2 := by
    simpa only [Nat.log2_eq_log_two] using Nat.log_mono_right hquotient
  obtain hsame | hless : droppedBits p a b = droppedBits p c d ∨
      droppedBits p a b < droppedBits p c d := by
    unfold droppedBits
    omega
  · have hstep : significantStep p a b = significantStep p c d := congrArg twoPow hsame
    unfold roundSignificant
    rw [hstep]
    have hpos := twoPow_pos (droppedBits p c d)
    refine Nat.mul_le_mul_right _
      (roundHalfEven_mono (Nat.mul_pos hb hpos) (Nat.mul_pos hd hpos) ?_)
    calc a * (d * twoPow (droppedBits p c d)) = a * d * twoPow (droppedBits p c d) := by ring
      _ ≤ c * b * twoPow (droppedBits p c d) := Nat.mul_le_mul_right _ h
      _ = c * (b * twoPow (droppedBits p c d)) := by ring
  · -- The leading power of two of the larger quotient lies between the two.
    have hbits : (a / b).log2 + 1 ≤ (c / d).log2 := by
      unfold droppedBits at hless
      omega
    have hle : a ≤ twoPow ((a / b).log2 + 1) * b := by
      have hlt : a / b < 2 ^ ((a / b).log2 + 1) := Nat.lt_log2_self
      exact ((Nat.div_lt_iff_lt_mul hb).1 hlt).le
    have hge : twoPow (c / d).log2 * d ≤ c := by
      have hne : c / d ≠ 0 := by
        rintro h0
        simp [h0] at hbits
      exact (Nat.le_div_iff_mul_le hd).1 (Nat.log2_self_le hne)
    calc roundSignificant p a b ≤ twoPow ((a / b).log2 + 1) :=
          roundSignificant_le_twoPow hb (by unfold droppedBits; omega) hle
      _ ≤ twoPow (c / d).log2 := twoPow_le_twoPow hbits
      _ ≤ roundSignificant p c d :=
          twoPow_le_roundSignificant hd (by unfold droppedBits; omega) hge

/-- Rounding to significant bits depends on the quotient alone. -/
theorem roundSignificant_congr (hp : 0 < p) (hb : 0 < b) (hd : 0 < d) (h : a * d = c * b) :
    roundSignificant p a b = roundSignificant p c d :=
  le_antisymm (roundSignificant_mono hp hb hd h.le) (roundSignificant_mono hp hd hb h.ge)

/-- A quotient that lies on the grid that it is rounded to is kept. -/
theorem roundSignificant_mul (hb : 0 < b) (h : b * significantStep p a b ∣ a) :
    roundSignificant p a b * b = a := by
  have hstep := Nat.mul_pos hb (twoPow_pos (droppedBits p a b))
  unfold roundSignificant
  change 0 < b * significantStep p a b at hstep
  generalize significantStep p a b = step at *
  obtain ⟨k, rfl⟩ := h
  rw [Nat.mul_comm (b * step) k, roundHalfEven_mul_right k hstep]
  ring

end QueryPlan
