import QueryPlan.Number.Numeral
import QueryPlan.Proofs.Text.Plain

/-!
# Decimal digits

A natural number is written by its digits from `0` to `9`, without zeros in front. Such a text is
plain, has no blank in it and is read as the number.

## Main definitions

* `Text.Digits` : a list of digits from `0` to `9`.

## Main results

* `Text.digits_toDigits`, `Text.head?_toDigits_ne` : how a number is written.
* `readInteger?_toString` : a number that is written is read back.
-/

namespace QueryPlan

namespace Text

variable {c : Char} {ds es : List Char} {n : ℕ}

/-- Digits from `0` to `9`. -/
def Digits (ds : List Char) : Prop := ∀ c ∈ ds, c.isDigit = true

theorem digits_append : Digits (ds ++ es) ↔ Digits ds ∧ Digits es := List.forall_mem_append

theorem digits_toDigits (n : ℕ) : Digits (Nat.toDigits 10 n) := fun _ hc =>
  Nat.isDigit_of_mem_toDigits (by decide) (by decide) hc

theorem digits_replicate_zero (n : ℕ) : Digits (List.replicate n '0') := fun c hc => by
  rw [List.eq_of_mem_replicate hc]
  rfl

/-- The first digit of a positive number is not zero. -/
theorem head?_toDigits_ne (hn : 0 < n) : (Nat.toDigits 10 n).head? ≠ some '0' := by
  induction n using Nat.strong_induction_on with
  | _ n ih =>
    obtain hone | hmore := Nat.lt_or_ge n 10
    · rw [Nat.toDigits_of_lt_base hone]
      interval_cases n <;> decide
    · rw [Nat.toDigits_of_base_le (by decide) hmore, List.head?_append_of_ne_nil]
      · exact ih (n / 10) (by omega) (by omega)
      · exact Nat.toDigits_ne_nil

theorem toList_toString (n : ℕ) : (toString n).toList = Nat.toDigits 10 n := Nat.toList_repr

theorem toNat_of_isDigit (h : c.isDigit = true) : 0x30 ≤ c.toNat ∧ c.toNat ≤ 0x39 := by
  simp only [Char.isDigit, Bool.and_eq_true, decide_eq_true_eq, ge_iff_le,
    UInt32.le_iff_toNat_le] at h
  exact h

theorem isPlain_of_isDigit (h : c.isDigit = true) : IsPlain c := by
  have hc := toNat_of_isDigit h
  exact .inr (by omega)

theorem Digits.plain (h : Digits ds) : Plain ds := fun c hc => isPlain_of_isDigit (h c hc)

/-! ### Reading a number -/

/-- Nothing is trimmed off a text that neither begins nor ends with padding. -/
theorem trim_eq_self {isPadding : Char → Bool} (hfirst : ∀ c ∈ ds.head?, isPadding c = false)
    (hlast : ∀ c ∈ ds.getLast?, isPadding c = false) : trim isPadding ds = ds := by
  have hnone (es : List Char) (hes : ∀ c ∈ es.head?, isPadding c = false) :
      es.dropWhile isPadding = es := by
    cases es with
    | nil => rfl
    | cons c cs => exact List.dropWhile_cons_of_neg (by simp [hes c rfl])
  rw [trim, trimEnd, hnone ds hfirst, hnone ds.reverse (by rwa [List.head?_reverse]),
    List.reverse_reverse]

/-- A text without padding has none around it. -/
theorem trim_of_forall {isPadding : Char → Bool} (h : ∀ c ∈ ds, isPadding c = false) :
    trim isPadding ds = ds :=
  trim_eq_self (fun c hc => h c (List.mem_of_mem_head? hc))
    fun c hc => h c (List.mem_of_mem_getLast? hc)

theorem isBlank_of_isDigit (h : c.isDigit = true) : isBlank c = false := by
  have hc := toNat_of_isDigit h
  simp [isBlank]
  omega

theorem digitValue?_of_isDigit (h : c.isDigit = true) : digitValue? c = some (c.toNat - 0x30) := by
  have hc := toNat_of_isDigit h
  have hfind : (zeroDigits.find? fun z => z ≤ c.toNat && c.toNat < z + 10) = some 0x30 := by
    rw [zeroDigits, List.find?_toArray]
    exact List.find?_cons_of_pos (by simp; omega)
  rw [digitValue?, hfind, Option.map_some]

end Text

open Text

variable {ds : List Char} {n : ℕ}

/-- Digits are read one by one. -/
theorem readDigits?_of_digits (h : Digits ds) (value : ℕ) (afterDigit : Bool)
    (hend : ds ≠ [] ∨ afterDigit = true) :
    readDigits? value afterDigit ds = some (Nat.ofDigitChars 10 ds value) := by
  induction ds generalizing value afterDigit with
  | nil => simp [readDigits?, hend.resolve_left (fun h => h rfl)]
  | cons c ds ih =>
    have hc := h c List.mem_cons_self
    have hscore : c ≠ '_' := by
      rintro rfl
      cases hc
    rw [readDigits?, if_neg hscore, digitValue?_of_isDigit hc, Nat.ofDigitChars_cons]
    exact ih (fun d hd => h d (List.mem_cons_of_mem c hd)) _ true (.inr rfl)

/-- A number that is written is read back. -/
theorem readInteger?_toString (n : ℕ) : readInteger? (toString n) = some (n : ℤ) := by
  have hdigits := digits_toDigits n
  have htrim : trim isPadding (Nat.toDigits 10 n) = Nat.toDigits 10 n :=
    trim_of_forall fun c hc => by simp [isPadding, isBlank_of_isDigit (hdigits c hc)]
  have hread := readDigits?_of_digits hdigits 0 false (.inl Nat.toDigits_ne_nil)
  have hsign : takeSign (Nat.toDigits 10 n) = (false, Nat.toDigits 10 n) := by
    obtain ⟨c, cs, hcons⟩ := List.exists_cons_of_ne_nil (Nat.toDigits_ne_nil (b := 10) (n := n))
    have hc := hdigits c (hcons ▸ List.mem_cons_self)
    have hsigns : c ≠ '-' ∧ c ≠ '+' := by
      constructor <;> rintro rfl <;> cases hc
    simp [hcons, takeSign, hsigns]
  rw [readInteger?, toList_toString, htrim, hsign]
  simp [hread]

end QueryPlan
