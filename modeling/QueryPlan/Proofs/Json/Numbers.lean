import QueryPlan.Json.Printer
import QueryPlan.Json.Reader
import QueryPlan.Proofs.Number.Shortest
import QueryPlan.Proofs.Text.Digits

/-!
# Numbers in JSON texts

A number is read up to the first character that cannot go on with it. Whole numbers are written by
their digits, doubles by the digits of the shortest decimal with a point or an exponent among them,
so that the one kind is never read as the other.

## Main definitions

* `Json.Significant` : the digits of a positive number.
* `Json.Numeral` : the parts of a number.
* `Json.Delimited` : a text with which no number goes on.

## Main results

* `Json.Numeral.readScalar_signedText` : a number is read as it is written.
* `Json.exists_numeral_int`, `Json.exists_numeral_real` : whole numbers and doubles are written as
  numbers that read as they are.
-/

namespace QueryPlan

namespace Json

open Text (Digits Plain digits_append digits_toDigits digits_replicate_zero head?_toDigits_ne)

variable {ds rest : List Char} {n : ℕ} {point : ℤ} {negative : Bool}

/-! ### Digits -/

theorem ofAsciiDigits_eq (ds : List Char) : ofAsciiDigits ds = Nat.ofDigitChars 10 ds 0 :=
  (Nat.ofDigitChars_eq_foldl ..).symm

@[simp] theorem ofAsciiDigits_toDigits (n : ℕ) : ofAsciiDigits (Nat.toDigits 10 n) = n := by
  rw [ofAsciiDigits_eq, Nat.ofDigitChars_ten_toDigits]

/-- Zeros in front of a number do not change it. -/
theorem ofAsciiDigits_zeros_append (n : ℕ) (ds : List Char) :
    ofAsciiDigits (List.replicate n '0' ++ ds) = ofAsciiDigits ds := by
  rw [ofAsciiDigits_eq, ofAsciiDigits_eq, Nat.ofDigitChars_append, Nat.ofDigitChars_replicate_zero]
  simp

/-- Each zero after a number is a factor of ten. -/
theorem ofAsciiDigits_append_zeros (ds : List Char) (n : ℕ) :
    ofAsciiDigits (ds ++ List.replicate n '0') = ofAsciiDigits ds * tenPow n := by
  rw [ofAsciiDigits_eq, ofAsciiDigits_eq, Nat.ofDigitChars_append, Nat.ofDigitChars_replicate_zero]
  rw [mul_comm]
  rfl

/-- Digits that a longer number does not go on with are taken all. -/
theorem takeAsciiDigits_append (hds : Digits ds) (hrest : ∀ c ∈ rest.head?, c.isDigit = false) :
    takeAsciiDigits (ds ++ rest) = (ds, rest) := by
  have htake : rest.takeWhile Char.isDigit = [] := by
    cases rest with
    | nil => rfl
    | cons c cs => exact List.takeWhile_cons_of_neg (by simp [hrest c rfl])
  have hdrop : rest.dropWhile Char.isDigit = rest := by
    cases rest with
    | nil => rfl
    | cons c cs => exact List.dropWhile_cons_of_neg (by simp [hrest c rfl])
  rw [takeAsciiDigits, List.takeWhile_append_of_pos hds, List.dropWhile_append_of_pos hds, htake,
    hdrop, List.append_nil]

/-- The digits of a positive number. -/
def Significant (ds : List Char) : Prop := ds ≠ [] ∧ Digits ds ∧ ds.head? ≠ some '0'

theorem significant_toDigits (hn : n ≠ 0) : Significant (Nat.toDigits 10 n) :=
  ⟨Nat.toDigits_ne_nil, digits_toDigits n, head?_toDigits_ne (Nat.pos_of_ne_zero hn)⟩

/-! ### Numerals -/

/-- The parts of a number without its sign: the digits before the point, those after it, and the
sign and the digits of the exponent. -/
structure Numeral where
  whole : List Char
  fraction : List Char
  exponent : Option (Bool × List Char)
  whole_digits : whole = ['0'] ∨ Significant whole
  fraction_digits : Digits fraction
  exponent_digits : ∀ p ∈ exponent, p.2 ≠ [] ∧ Digits p.2

namespace Numeral

/-- The text of a fraction, which has a point only if it has digits. -/
def fractionText : List Char → List Char
  | [] => []
  | c :: cs => '.' :: c :: cs

theorem fractionText_of_ne_nil {ds : List Char} (h : ds ≠ []) : fractionText ds = '.' :: ds := by
  obtain ⟨c, cs, rfl⟩ := List.exists_cons_of_ne_nil h
  rfl

/-- The text of an exponent. -/
def exponentText : Option (Bool × List Char) → List Char
  | none => []
  | some (negative, ds) => 'e' :: (if negative then '-' else '+') :: ds

/-- The text of a number without its sign. -/
def text (t : Numeral) : List Char := t.whole ++ (fractionText t.fraction ++ exponentText t.exponent)

/-- The exponent that is written. -/
def exponentValue : Option (Bool × List Char) → Option ℤ :=
  Option.map fun p => if p.1 then -(ofAsciiDigits p.2 : ℤ) else ofAsciiDigits p.2

/-- What a number reads as: a whole number, or a double if there is a point or an exponent. -/
def value (t : Numeral) (negative : Bool) : Json :=
  if t.fraction.isEmpty && t.exponent.isNone then
    .int (if negative then -(ofAsciiDigits t.whole : ℤ) else ofAsciiDigits t.whole)
  else
    .real (Binary64.ofDecimal negative (ofAsciiDigits (t.whole ++ t.fraction))
      ((exponentValue t.exponent).getD 0 - t.fraction.length))

end Numeral

/-- No number goes on with the text. -/
def Delimited (rest : List Char) : Prop :=
  ∀ c ∈ rest.head?, c.isDigit = false ∧ c ≠ '.' ∧ c ≠ 'e' ∧ c ≠ 'E'

theorem Delimited.not_digit (h : Delimited rest) : ∀ c ∈ rest.head?, c.isDigit = false :=
  fun c hc => (h c hc).1

/-- An exponent is read as it is written. -/
theorem takeExponent_append (t : Numeral) (hrest : Delimited rest) :
    takeExponent (Numeral.exponentText t.exponent ++ rest) =
      (Numeral.exponentValue t.exponent, rest) := by
  have hdigits := t.exponent_digits
  generalize t.exponent = exponent at hdigits
  cases exponent with
  | none =>
    cases rest with
    | nil => rfl
    | cons c cs =>
      obtain ⟨-, -, he, hE⟩ := hrest c rfl
      simp [takeExponent, Numeral.exponentText, Numeral.exponentValue, he, hE]
  | some p =>
    obtain ⟨negative, ds⟩ := p
    obtain ⟨hne, hds⟩ := hdigits _ rfl
    have htake := takeAsciiDigits_append hds hrest.not_digit
    obtain ⟨d, ds, rfl⟩ := List.exists_cons_of_ne_nil hne
    rw [List.cons_append] at htake
    cases negative <;> simp [takeExponent, Numeral.exponentText, Numeral.exponentValue, htake]

/-- Neither an exponent nor the end of a number goes on with digits or a point. -/
theorem head?_exponentText_append (t : Numeral) (hrest : Delimited rest) :
    ∀ c ∈ (Numeral.exponentText t.exponent ++ rest).head?, c.isDigit = false ∧ c ≠ '.' := by
  intro c hc
  cases hexponent : t.exponent with
  | none =>
    rw [hexponent] at hc
    exact (hrest c hc).imp_right And.left
  | some p =>
    obtain rfl : 'e' = c := by simpa [hexponent, Numeral.exponentText] using hc
    decide

/-- A fraction is read as it is written. -/
theorem takeFraction_append (t : Numeral) (hrest : Delimited rest) :
    takeFraction (Numeral.fractionText t.fraction ++ (Numeral.exponentText t.exponent ++ rest)) =
      (t.fraction, Numeral.exponentText t.exponent ++ rest) := by
  have hdigits := t.fraction_digits
  have hhead := head?_exponentText_append t hrest
  generalize Numeral.exponentText t.exponent ++ rest = more at hhead
  generalize t.fraction = fraction at hdigits
  cases fraction with
  | nil =>
    cases more with
    | nil => rfl
    | cons c cs => simp [takeFraction, Numeral.fractionText, (hhead c rfl).2]
  | cons d ds =>
    have htake := takeAsciiDigits_append hdigits fun c hc => (hhead c hc).1
    rw [List.cons_append] at htake
    simp [takeFraction, Numeral.fractionText, htake]

/-- What follows the digits before the point is no digit. -/
theorem head?_fractionText_append (t : Numeral) (hrest : Delimited rest) :
    ∀ c ∈ (Numeral.fractionText t.fraction ++
      (Numeral.exponentText t.exponent ++ rest)).head?, c.isDigit = false := by
  intro c hc
  cases hfraction : t.fraction with
  | nil =>
    rw [hfraction] at hc
    exact (head?_exponentText_append t hrest c hc).1
  | cons d ds =>
    obtain rfl : '.' = c := by simpa [hfraction, Numeral.fractionText] using hc
    decide

/-- A number is read as it is written. -/
theorem readUnsigned?_text (t : Numeral) (negative : Bool) (hrest : Delimited rest) :
    readUnsigned? negative (t.text ++ rest) = some (t.value negative, rest) := by
  have hmore := head?_fractionText_append t hrest
  have hfraction := takeFraction_append t hrest
  have hexponent := takeExponent_append t hrest
  have hnone : (Numeral.exponentValue t.exponent).isNone = t.exponent.isNone := Option.isNone_map
  rw [Numeral.text, List.append_assoc, List.append_assoc]
  unfold readUnsigned?
  generalize Numeral.fractionText t.fraction ++ (Numeral.exponentText t.exponent ++ rest) = more at *
  obtain hzero | ⟨hne, hdigits, hhead⟩ := t.whole_digits
  · simp only [hzero, List.cons_append, List.nil_append, List.isEmpty_cons, Bool.false_eq_true,
      if_false, hfraction, hexponent, hnone, Numeral.value]
    split <;> rfl
  · have htake := takeAsciiDigits_append hdigits hmore
    obtain ⟨d, ds, hwhole⟩ := List.exists_cons_of_ne_nil hne
    have hd : d ≠ '0' := by simpa [hwhole] using hhead
    rw [hwhole, List.cons_append] at htake
    simp only [hwhole, List.cons_append, List.cons.injEq, hd, false_and, imp_self, implies_true,
      htake, List.isEmpty_cons, Bool.false_eq_true, if_false, hfraction, hexponent, hnone,
      Numeral.value]
    split <;> rfl

/-! ### Numbers that are written -/

/-- The numeral of a natural number. -/
def Numeral.ofNat (n : ℕ) : Numeral where
  whole := Nat.toDigits 10 n
  fraction := []
  exponent := none
  whole_digits := by
    obtain rfl | hn := Nat.eq_zero_or_pos n
    · exact .inl rfl
    · exact .inr (significant_toDigits hn.ne')
  fraction_digits := by simp [Digits]
  exponent_digits := by simp

@[simp] theorem Numeral.text_ofNat (n : ℕ) : (Numeral.ofNat n).text = Nat.toDigits 10 n := by
  simp [Numeral.text, Numeral.ofNat, Numeral.fractionText, Numeral.exponentText]

@[simp] theorem Numeral.value_ofNat (n : ℕ) (negative : Bool) :
    (Numeral.ofNat n).value negative = .int (if negative then -(n : ℤ) else n) := by
  simp [Numeral.value, Numeral.ofNat]

/-- A number below one: zeros stand between the point and the digits. -/
theorem exists_numeral_of_nonpos (hds : Significant ds) (hpoint : point ≤ 0) (negative : Bool) :
    ∃ t : Numeral, t.text = (RealLayout.standard.positional ds point).toList ∧
      t.value negative =
        .real (Binary64.ofDecimal negative (ofAsciiDigits ds) (point - ds.length)) := by
  obtain ⟨fraction, hfraction⟩ : ∃ fraction, List.replicate (-point).toNat '0' ++ ds = fraction :=
    ⟨_, rfl⟩
  have hfractionDigits : Digits fraction :=
    hfraction ▸ digits_append.2 ⟨digits_replicate_zero _, hds.2.1⟩
  have hne : fraction ≠ [] := hfraction ▸ List.append_ne_nil_of_right_ne_nil _ hds.1
  have hlength : (fraction.length : ℤ) = ds.length - point := by
    rw [← hfraction, List.length_append, List.length_replicate]
    omega
  have hzeros : ofAsciiDigits ('0' :: fraction) = ofAsciiDigits ds := by
    rw [← hfraction, ← List.cons_append, ← List.replicate_succ, ofAsciiDigits_zeros_append]
  refine ⟨⟨['0'], fraction, none, .inl rfl, hfractionDigits, by simp⟩, ?_, ?_⟩
  · simp [RealLayout.positional, hpoint, Numeral.text, Numeral.exponentText,
      Numeral.fractionText_of_ne_nil hne, RealLayout.zeros, hfraction]
  · simp [Numeral.value, Numeral.exponentValue, hne, hzeros, hlength]

/-- A whole number: zeros stand between the digits and the point. -/
theorem exists_numeral_of_le (hds : Significant ds) (hpoint : 0 < point) {k : ℕ}
    (hk : point = ds.length + k) (negative : Bool) :
    ∃ t : Numeral, t.text = (RealLayout.standard.positional ds point).toList ∧
      t.value negative =
        .real (Binary64.ofDecimal negative (ofAsciiDigits ds * tenPow (k + 1)) (-1)) := by
  obtain ⟨hne, hdigits, hhead⟩ := hds
  have hlong : ds.length ≤ point.toNat := by omega
  have hzeros : point.toNat - ds.length = k := by omega
  have hvalue : ofAsciiDigits (ds ++ List.replicate k '0' ++ ['0']) =
      ofAsciiDigits ds * tenPow (k + 1) := by
    rw [List.append_assoc, ← List.replicate_succ', ofAsciiDigits_append_zeros]
  refine ⟨⟨ds ++ List.replicate k '0', ['0'], none, .inr ⟨?_, ?_, ?_⟩, digits_replicate_zero 1,
    by simp⟩, ?_, ?_⟩
  · exact List.append_ne_nil_of_left_ne_nil hne _
  · exact digits_append.2 ⟨hdigits, digits_replicate_zero k⟩
  · rwa [List.head?_append_of_ne_nil _ hne]
  · simp [RealLayout.positional, hpoint.not_ge, hlong, hzeros, Numeral.text, Numeral.exponentText,
      Numeral.fractionText, RealLayout.zeros, RealLayout.standard]
  · simp only [Numeral.value, Numeral.exponentValue, hvalue]
    rfl

/-- The point stands between two digits. -/
theorem exists_numeral_of_lt (hds : Significant ds) (hpoint : 0 < point)
    (hshort : point < ds.length) (negative : Bool) :
    ∃ t : Numeral, t.text = (RealLayout.standard.positional ds point).toList ∧
      t.value negative =
        .real (Binary64.ofDecimal negative (ofAsciiDigits ds) (point - ds.length)) := by
  obtain ⟨hne, hdigits, hhead⟩ := hds
  obtain ⟨p, rfl⟩ := Int.eq_ofNat_of_zero_le hpoint.le
  have hlong : ¬ ds.length ≤ p := by omega
  have hdrop : ds.drop p ≠ [] := by simpa using hlong
  have htake : ds.take p ≠ [] := by
    simp only [ne_eq, List.take_eq_nil_iff, not_or]
    exact ⟨by omega, hne⟩
  have hsplit : Digits (ds.take p) ∧ Digits (ds.drop p) :=
    digits_append.1 ((List.take_append_drop p ds).symm ▸ hdigits)
  have hhead' : (ds.take p).head? ≠ some '0' := by
    rwa [← List.head?_append_of_ne_nil _ htake, List.take_append_drop]
  have hexponent : -((ds.drop p).length : ℤ) = p - ds.length := by
    rw [List.length_drop]
    omega
  have hempty : (ds.drop p).isEmpty = false := by simpa using hdrop
  refine ⟨⟨ds.take p, ds.drop p, none, .inr ⟨htake, hsplit.1, hhead'⟩, hsplit.2, by simp⟩, ?_, ?_⟩
  · rw [RealLayout.positional, if_neg hpoint.not_ge, Int.toNat_natCast, if_neg hlong]
    simp [Numeral.text, Numeral.exponentText, Numeral.fractionText_of_ne_nil hdrop]
  · simp only [Numeral.value, Numeral.exponentValue, hempty, Bool.false_and, Bool.false_eq_true,
      if_false, List.take_append_drop, Option.map_none, Option.getD_none, zero_sub, hexponent]

/-- Digits with a point are the text of a numeral. -/
theorem exists_numeral_positional (hds : Significant ds) (point : ℤ) (negative : Bool) :
    ∃ (t : Numeral) (j : ℕ), t.text = (RealLayout.standard.positional ds point).toList ∧
      t.value negative = .real (Binary64.ofDecimal negative (ofAsciiDigits ds * tenPow j)
        (point - ds.length - j)) := by
  obtain hpoint | hpoint := le_or_gt point 0
  · obtain ⟨t, htext, hvalue⟩ := exists_numeral_of_nonpos hds hpoint negative
    exact ⟨t, 0, htext, by simpa using hvalue⟩
  obtain hshort | hlong := lt_or_ge point ds.length
  · obtain ⟨t, htext, hvalue⟩ := exists_numeral_of_lt hds hpoint hshort negative
    exact ⟨t, 0, htext, by simpa using hvalue⟩
  · obtain ⟨k, hk⟩ := Int.le.dest hlong
    obtain ⟨t, htext, hvalue⟩ := exists_numeral_of_le hds hpoint hk.symm negative
    have hexponent : point - ds.length - (k + 1 : ℕ) = -1 := by omega
    exact ⟨t, k + 1, htext, by rw [hvalue, hexponent]⟩

/-- The digits of an exponent, of which there are at least two. -/
theorem exists_exponentDigits (exponent : ℤ) :
    ∃ es, RealLayout.zeros (RealLayout.standard.exponentWidth - (toString exponent.natAbs).length) ++
        toString exponent.natAbs = String.ofList es ∧ es ≠ [] ∧ Digits es ∧
      Numeral.exponentValue (some (decide (exponent < 0), es)) = some exponent := by
  have htoString : toString exponent.natAbs = String.ofList (Nat.toDigits 10 exponent.natAbs) := rfl
  obtain ⟨zeros, hzeros⟩ : ∃ zeros,
      RealLayout.standard.exponentWidth - (toString exponent.natAbs).length = zeros := ⟨_, rfl⟩
  refine ⟨List.replicate zeros '0' ++ Nat.toDigits 10 exponent.natAbs, ?_, ?_, ?_, ?_⟩
  · rw [hzeros, htoString, RealLayout.zeros, String.ofList_append]
  · exact List.append_ne_nil_of_right_ne_nil _ Nat.toDigits_ne_nil
  · exact digits_append.2 ⟨digits_replicate_zero _, digits_toDigits _⟩
  · simp only [Numeral.exponentValue, Option.map_some, ofAsciiDigits_zeros_append,
      ofAsciiDigits_toDigits, decide_eq_true_eq, Option.some.injEq]
    split <;> omega

/-- Digits with an exponent are the text of a numeral. -/
theorem exists_numeral_scientific (hds : Significant ds) (exponent : ℤ) (negative : Bool) :
    ∃ t : Numeral, t.text = (RealLayout.standard.scientific ds exponent).toList ∧
      t.value negative = .real (Binary64.ofDecimal negative (ofAsciiDigits ds)
        (exponent + 1 - ds.length)) := by
  obtain ⟨hne, hdigits, hhead⟩ := hds
  obtain ⟨d, fraction, rfl⟩ := List.exists_cons_of_ne_nil hne
  obtain ⟨es, htext, hesne, hes, hvalue⟩ := exists_exponentDigits exponent
  refine ⟨⟨[d], fraction, some (decide (exponent < 0), es), .inr ⟨by simp, ?_, hhead⟩, ?_, ?_⟩,
    ?_, ?_⟩
  · exact fun c hc => hdigits c (List.mem_cons.2 (.inl (List.mem_singleton.1 hc)))
  · exact fun c hc => hdigits c (List.mem_cons_of_mem d hc)
  · simpa using ⟨hesne, hes⟩
  · have hsign : (if exponent < 0 then "e-" else "e+").toList =
        ['e', if decide (exponent < 0) then '-' else '+'] := by
      by_cases hneg : exponent < 0 <;> simp [hneg]
    unfold RealLayout.scientific
    simp only [String.append_assoc, htext, String.toList_append, hsign, String.toList_ofList]
    cases fraction <;> simp [Numeral.text, Numeral.exponentText, Numeral.fractionText]
  · have hexponent : exponent - (fraction.length : ℤ) = exponent + 1 - (d :: fraction).length := by
      rw [List.length_cons]
      omega
    simp only [Numeral.value, Option.isNone_some, Bool.and_false, Bool.false_eq_true, if_false,
      List.singleton_append, hvalue, Option.getD_some, hexponent]

/-- The text of a decimal is that of a numeral, which reads as the decimal with perhaps some zeros
after it. -/
theorem exists_numeral_decimal (d : Decimal) (negative : Bool) :
    ∃ (t : Numeral) (j : ℕ), t.text = (RealLayout.standard.decimal d).toList ∧
      t.value negative =
        .real (Binary64.ofDecimal negative (d.digits * tenPow j) (d.exponent - j)) := by
  unfold RealLayout.decimal
  dsimp only
  split
  · rename_i hzero
    refine ⟨⟨['0'], ['0'], none, .inl rfl, digits_replicate_zero 1, by simp⟩, 0, by decide, ?_⟩
    rw [hzero]
    simp [Numeral.value, ofAsciiDigits, Binary64.ofDecimal]
  rename_i hpos
  have hds := significant_toDigits hpos
  split
  · obtain ⟨t, j, htext, hvalue⟩ := exists_numeral_positional hds
      (d.exponent + (Nat.toDigits 10 d.digits).length - 1 + 1) negative
    refine ⟨t, j, htext, ?_⟩
    rw [hvalue, ofAsciiDigits_toDigits, sub_add_cancel, add_sub_cancel_right]
  · obtain ⟨t, htext, hvalue⟩ := exists_numeral_scientific hds
      (d.exponent + (Nat.toDigits 10 d.digits).length - 1) negative
    refine ⟨t, 0, htext, ?_⟩
    rw [hvalue, ofAsciiDigits_toDigits, sub_add_cancel, add_sub_cancel_right, tenPow_zero, mul_one,
      Nat.cast_zero, sub_zero]

/-! ### Reading what is written -/

/-- The text of a number begins with a digit. -/
theorem Numeral.exists_cons_text (t : Numeral) : ∃ d cs, t.text = d :: cs ∧ d.isDigit = true := by
  obtain hzero | ⟨hne, hdigits, -⟩ := t.whole_digits
  · exact ⟨'0', _, by rw [text, hzero]; rfl, rfl⟩
  · obtain ⟨d, ds, hwhole⟩ := List.exists_cons_of_ne_nil hne
    exact ⟨d, _, by rw [text, hwhole]; rfl, hdigits d (hwhole ▸ List.mem_cons_self)⟩

/-- The text of a number is plain. -/
theorem Numeral.plain_text (t : Numeral) : Plain t.text := by
  have hwhole : Plain t.whole := by
    obtain hzero | ⟨-, hdigits, -⟩ := t.whole_digits
    · rw [hzero]
      exact (digits_replicate_zero 1).plain
    · exact hdigits.plain
  have hfraction : Plain (fractionText t.fraction) := by
    have hdigits := t.fraction_digits
    generalize t.fraction = fraction at hdigits
    cases fraction with
    | nil => exact Text.plain_nil
    | cons d ds => exact Text.plain_cons.2 ⟨by decide, hdigits.plain⟩
  have hexponent : Plain (exponentText t.exponent) := by
    have hdigits := t.exponent_digits
    generalize t.exponent = exponent at hdigits
    cases exponent with
    | none => exact Text.plain_nil
    | some p =>
      refine Text.plain_cons.2 ⟨by decide, Text.plain_cons.2 ⟨?_, (hdigits p rfl).2.plain⟩⟩
      split <;> decide
  exact Text.plain_append.2 ⟨hwhole, Text.plain_append.2 ⟨hfraction, hexponent⟩⟩

/-- The text of a number with its sign. -/
def Numeral.signedText (t : Numeral) (negative : Bool) : List Char :=
  if negative then '-' :: t.text else t.text

/-- A number begins with its sign or with a digit. -/
theorem Numeral.exists_cons_signedText (t : Numeral) (negative : Bool) :
    ∃ c cs, t.signedText negative = c :: cs ∧ (c = '-' ∨ c.isDigit = true) := by
  obtain ⟨d, cs, htext, hd⟩ := t.exists_cons_text
  cases negative with
  | false => exact ⟨d, cs, htext, .inr hd⟩
  | true => exact ⟨'-', t.text, rfl, .inl rfl⟩

theorem Numeral.plain_signedText (t : Numeral) (negative : Bool) :
    Plain (t.signedText negative) := by
  cases negative with
  | false => exact t.plain_text
  | true => exact Text.plain_cons.2 ⟨by decide, t.plain_text⟩

/-- A number is read as it is written. -/
theorem Numeral.readScalar_signedText (t : Numeral) (negative : Bool) (hrest : Delimited rest) :
    readScalar (t.signedText negative ++ rest) = .ok (t.value negative, rest) := by
  have hread := readUnsigned?_text t negative hrest
  obtain ⟨d, cs, htext, hd⟩ := t.exists_cons_text
  rw [htext, List.cons_append] at hread
  cases negative with
  | true =>
    have hword : d ≠ 'I' := by
      rintro rfl
      cases hd
    simp [signedText, htext, readScalar, hword, hread]
  | false =>
    rw [signedText, if_neg Bool.false_ne_true, htext, List.cons_append]
    unfold readScalar
    split
    all_goals try (rename_i heq; obtain rfl := (List.cons.inj heq).1; cases hd)
    rw [hread]
    rfl

/-- A whole number is written as a numeral. -/
theorem exists_numeral_int (n : ℤ) : ∃ (t : Numeral) (negative : Bool),
    (toString n).toList = t.signedText negative ∧ t.value negative = .int n := by
  cases n with
  | ofNat n =>
    refine ⟨.ofNat n, false, ?_, Numeral.value_ofNat n false⟩
    rw [Numeral.signedText, if_neg Bool.false_ne_true, Numeral.text_ofNat]
    exact Nat.toList_repr
  | negSucc n =>
    refine ⟨.ofNat (n + 1), true, ?_, Numeral.value_ofNat (n + 1) true⟩
    rw [Numeral.signedText, if_pos rfl, Numeral.text_ofNat]
    exact (String.toList_append ..).trans (congrArg ('-' :: ·) Nat.toList_repr)

/-- A finite double is written as a numeral. -/
theorem exists_numeral_real {units : ℕ} (hunits : Binary64.Representable units) (negative : Bool) :
    ∃ t : Numeral, (writeReal (.finite negative units)).toList = t.signedText negative ∧
      t.value negative = .real (.finite negative units) := by
  obtain ⟨t, j, htext, hvalue⟩ := exists_numeral_decimal (Decimal.shortest units) negative
  rw [Decimal.ofDecimal_shortest hunits] at hvalue
  refine ⟨t, ?_, hvalue⟩
  cases negative <;> simp [Numeral.signedText, htext, writeReal, Binary64.render]

end Json

end QueryPlan
