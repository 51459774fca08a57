import QueryPlan.Json.Printer
import QueryPlan.Json.Reader
import QueryPlan.Proofs.Text.Plain

/-!
# Strings in JSON texts

Every character of a string is written as a piece of its own: itself, a backslash and a letter, or
one or two escapes of code units. A character is never a surrogate, so one escape stands for a
character of at most 16 bits and two for any other; a string is read one piece at a time.

## Main results

* `Json.readString_escapeChar` : a piece is read as its character.
* `Json.readString_flatMap` : a string is read as it was written.
-/

namespace QueryPlan.Json

open Text

variable {c : Char} {cs rest : List Char} {n opening fuel : ℕ}

/-! ### Escapes -/

theorem hexValue?_digitChar (hn : n < 16) : hexValue? (Nat.digitChar n) = some n := by
  interval_cases n <;> rfl

/-- Four digits of a code unit are read as that unit. -/
theorem hexFour?_hexDigits (hn : n < 0x10000) (rest : List Char) :
    hexFour? (hexDigits 4 n ++ rest) = some (n, rest) := by
  have hdigit (k : ℕ) : hexValue? (Nat.digitChar (k % 16)) = some (k % 16) :=
    hexValue?_digitChar (Nat.mod_lt k (by decide))
  simp only [hexDigits, List.nil_append, List.cons_append, hexFour?, hdigit]
  congr 2
  omega

/-- A character is a code point of its own: it is no surrogate. -/
theorem toNat_valid (c : Char) : c.toNat < 0xd800 ∨ 0xdfff < c.toNat ∧ c.toNat < 0x110000 :=
  c.valid

/-- One escape stands for a character of at most 16 bits. -/
theorem unicodeEscape_toNat (hsmall : c.toNat < 0x10000) (rest : List Char) :
    unicodeEscape c.toNat rest = (c, rest) := by
  have hvalid := toNat_valid c
  rw [unicodeEscape, if_neg (by simp; omega), if_neg (by simp; omega), Char.ofNat_toNat]

/-- Two escapes stand for any other character. -/
theorem unicodeEscape_pair (hlarge : ¬c.toNat < 0x10000) (rest : List Char) :
    unicodeEscape (0xd800 + (c.toNat - 0x10000) / 0x400)
      (escapeUnit (0xdc00 + (c.toNat - 0x10000) % 0x400) ++ rest) = (c, rest) := by
  have hvalid := toNat_valid c
  have hlow : lowSurrogate? (escapeUnit (0xdc00 + (c.toNat - 0x10000) % 0x400) ++ rest) =
      some (0xdc00 + (c.toNat - 0x10000) % 0x400, rest) := by
    rw [escapeUnit, List.cons_append, List.cons_append, lowSurrogate?,
      hexFour?_hexDigits (by omega)]
    simp
    omega
  have hvalue : 0x10000 + (0xd800 + (c.toNat - 0x10000) / 0x400 - 0xd800) * 0x400 +
      (0xdc00 + (c.toNat - 0x10000) % 0x400 - 0xdc00) = c.toNat := by omega
  rw [unicodeEscape, if_pos (by simp; omega), hlow]
  simp only [hvalue, Char.ofNat_toNat]

/-! ### Strings -/

/-- An escape of code units is read as the character that it stands for. -/
theorem readString_escapeUnit {after : List Char} (hn : n < 0x10000)
    (hread : unicodeEscape n after = (c, rest)) :
    readString opening (fuel + 1) (escapeUnit n ++ after) =
      (readString opening fuel rest).map fun (s, tail) => (c :: s, tail) := by
  simp only [escapeUnit, List.cons_append, readString, hexFour?_hexDigits hn, hread]

/-- What is written for a character is read as that character. -/
theorem readString_escapeChar (opening fuel : ℕ) (c : Char) (rest : List Char) :
    readString opening (fuel + 1) (escapeChar c ++ rest) =
      (readString opening fuel rest).map fun (s, tail) => (c :: s, tail) := by
  unfold escapeChar
  dsimp only
  split_ifs with hquote hline hreturn htab hback hfeed hplain hsmall
  · simp only [Bool.or_eq_true, decide_eq_true_eq] at hquote
    obtain rfl | rfl := hquote <;> rfl
  · rw [hline]
    rfl
  · rw [hreturn]
    rfl
  · rw [htab]
    rfl
  · obtain rfl : c = '\x08' := Char.toNat_inj.1 hback
    rfl
  · obtain rfl : c = '\x0c' := Char.toNat_inj.1 hfeed
    rfl
  · have hprintable : ¬c.toNat < 0x20 := by
      simp only [Bool.and_eq_true, decide_eq_true_eq] at hplain
      omega
    simp only [Bool.or_eq_true, decide_eq_true_eq, not_or] at hquote
    simp [readString, hquote, hprintable]
  · exact readString_escapeUnit hsmall (unicodeEscape_toNat hsmall rest)
  · rw [List.append_assoc]
    refine readString_escapeUnit ?_ (unicodeEscape_pair hsmall rest)
    have hvalid := toNat_valid c
    omega

/-- A string is read as it was written. -/
theorem readString_flatMap (opening : ℕ) (s rest : List Char) (hfuel : s.length < fuel) :
    readString opening fuel (s.flatMap escapeChar ++ '"' :: rest) = .ok (s, rest) := by
  induction s generalizing fuel with
  | nil =>
    obtain ⟨fuel, rfl⟩ := Nat.exists_eq_succ_of_ne_zero hfuel.ne'
    rfl
  | cons c s ih =>
    obtain ⟨fuel, rfl⟩ := Nat.exists_eq_succ_of_ne_zero (Nat.ne_zero_of_lt hfuel)
    rw [List.flatMap_cons, List.append_assoc, readString_escapeChar,
      ih (Nat.lt_of_succ_lt_succ hfuel)]
    rfl

/-- Every character is written by at least one. -/
theorem length_le_length_flatMap (s : List Char) : s.length ≤ (s.flatMap escapeChar).length := by
  have hpos (c : Char) : 0 < (escapeChar c).length := by
    unfold escapeChar escapeUnit
    dsimp only
    split_ifs <;> simp
  induction s with
  | nil => exact Nat.zero_le _
  | cons c s ih =>
    rw [List.flatMap_cons, List.length_append, List.length_cons]
    have := hpos c
    omega

/-! ### Plain text -/

theorem isPlain_digitChar (hn : n < 16) : IsPlain (Nat.digitChar n) := by
  interval_cases n <;> decide

theorem plain_escapeUnit (n : ℕ) : Plain (escapeUnit n) := by
  have hdigit (k : ℕ) : IsPlain (Nat.digitChar (k % 16)) :=
    isPlain_digitChar (Nat.mod_lt k (by decide))
  simp only [escapeUnit, hexDigits, List.nil_append, List.cons_append, plain_cons, hdigit,
    plain_nil, and_self, and_true]
  decide

theorem plain_escapeChar (c : Char) : Plain (escapeChar c) := by
  unfold escapeChar
  dsimp only
  split_ifs with hquote hline hreturn htab hback hfeed hplain hsmall
  · simp only [Bool.or_eq_true, decide_eq_true_eq] at hquote
    obtain rfl | rfl := hquote <;> simp only [plain_cons, plain_nil] <;> decide
  iterate 5 simp only [plain_cons, plain_nil]; decide
  · simp only [Bool.and_eq_true, decide_eq_true_eq] at hplain
    exact plain_cons.2 ⟨.inr hplain, plain_nil⟩
  · exact plain_escapeUnit _
  · exact plain_append.2 ⟨plain_escapeUnit _, plain_escapeUnit _⟩

theorem toList_writeString (s : String) :
    (writeString s).toList = '"' :: (s.toList.flatMap escapeChar ++ ['"']) := by
  rw [writeString, String.toList_ofList, List.cons_append]

/-- A string is written in plain text. -/
theorem plain_writeString (s : String) : Plain (writeString s).toList := by
  rw [toList_writeString]
  have hquote : IsPlain '"' := by decide
  refine plain_cons.2 ⟨hquote, plain_append.2 ⟨fun c hc => ?_, plain_cons.2 ⟨hquote, plain_nil⟩⟩⟩
  obtain ⟨a, -, ha⟩ := List.mem_flatMap.1 hc
  exact plain_escapeChar a c ha

end QueryPlan.Json
