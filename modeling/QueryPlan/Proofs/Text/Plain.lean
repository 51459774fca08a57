import Mathlib
import QueryPlan.Text.Characters
import QueryPlan.Text.Utf8

/-!
# Plain texts

A plain text has only printable ASCII and line feeds. It takes one byte for each character, and it
is read from a file as it was written: neither the bytes nor the line ends can be taken for anything
else.

## Main definitions

* `Text.Plain` : a text of printable ASCII and line feeds.

## Main results

* `Utf8.decode_toUTF8_of_plain` : the bytes of a plain text are read as that text.
* `Text.unifyLineEnds_of_plain` : the line ends of a plain text stay as they are.
-/

namespace QueryPlan

namespace Text

variable {c : Char} {cs ds : List Char}

/-- A printable ASCII character or a line feed. -/
def IsPlain (c : Char) : Prop := c = '\n' ∨ 0x20 ≤ c.toNat ∧ c.toNat ≤ 0x7e

instance (c : Char) : Decidable (IsPlain c) := inferInstanceAs (Decidable (_ ∨ _))

/-- A text of printable ASCII and line feeds. -/
def Plain (cs : List Char) : Prop := ∀ c ∈ cs, IsPlain c

instance (cs : List Char) : Decidable (Plain cs) := inferInstanceAs (Decidable (∀ c ∈ cs, _))

@[simp] theorem plain_nil : Plain [] := nofun

@[simp] theorem plain_cons : Plain (c :: cs) ↔ IsPlain c ∧ Plain cs := List.forall_mem_cons

@[simp] theorem plain_append : Plain (cs ++ ds) ↔ Plain cs ∧ Plain ds := List.forall_mem_append

theorem IsPlain.toNat_lt (h : IsPlain c) : c.toNat < 0x80 := by
  obtain rfl | ⟨-, h⟩ := h
  · decide
  · omega

/-- A text without carriage returns keeps its line ends. -/
theorem unifyLineEnds_of_plain (h : Plain cs) : unifyLineEnds cs = cs := by
  induction cs with
  | nil => rfl
  | cons c cs ih =>
    obtain ⟨hc, hcs⟩ := plain_cons.1 h
    have hreturn : c ≠ '\r' := by
      rintro rfl
      revert hc
      decide
    rw [unifyLineEnds, ih hcs]
    all_goals simp_all

end Text

namespace Utf8

open Text

variable {cs : List Char} {s : String}

/-- The bytes of an array from a position on. -/
theorem toList_loop (bytes : ByteArray) (i : ℕ) (taken : List UInt8) :
    ByteArray.toList.loop bytes i taken = taken.reverse ++ bytes.data.toList.drop i := by
  induction hleft : bytes.size - i generalizing i taken with
  | zero =>
    have hend : bytes.data.toList.length ≤ i := by
      rw [Array.length_toList]
      exact Nat.sub_eq_zero_iff_le.1 hleft
    rw [ByteArray.toList.loop, if_neg (by omega), List.drop_eq_nil_of_le hend, List.append_nil]
  | succ left ih =>
    have hi : i < bytes.data.size := Nat.lt_of_sub_pos (hleft ▸ left.succ_pos)
    have hget : bytes.get! i = bytes.data[i] := getElem!_pos bytes.data i hi
    rw [ByteArray.toList.loop, if_pos (by omega), ih _ _ (by omega), hget, List.reverse_cons,
      List.append_assoc, List.singleton_append, ← Array.getElem_toList, List.cons_getElem_drop_succ]

theorem toList_eq (bytes : ByteArray) : bytes.toList = bytes.data.toList := by
  rw [ByteArray.toList, toList_loop, List.drop_zero, List.reverse_nil, List.nil_append]

/-- A plain character takes one byte. -/
theorem utf8EncodeChar_of_plain {c : Char} (h : IsPlain c) :
    String.utf8EncodeChar c = [UInt8.ofNat c.toNat] := by
  have hlt : c.toNat < 0x80 := h.toNat_lt
  have hle : c.val.toNat ≤ 127 := Nat.le_of_lt_succ hlt
  unfold String.utf8EncodeChar
  exact if_pos hle

theorem decodeFrom_of_plain (h : Plain cs) (position : ℕ) :
    decodeFrom position none (cs.flatMap String.utf8EncodeChar) = .ok cs := by
  induction cs generalizing position with
  | nil => rfl
  | cons c cs ih =>
    obtain ⟨hc, hcs⟩ := plain_cons.1 h
    have hlt : c.toNat < 0x80 := hc.toNat_lt
    have hbyte : (UInt8.ofNat c.toNat).toNat = c.toNat := by
      rw [UInt8.toNat_ofNat']
      omega
    rw [List.flatMap_cons, utf8EncodeChar_of_plain hc, List.singleton_append, decodeFrom, hbyte,
      if_pos hlt, ih hcs, Char.ofNat_toNat]
    rfl

/-- The bytes of a plain text are read as that text. -/
theorem decode_toUTF8_of_plain (h : Plain s.toList) : decode s.toUTF8 = .ok s.toList := by
  have hbytes : s.toUTF8.toList = s.toList.flatMap String.utf8EncodeChar := by
    obtain ⟨cs, rfl⟩ : ∃ cs, s = String.ofList cs := ⟨s.toList, String.ofList_toList.symm⟩
    rw [toList_eq, String.toUTF8_eq_toByteArray, String.toByteArray_ofList, List.utf8Encode,
      List.data_toByteArray, String.toList_ofList]
  rw [decode, hbytes]
  exact decodeFrom_of_plain h 0

end Utf8

end QueryPlan
