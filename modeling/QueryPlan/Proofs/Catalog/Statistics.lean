import QueryPlan.Catalog.Statistics
import QueryPlan.Proofs.Text.Digits
import QueryPlan.Proofs.Text.Lines

/-!
# Reading statistics that were written

The numbers of the statistics of a table have neither blanks nor line breaks in them, so the lines
and words that they were put together from are found again, and each is read as its number.

## Main results

* `Statistics.ofLines_write` : statistics that were written are read back.
-/

namespace QueryPlan

namespace Text

variable {c : Char}

theorem isLineBreak_of_isDigit (h : c.isDigit = true) : isLineBreak c = false := by
  have hc := toNat_of_isDigit h
  simp [isLineBreak]
  omega

theorem toDigits_word (n : ℕ) :
    Nat.toDigits 10 n ≠ [] ∧ ∀ c ∈ Nat.toDigits 10 n, isBlank c = false :=
  ⟨Nat.toDigits_ne_nil, fun c hc => isBlank_of_isDigit (digits_toDigits n c hc)⟩

end Text

open Text

namespace Statistics

variable (n : ℕ) (counts : List ℕ)

/-- The characters of statistics that are written. -/
theorem toList_write :
    (write (toString n) (counts.map toString)).toList = Nat.toDigits 10 n ++ '\n' ::
      ([' '].intercalate (counts.map (Nat.toDigits 10)) ++ ['\n']) := by
  have hmap : (counts.map toString).map String.toList = counts.map (Nat.toDigits 10) := by
    rw [List.map_map]
    exact List.map_congr_left fun m _ => toList_toString m
  simp [write, String.toList_intercalate, hmap]

/-- Statistics are written in plain text. -/
theorem plain_write : Plain (write (toString n) (counts.map toString)).toList := by
  have hcounts : Plain ([' '].intercalate (counts.map (Nat.toDigits 10))) := by
    refine forall_mem_intercalate (by decide) fun w hw => ?_
    obtain ⟨m, -, rfl⟩ := List.mem_map.1 hw
    exact (digits_toDigits m).plain
  have hbreak : IsPlain '\n' := by decide
  rw [toList_write]
  simp [(digits_toDigits n).plain, hcounts, hbreak]

theorem readCounts_toString : readCounts (counts.map toString) = .ok (counts.map Int.ofNat) := by
  induction counts with
  | nil => rfl
  | cons m counts ih =>
    rw [List.map_cons, readCounts, readInteger?_toString, ih]
    rfl

/-- The lines of statistics that are written. -/
theorem splitLines_write :
    splitLines (write (toString n) (counts.map toString)).toList =
      [Nat.toDigits 10 n, [' '].intercalate (counts.map (Nat.toDigits 10))] := by
  have hfirst : ∀ c ∈ Nat.toDigits 10 n, isLineBreak c = false := fun c hc =>
    isLineBreak_of_isDigit (digits_toDigits n c hc)
  have hsecond : ∀ c ∈ [' '].intercalate (counts.map (Nat.toDigits 10)), isLineBreak c = false := by
    refine forall_mem_intercalate rfl fun w hw c hc => ?_
    obtain ⟨m, -, rfl⟩ := List.mem_map.1 hw
    exact isLineBreak_of_isDigit (digits_toDigits m c hc)
  rw [toList_write, splitLines_append_cons hfirst, splitLines_append_cons hsecond]
  rfl

/-- The words of a line of numbers are the numbers. -/
theorem fields_intercalate :
    fields (String.ofList ([' '].intercalate (counts.map (Nat.toDigits 10)))) =
      counts.map toString := by
  have hwords : ∀ w ∈ counts.map (Nat.toDigits 10), w ≠ [] ∧ ∀ c ∈ w, isBlank c = false := by
    intro w hw
    obtain ⟨m, -, rfl⟩ := List.mem_map.1 hw
    exact toDigits_word m
  rw [fields, String.toList_ofList, words_intercalate hwords, List.map_map]
  refine List.map_congr_left fun m _ => ?_
  rw [Function.comp_apply, ← toList_toString, String.ofList_toList]

/-- Natural numbers are none of them negative. -/
theorem ofCounts_ofNat : ofCounts (Int.ofNat n) (counts.map Int.ofNat) = .ok ⟨n, counts⟩ := by
  have hnonneg : (decide (Int.ofNat n < 0) || (counts.map Int.ofNat).any (· < 0)) = false := by
    simp [Int.ofNat_eq_natCast]
  have htoNat : (counts.map Int.ofNat).map Int.toNat = counts := by
    rw [List.map_map]
    exact List.map_id counts
  rw [ofCounts, hnonneg, if_neg Bool.false_ne_true, htoNat]
  rfl

/-- Statistics that were written are read back. -/
theorem ofLines_write :
    ofLines counts.length
        ((splitLines (write (toString n) (counts.map toString)).toList).map String.ofList) =
      .ok ⟨n, counts⟩ := by
  have hfirst : fields (String.ofList (Nat.toDigits 10 n)) = [toString n] := by
    simpa using fields_intercalate [n]
  have hcount := readCounts_toString [n]
  rw [splitLines_write]
  simp only [List.map_cons, List.map_nil] at hcount ⊢
  simp only [ofLines, hfirst, fields_intercalate, hcount, readCounts_toString, List.length_map,
    ne_eq, not_true_eq_false, if_false, List.headD_cons, ofCounts_ofNat]

end Statistics

end QueryPlan
