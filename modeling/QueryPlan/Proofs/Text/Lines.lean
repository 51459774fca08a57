import Mathlib
import QueryPlan.Text.Characters

/-!
# Lines and words

Lines that are put together with line feeds, and words that are put together with blanks, are found
again: a line goes on to the first line break, and a word to the first blank.

## Main results

* `Text.splitLines_append_cons` : a line without line breaks is found again.
* `Text.lineInduction` : induction on the lines of a text, from the last one on.
* `Text.words_intercalate` : words without blanks are found again.
-/

namespace QueryPlan.Text

variable {line text : List Char} {words : List (List Char)} {c : Char}

/-! ### Lines -/

/-- A character that breaks no line is the first one of the first line. -/
theorem splitLines_cons (hc : isLineBreak c = false) (cs : List Char) :
    splitLines (c :: cs) =
      match splitLines cs with
      | [] => [[c]]
      | line :: more => (c :: line) :: more := by
  have hreturn : c ≠ '\r' := by
    rintro rfl
    cases hc
  rw [splitLines, hc]
  · rfl
  · exact fun _ h => absurd h hreturn

/-- A line without line breaks is found again. -/
theorem splitLines_append_cons (h : ∀ c ∈ line, isLineBreak c = false) (cs : List Char) :
    splitLines (line ++ '\n' :: cs) = line :: splitLines cs := by
  induction line with
  | nil => simp [splitLines, isLineBreak]
  | cons c line ih =>
    obtain ⟨hc, hline⟩ := List.forall_mem_cons.1 h
    rw [List.cons_append, splitLines_cons hc, ih hline]

/-- A text without line breaks is one line, unless it is empty. -/
theorem splitLines_eq_singleton (h : ∀ c ∈ line, isLineBreak c = false) (hne : line ≠ []) :
    splitLines line = [line] := by
  induction line with
  | nil => exact absurd rfl hne
  | cons c line ih =>
    obtain ⟨hc, hline⟩ := List.forall_mem_cons.1 h
    cases line with
    | nil => rw [splitLines_cons hc, splitLines]
    | cons d line => rw [splitLines_cons hc, ih hline nofun]

/-- What holds of texts without line feeds, and of a line put before a text of which it holds,
holds of every text. -/
@[elab_as_elim]
theorem lineInduction {motive : List Char → Prop} (last : ∀ text, '\n' ∉ text → motive text)
    (line : ∀ text more, '\n' ∉ text → motive more → motive (text ++ '\n' :: more)) :
    ∀ text, motive text := by
  intro text
  induction hn : text.length using Nat.strong_induction_on generalizing text with
  | _ n ih =>
    by_cases hmem : '\n' ∈ text
    · obtain ⟨first, more, rfl, hfirst⟩ := List.eq_append_cons_of_mem hmem
      refine line first more hfirst (ih more.length ?_ more rfl)
      simp only [List.length_append, List.length_cons] at hn
      omega
    · exact last text hmem

/-- A text without line feeds has no line breaks, if there are no others in it. -/
theorem forall_isLineBreak_eq_false (hbreaks : ∀ c ∈ text, isLineBreak c = true → c = '\n')
    (h : '\n' ∉ text) : ∀ c ∈ text, isLineBreak c = false := by
  intro c hc
  rw [Bool.eq_false_iff]
  intro hbreak
  exact h (hbreaks c hc hbreak ▸ hc)

/-! ### Words -/

/-- A word without blanks in front of a blank is found again. -/
theorem splitBlanks_append_cons (h : ∀ c ∈ line, isBlank c = false) (cs : List Char) :
    splitBlanks (line ++ ' ' :: cs) = line :: splitBlanks cs := by
  induction line with
  | nil => simp [splitBlanks, isBlank]
  | cons c line ih =>
    obtain ⟨hc, hline⟩ := List.forall_mem_cons.1 h
    rw [List.cons_append, splitBlanks, if_neg (by simp [hc]), ih hline]

/-- A text without blanks is one word. -/
theorem splitBlanks_of_no_blank (h : ∀ c ∈ line, isBlank c = false) :
    splitBlanks line = [line] := by
  induction line with
  | nil => rfl
  | cons c line ih =>
    obtain ⟨hc, hline⟩ := List.forall_mem_cons.1 h
    rw [splitBlanks, if_neg (by simp [hc]), ih hline]

/-- Words without blanks are found again between the blanks that they were put together with. -/
theorem words_intercalate (h : ∀ w ∈ words, w ≠ [] ∧ ∀ c ∈ w, isBlank c = false) :
    (splitBlanks ([' '].intercalate words)).filter (!·.isEmpty) = words := by
  induction words with
  | nil => rfl
  | cons w words ih =>
    obtain ⟨⟨hne, hw⟩, hwords⟩ := List.forall_mem_cons.1 h
    cases words with
    | nil => simp [splitBlanks_of_no_blank hw, hne]
    | cons next words =>
      rw [List.intercalate_cons_cons, List.append_assoc, List.singleton_append,
        splitBlanks_append_cons hw, List.filter_cons, if_pos (by simpa using hne), ih hwords]

/-- What holds of a blank and of all characters of some words holds of all characters of the words
put together. -/
theorem forall_mem_intercalate {P : Char → Prop} (hblank : P ' ')
    (h : ∀ w ∈ words, ∀ c ∈ w, P c) : ∀ c ∈ [' '].intercalate words, P c := by
  induction words with
  | nil => simp
  | cons w words ih =>
    obtain ⟨hw, hwords⟩ := List.forall_mem_cons.1 h
    cases words with
    | nil => simpa using hw
    | cons next words =>
      rw [List.intercalate_cons_cons, List.append_assoc, List.singleton_append]
      exact List.forall_mem_append.2 ⟨hw, List.forall_mem_cons.2 ⟨hblank, ih hwords⟩⟩

end QueryPlan.Text
