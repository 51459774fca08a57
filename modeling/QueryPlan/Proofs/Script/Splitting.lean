import Mathlib
import QueryPlan.Proofs.Text.Digits
import QueryPlan.Script.Statements

/-!
# Splitting a script into statements

A statement goes on to the first semicolon, and after a semicolon the scan of a script stands as it
stood at the beginning. So what is split off up to a semicolon does not depend on what follows it,
and statements that are put together with line breaks are split off again. Literals are not looked
at: a semicolon within one ends the statement like any other.

## Main definitions

* `Terminated` : texts that begin with the word `select` and end with a semicolon.
* `numbered` : statements with the lines they begin on, when each begins on a line of its own.
* `outsideLiterals` : the characters of a text that stand in none of its literals.

## Main results

* `scan_append` : a scan begins anew after a semicolon.
* `notMem_dropLast_of_mem_statements` : no statement that is split off has a semicolon before its
  last character.
* `statements_intercalate` : statements put together with line breaks are split off again just when
  none has a semicolon before its last character.
-/

namespace QueryPlan.Script

open Text

variable {line start : Nat} {mode : Mode} {text more s : List Char}

/-! ### The word at the beginning of a statement -/

/-- A character without cases is only itself, if it is not the long s. -/
theorem isLetter_eq_false {letter c : Char} (hlower : c.toLower = c) (hlong : c ≠ 'ſ')
    (h : c ≠ letter) : isLetter letter c = false := by
  simp [isLetter, hlower, hlong, h]

/-- A semicolon is after the letters that a text begins with, and so is all that follows it. -/
theorem afterLetters?_append {letters : List Char} (hletters : ';' ∉ letters) (h : ';' ∈ text)
    (more : List Char) :
    afterLetters? letters (text ++ more) = (afterLetters? letters text).map (· ++ more) ∧
      ∀ rest ∈ afterLetters? letters text, ';' ∈ rest := by
  fun_induction afterLetters? letters text with
  | case1 text => exact ⟨by rw [afterLetters?]; rfl, by simpa [afterLetters?] using h⟩
  | case2 => cases h
  | case3 letter letters c text hc ih =>
    obtain ⟨hletter, hletters⟩ := not_or.1 (mt List.mem_cons.2 hletters)
    have hne : ';' ≠ c := by
      rintro rfl
      rw [isLetter_eq_false (by decide) (by decide) hletter] at hc
      cases hc
    rw [List.cons_append, afterLetters?, if_pos hc]
    exact ih hletters (List.mem_of_ne_of_mem hne h)
  | case4 letter letters c text hc =>
    rw [List.cons_append, afterLetters?, if_neg hc]
    exact ⟨rfl, nofun⟩

/-- Whether a statement begins at a text is seen before its first semicolon. -/
theorem beginsStatement_append (h : ';' ∈ text) (more : List Char) :
    beginsStatement (text ++ more) = beginsStatement text := by
  have hletters : ';' ∉ ['s', 'e', 'l', 'e', 'c', 't'] := by decide
  obtain ⟨happend, hmem⟩ := afterLetters?_append hletters h more
  rw [beginsStatement, beginsStatement, happend]
  cases hrest : afterLetters? ['s', 'e', 'l', 'e', 'c', 't'] text with
  | none => rfl
  | some rest =>
    cases rest with
    | nil => cases hmem [] hrest
    | cons c rest => rfl

theorem isLetter_of_beginsStatement {c : Char} (h : beginsStatement (c :: text) = true) :
    isLetter 's' c = true := by
  by_contra hc
  rw [beginsStatement, afterLetters?, if_neg hc] at h
  cases h

/-- No statement begins at a character that is not the first letter of the word. -/
theorem beginsStatement_eq_false {c : Char} (h : isLetter 's' c = false) :
    beginsStatement (c :: text) = false := by
  rw [← Bool.not_eq_true]
  intro hbegins
  rw [isLetter_of_beginsStatement hbegins] at h
  cases h

theorem beginsStatement_semicolon : beginsStatement (';' :: text) = false :=
  beginsStatement_eq_false (isLetter_eq_false (by decide) (by decide) (by decide))

/-- A letter is no blank, in either case. -/
theorem isBlank_of_isLetter {letter c : Char} (h : isLetter letter c = true)
    (hletter : isBlank letter = false) : isBlank c = false := by
  by_contra hc
  rw [Bool.not_eq_false] at hc
  -- a blank is no capital letter, so it is its own small letter
  have hlower : c.toLower = c := by
    have hcapital : ¬ (65 ≤ c.toNat ∧ c.toNat ≤ 90) := by
      simp only [isBlank, Bool.or_eq_true, Bool.and_eq_true, decide_eq_true_eq, beq_iff_eq] at hc
      omega
    exact dif_neg hcapital
  simp only [isLetter, hlower, Bool.or_eq_true, Bool.and_eq_true, decide_eq_true_eq] at h
  rcases h with rfl | ⟨rfl, rfl⟩
  · rw [hletter] at hc
    cases hc
  · revert hc
    decide

/-! ### Scanning up to a semicolon -/

/-- The lines of a text are counted character by character. -/
theorem nextLine_add_count (line : Nat) (c : Char) (text : List Char) :
    nextLine line c + text.count '\n' = line + (c :: text).count '\n' := by
  simp only [nextLine, List.count_cons, beq_iff_eq]
  split <;> omega

/-- Between statements a character is passed over if none begins there, and one may begin after it
if it is no word character. -/
theorem scan_between_cons {afterWord : Bool} {c : Char}
    (hbegins : beginsStatement (c :: text) = false) (hword : isWord c = false) :
    scan line (.between afterWord) (c :: text) = scan (nextLine line c) (.between false) text := by
  rw [scan, hbegins, Bool.and_false, if_neg Bool.false_ne_true, hword]

theorem scan_semicolon {afterWord : Bool} :
    scan line (.between afterWord) (';' :: text) = scan line (.between false) text :=
  scan_between_cons beginsStatement_semicolon (by decide +kernel)

/-- A line break between statements is passed over. -/
theorem scan_newline {afterWord : Bool} :
    scan line (.between afterWord) ('\n' :: text) = scan (line + 1) (.between false) text :=
  scan_between_cons (beginsStatement_eq_false
    (isLetter_eq_false (by decide) (by decide) (by decide))) (by decide +kernel)

/-- A scan begins anew after a semicolon. -/
theorem scan_append (h : text.getLast? = some ';') :
    scan line mode (text ++ more) =
      scan line mode text ++ scan (line + text.count '\n') (.between false) more := by
  obtain ⟨text, rfl⟩ := List.getLast?_eq_some_iff.1 h
  clear h
  rw [List.append_assoc, List.singleton_append]
  induction text generalizing line mode with
  | nil =>
    cases mode with
    | between afterWord =>
      simp only [List.nil_append, scan_semicolon, scan]
      rfl
    | within start read => rfl
  | cons c text ih =>
    rw [List.cons_append, List.cons_append, ← nextLine_add_count]
    cases mode with
    | between afterWord =>
      have hbegins : beginsStatement (c :: (text ++ ';' :: more)) =
          beginsStatement (c :: (text ++ [';'])) := by
        have hmem : ';' ∈ c :: (text ++ [';']) := by simp
        rw [← beginsStatement_append hmem more, List.cons_append, List.append_assoc,
          List.singleton_append]
      rw [scan, scan, hbegins]
      split <;> exact ih
    | within start read =>
      rw [scan, scan]
      split
      next hc =>
        subst hc
        exact congrArg (_ :: ·) ih
      · exact ih

/-- A statement goes on to the next semicolon. -/
theorem scan_within {read : List Char} (h : ';' ∉ text) :
    scan line (.within start read) (text ++ [';']) = [(start, read.reverse ++ text ++ [';'])] := by
  induction text generalizing line read with
  | nil => simp [scan]
  | cons c text ih =>
    obtain ⟨hc, htext⟩ := not_or.1 (mt List.mem_cons.2 h)
    rw [List.cons_append, scan, if_neg (Ne.symm hc), ih htext]
    simp

/-! ### Statements that end with a semicolon -/

/-- A text that begins with the word `select` and ends with a semicolon. -/
structure Terminated (s : List Char) : Prop where
  begins : beginsStatement s = true
  ends : s.getLast? = some ';'

namespace Terminated

/-- The word comes before the semicolon. -/
theorem exists_eq (h : Terminated s) : ∃ c cs, s = c :: (cs ++ [';']) := by
  obtain ⟨_ | ⟨c, cs⟩, rfl⟩ := List.getLast?_eq_some_iff.1 h.ends
  · have := h.begins
    rw [List.nil_append, beginsStatement_semicolon] at this
    cases this
  · exact ⟨c, cs, rfl⟩

/-- Nothing is taken off such a text, and nothing is put to its end. -/
theorem terminate_eq (h : Terminated s) : terminate s = String.ofList s := by
  obtain ⟨c, cs, rfl⟩ := h.exists_eq
  have hfirst := isBlank_of_isLetter (isLetter_of_beginsStatement h.begins) (by decide)
  have hlast : isBlank ';' = false := by decide
  have htrim : trim isBlank (c :: (cs ++ [';'])) = c :: (cs ++ [';']) :=
    trim_eq_self (by simpa using hfirst) (by rw [h.ends]; simpa using hlast)
  rw [terminate, htrim]
  exact congrArg String.ofList (if_pos h.ends)

/-- Such a text is split off whole if no other semicolon is in it. -/
theorem scan_eq (h : Terminated s) (hinner : ';' ∉ s.dropLast) (line : Nat) :
    scan line (.between false) s = [(line, s)] := by
  obtain ⟨c, cs, rfl⟩ := h.exists_eq
  rw [← List.cons_append, List.dropLast_concat] at hinner
  rw [scan, h.begins]
  exact scan_within fun hmem => hinner (List.mem_cons_of_mem c hmem)

end Terminated

/-- Statements with the numbers of the lines they begin on, when the first one begins on the given
line and each other one on the line after the end of the one before it. -/
def numbered (line : Nat) : List (List Char) → List Statement
  | [] => []
  | s :: ss => ⟨line, String.ofList s⟩ :: numbered (line + s.count '\n' + 1) ss

theorem mem_numbered {ss : List (List Char)} (h : s ∈ ss) (line : Nat) :
    ∃ n, ⟨n, String.ofList s⟩ ∈ numbered line ss := by
  induction ss generalizing line with
  | nil => cases h
  | cons t ss ih =>
    rcases List.mem_cons.1 h with rfl | h
    · exact ⟨line, List.mem_cons_self⟩
    · obtain ⟨n, hn⟩ := ih h (line + t.count '\n' + 1)
      exact ⟨n, List.mem_cons_of_mem _ hn⟩

/-- Statements that are put together with line breaks are split off one by one. -/
theorem map_scan_intercalate {ss : List (List Char)} (h : ∀ s ∈ ss, Terminated s)
    (hinner : ∀ s ∈ ss, ';' ∉ s.dropLast) :
    (scan line (.between false) (['\n'].intercalate ss)).map
      (fun found => ⟨found.1, terminate found.2⟩) = numbered line ss := by
  induction ss generalizing line with
  | nil => rfl
  | cons s ss ih =>
    obtain ⟨hs, hss⟩ := List.forall_mem_cons.1 h
    obtain ⟨hsinner, hssinner⟩ := List.forall_mem_cons.1 hinner
    have hone := hs.scan_eq hsinner line
    cases ss with
    | nil => simp [hone, hs.terminate_eq, numbered]
    | cons next ss =>
      rw [List.intercalate_cons_cons, List.append_assoc, scan_append hs.ends, hone,
        List.singleton_append, List.singleton_append, scan_newline, List.map_cons,
        ih hss hssinner, hs.terminate_eq]
      rfl

/-! ### Semicolons within a statement -/

/-- What a scan has read of a statement. -/
def Mode.read : Mode → List Char
  | .between _ => []
  | .within _ read => read

/-- A statement that is split off has no semicolon before its last character. -/
theorem notMem_dropLast_of_mem_scan {n : Nat} (hmode : ';' ∉ mode.read)
    (h : (n, s) ∈ scan line mode text) : ';' ∉ s.dropLast := by
  fun_induction scan line mode text with
  | case1 => cases h
  | case2 line start read =>
    obtain ⟨rfl, rfl⟩ := Prod.mk.inj (List.mem_singleton.1 h)
    exact fun hmem => hmode (List.mem_reverse.1 (List.mem_of_mem_dropLast hmem))
  | case3 line afterWord c cs hbegins ih =>
    refine ih ?_ h
    simp only [Mode.read, List.mem_singleton]
    rintro rfl
    simp [beginsStatement_semicolon] at hbegins
  | case4 line afterWord c cs hbegins ih => exact ih List.not_mem_nil h
  | case5 line start read cs ih =>
    rcases List.mem_cons.1 h with h | h
    · obtain ⟨rfl, rfl⟩ := Prod.mk.inj h
      rw [List.reverse_cons, List.dropLast_concat, List.mem_reverse]
      exact hmode
    · exact ih List.not_mem_nil h
  | case6 line start read c cs hc ih =>
    exact ih (fun hmem => (List.mem_cons.1 hmem).elim (fun hsame => hc hsame.symm) hmode) h

theorem trim_sublist (isPadding : Char → Bool) (cs : List Char) :
    (trim isPadding cs).Sublist cs := by
  have hend (es : List Char) : (trimEnd isPadding es).Sublist es := by
    rw [← List.reverse_sublist, trimEnd, List.reverse_reverse]
    exact List.dropWhile_sublist _
  exact (hend _).trans (List.dropWhile_sublist _)

/-- A text has no further semicolon before its last character when it is ended by one. -/
theorem notMem_dropLast_terminate (h : ';' ∉ s.dropLast) :
    ';' ∉ (terminate s).toList.dropLast := by
  have hdrop : (trim isBlank s).dropLast.Sublist s.dropLast := by
    rw [← List.reverse_sublist, ← List.tail_reverse, ← List.tail_reverse]
    exact (trim_sublist isBlank s).reverse.tail
  have htrim : ';' ∉ (trim isBlank s).dropLast := fun hmem => h (hdrop.subset hmem)
  rw [terminate, String.toList_ofList]
  split
  · exact htrim
  next hlast =>
    rw [List.dropLast_concat]
    intro hmem
    cases hend : (trim isBlank s).getLast? with
    | none => simp [List.getLast?_eq_none_iff.1 hend] at hmem
    | some c =>
      rw [← List.dropLast_append_getLast? c hend, List.mem_append, List.mem_singleton] at hmem
      exact hmem.elim htrim fun hc => hlast (hend.trans (congrArg some hc.symm))

/-- No statement of a script has a semicolon before its last character. -/
theorem notMem_dropLast_of_mem_statements {found : Statement} (h : found ∈ statements text) :
    ';' ∉ found.text.toList.dropLast := by
  obtain ⟨⟨n, s⟩, hmem, rfl⟩ := List.mem_map.1 h
  exact notMem_dropLast_terminate (notMem_dropLast_of_mem_scan List.not_mem_nil hmem)

/-! ### Statements put together -/

/-- Statements that are put together with line breaks are split off again, each with the number of
the line it begins on, just when none has a semicolon before its last character. Line breaks and the
word `select` may stand anywhere in them. -/
theorem statements_intercalate {ss : List (List Char)} (h : ∀ s ∈ ss, Terminated s) :
    statements (['\n'].intercalate ss) = numbered 1 ss ↔ ∀ s ∈ ss, ';' ∉ s.dropLast := by
  refine ⟨fun heq s hs => ?_, map_scan_intercalate h⟩
  obtain ⟨n, hn⟩ := mem_numbered hs 1
  have := notMem_dropLast_of_mem_statements (heq ▸ hn)
  rwa [String.toList_ofList] at this

theorem statements_intercalate_sample :
    statements "SELECT 'a\nselect b'\nFROM t;\nSELECT c FROM d;".toList =
      [⟨1, "SELECT 'a\nselect b'\nFROM t;"⟩, ⟨4, "SELECT c FROM d;"⟩] := by
  have hterminated : ∀ s ∈
      ["SELECT 'a\nselect b'\nFROM t;".toList, "SELECT c FROM d;".toList], Terminated s := by
    intro s hs
    rcases List.mem_pair.1 hs with rfl | rfl <;> exact ⟨by decide +kernel, by decide +kernel⟩
  exact (statements_intercalate hterminated).2 (by decide +kernel)

/-- The characters of a text that stand outside of its literals, which are written between single
quotes. -/
def outsideLiterals (inside : Bool) : List Char → List Char
  | [] => []
  | c :: cs =>
    if c = '\'' then outsideLiterals (!inside) cs
    else if inside then outsideLiterals inside cs
    else c :: outsideLiterals inside cs

/-- A semicolon within a literal ends a statement. -/
theorem statements_literal :
    ¬ ∀ ss : List (List Char),
      (∀ s ∈ ss, Terminated s ∧ ';' ∉ outsideLiterals false s.dropLast ∧ Even (s.count '\'')) →
      statements (['\n'].intercalate ss) = numbered 1 ss := by
  intro h
  have := h ["SELECT 'a;b';".toList] (by
    intro s hs
    rw [List.mem_singleton.1 hs]
    exact ⟨⟨by decide +kernel, by decide +kernel⟩, by decide +kernel, by decide +kernel⟩)
  revert this
  decide +kernel

end QueryPlan.Script
