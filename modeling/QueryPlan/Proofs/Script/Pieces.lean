import Mathlib
import QueryPlan.Proofs.Script.Splitting
import QueryPlan.Proofs.Text.Lines
import QueryPlan.Script.Statements

/-!
# Scripts read piece by piece

A scan of a script begins anew after a semicolon. It begins anew after a line break as well, unless
a statement is under way there. So the statements of two texts put together are those of each one,
where the first one ends with a semicolon, and a script with no more than one statement to a line,
each ended on its line, has the same statements whether it is read line by line or as a whole.

## Main definitions

* `Mode.later` : a scan that stands some lines further down.
* `WordAt` : a position of a text at which the word `select` stands.
* `OneStatement` : lines with at most one statement, which ends on the line.

## Main results

* `statements_append` : the statements of two texts put together.
* `scan_eq_scan_drop` : a scan passes over the positions at which the word does not stand.
* `scan_append_newline` : a scan begins anew after a line break, if no statement is under way.
* `ofFile_oneStatement` : both ways of reading a script give the same statements.
-/

namespace QueryPlan.Script

open Text

variable {line i k : ℕ} {mode : Mode} {text more s : List Char}

/-! ### Texts put together -/

/-- A scan that stands some lines further down. -/
def Mode.later (lines : ℕ) : Mode → Mode
  | .between afterWord => .between afterWord
  | .within start read => .within (start + lines) read

/-- A statement that begins some lines further down. -/
def Statement.later (lines : ℕ) (found : Statement) : Statement :=
  { found with line := found.line + lines }

theorem nextLine_add (line lines : ℕ) (c : Char) :
    nextLine (line + lines) c = nextLine line c + lines := by
  simp only [nextLine]
  split <;> omega

/-- A scan some lines further down finds the same statements, so many lines further down. -/
theorem scan_later (lines line : ℕ) (mode : Mode) (text : List Char) :
    scan (line + lines) (mode.later lines) text =
      (scan line mode text).map fun found => (found.1 + lines, found.2) := by
  fun_induction scan line mode text with
  | case1 | case2 => rfl
  | case3 line afterWord c cs hbegins ih =>
    rw [Mode.later, scan, if_pos hbegins, nextLine_add]
    exact ih
  | case4 line afterWord c cs hbegins ih =>
    rw [Mode.later, scan, if_neg hbegins, nextLine_add]
    exact ih
  | case5 line start read cs ih =>
    rw [Mode.later, scan, if_pos rfl, List.map_cons]
    exact congrArg (_ :: ·) ih
  | case6 line start read c cs hc ih =>
    rw [Mode.later, scan, if_neg hc, nextLine_add]
    exact ih

/-- The statements of two texts put together are those of the first one and then those of the
second one, so many lines further down as the first one has line breaks, if the first one is empty
or ends with a semicolon. -/
theorem statements_append (h : text = [] ∨ text.getLast? = some ';') (more : List Char) :
    statements (text ++ more) =
      statements text ++ (statements more).map (Statement.later (text.count '\n')) := by
  have hlater : scan (1 + text.count '\n') (.between false) more =
      (scan 1 (.between false) more).map fun found => (found.1 + text.count '\n', found.2) :=
    scan_later (text.count '\n') 1 (.between false) more
  have hscan : scan 1 (.between false) (text ++ more) =
      scan 1 (.between false) text ++ scan (1 + text.count '\n') (.between false) more := by
    rcases h with rfl | h
    · rfl
    · exact scan_append h
  simp only [statements, hscan, hlater, List.map_append, List.map_map]
  rfl

theorem statements_append_sample :
    statements ("SELECT a\nFROM t;".toList ++ " select 'x\nselect' FROM u\n; SELECT b".toList) =
      [⟨1, "SELECT a\nFROM t;"⟩, ⟨2, "select 'x\nselect' FROM u\n;"⟩, ⟨4, "SELECT b;"⟩] := by
  rw [statements_append (.inr (by decide +kernel))]
  decide +kernel

/-! ### The positions of the word in a text -/

/-- The word `select` stands at a position of a text, as a word of its own. -/
def WordAt (text : List Char) (i : ℕ) : Prop :=
  beginsStatement (text.drop i) = true ∧ ∀ c ∈ (text.take i).getLast?, isWord c = false

instance (text : List Char) (i : ℕ) : Decidable (WordAt text i) :=
  inferInstanceAs (Decidable (_ ∧ _))

theorem WordAt.lt_length (h : WordAt text i) : i < text.length := by
  by_contra hi
  have := h.1
  rw [List.drop_eq_nil_of_le (Nat.not_lt.1 hi)] at this
  cases this

/-- A scan passes over the positions at which the word does not stand. -/
theorem scan_eq_scan_drop (hi : i ≤ text.length) (h : ∀ j < i, ¬ WordAt text j) (line : ℕ) :
    scan line (.between false) text =
      scan (line + (text.take i).count '\n') (.between ((text.take i).getLast?.any isWord))
        (text.drop i) := by
  induction i with
  | zero => rfl
  | succ i ih =>
    have htake : text.take (i + 1) = text.take i ++ [text[i]] := by
      rw [List.take_append_getElem]
    have hbegins : ¬ ((!(text.take i).getLast?.any isWord &&
        beginsStatement (text[i] :: text.drop (i + 1))) = true) := by
      intro hboth
      rw [Bool.and_eq_true, List.getElem_cons_drop] at hboth
      refine h i (Nat.lt_succ_self i) ⟨hboth.2, fun c hc => ?_⟩
      have hword := hboth.1
      rw [Option.mem_def.1 hc] at hword
      simpa using hword
    rw [ih (by omega) fun j hj => h j (by omega), List.drop_eq_getElem_cons (by omega), scan,
      if_neg hbegins, htake, List.getLast?_concat, List.count_append]
    congr 1
    rw [← Nat.add_assoc]
    exact nextLine_add_count _ _ []

/-- A text in which the word does not stand has no statements. -/
theorem scan_eq_nil (h : ∀ i < text.length, ¬ WordAt text i) (line : ℕ) :
    scan line (.between false) text = [] := by
  rw [scan_eq_scan_drop le_rfl h, List.drop_length, scan]

/-- A statement goes on to the first semicolon, and the scan begins anew after it. -/
theorem scan_within_append {start : ℕ} {read : List Char} (h : ';' ∉ s) (line : ℕ)
    (more : List Char) :
    scan line (.within start read) (s ++ ';' :: more) =
      (start, read.reverse ++ s ++ [';']) :: scan (line + s.count '\n') (.between false) more := by
  have hends : (s ++ [';']).getLast? = some ';' := List.getLast?_concat
  have hcount : (s ++ [';']).count '\n' = s.count '\n' := by simp
  rw [List.append_cons, scan_append hends, scan_within h, hcount, List.singleton_append]

/-- Where the word stands for the first time, a statement begins. -/
theorem scan_eq_cons (hword : WordAt text i) (hfirst : ∀ j < i, ¬ WordAt text j)
    (hdrop : text.drop i = s ++ ';' :: more) (hs : ';' ∉ s) (line : ℕ) :
    scan line (.between false) text =
      (line + (text.take i).count '\n', s ++ [';']) ::
        scan (line + (text.take i).count '\n' + s.count '\n') (.between false) more := by
  obtain ⟨hbegins, hapart⟩ := hword
  have hnone : (text.take i).getLast?.any isWord = false := by
    cases hlast : (text.take i).getLast? with
    | none => rfl
    | some c => exact hapart c hlast
  rw [hdrop] at hbegins
  cases s with
  | nil =>
    rw [List.nil_append, beginsStatement_semicolon] at hbegins
    cases hbegins
  | cons c s =>
    have hlt : i < text.length := WordAt.lt_length ⟨hdrop ▸ hbegins, hapart⟩
    rw [scan_eq_scan_drop hlt.le hfirst, hnone, hdrop, List.cons_append, scan,
      if_pos (by simpa using hbegins),
      scan_within_append (fun hmem => hs (List.mem_cons_of_mem c hmem)), ← nextLine_add_count]
    rfl

/-- After a semicolon, the word stands at the positions at which it stands in what follows. -/
theorem wordAt_of_wordAt_drop (hk : text[k]? = some ';') (h : WordAt (text.drop (k + 1)) i) :
    WordAt text (k + 1 + i) := by
  obtain ⟨hbegins, hapart⟩ := h
  refine ⟨by rwa [← List.drop_drop], fun c hc => ?_⟩
  have htake : (text.take (k + 1 + i)).getLast? =
      ((text.drop (k + 1)).take i).getLast?.or (some ';') := by
    rw [List.take_add, List.getLast?_append, List.take_add_one, hk]
    simp
  rw [htake] at hc
  cases hlast : ((text.drop (k + 1)).take i).getLast? with
  | none =>
    rw [hlast] at hc
    obtain rfl := Option.some.inj hc
    decide +kernel
  | some d =>
    rw [hlast] at hc
    obtain rfl := Option.some.inj hc
    exact hapart d hlast

/-! ### Lines with one statement -/

/-- The first semicolon from a position of a text on stands at another position. -/
def EndsAt (text : List Char) (i k : ℕ) : Prop :=
  i ≤ k ∧ text[k]? = some ';' ∧ ∀ j < k, i ≤ j → text[j]? ≠ some ';'

instance (text : List Char) (i k : ℕ) : Decidable (EndsAt text i k) :=
  inferInstanceAs (Decidable (_ ∧ _ ∧ ∀ j < k, _))

/-- Where the word stands on a line for the first time, a semicolon follows, and the word does not
stand after the first one that does. -/
def OneStatement (text : List Char) : Prop :=
  ∀ i < text.length, WordAt text i → (∀ j < i, ¬ WordAt text j) →
    ∃ k < text.length, EndsAt text i k ∧ ∀ j < text.length, k < j → ¬ WordAt text j

/-- What stands from a position on up to the first semicolon, and after it. -/
theorem EndsAt.drop_eq (h : EndsAt text i k) :
    ∃ s, ';' ∉ s ∧ text.drop i = s ++ ';' :: text.drop (k + 1) := by
  obtain ⟨hik, hk, hinner⟩ := h
  obtain ⟨hlt, hget⟩ := List.getElem?_eq_some_iff.1 hk
  refine ⟨(text.take k).drop i, fun hmem => ?_, ?_⟩
  · obtain ⟨n, hn⟩ := List.mem_iff_getElem?.1 hmem
    rw [List.getElem?_drop, List.getElem?_take] at hn
    split at hn
    next hlt => exact hinner (i + n) hlt (Nat.le_add_right i n) hn
    next => cases hn
  · calc text.drop i = (text.take k ++ text.drop k).drop i := by rw [List.take_append_drop]
      _ = (text.take k).drop i ++ text.drop k :=
        List.drop_append_of_le_length (by rw [List.length_take]; omega)
      _ = (text.take k).drop i ++ ';' :: text.drop (k + 1) := by
        rw [List.drop_eq_getElem_cons hlt, hget]

/-- A line on which the word does not stand has no statements, and another line has a single one,
which ends with a semicolon. -/
theorem OneStatement.scan_eq (h : OneStatement text) (hbreak : '\n' ∉ text) (line : ℕ) :
    scan line (.between false) text = [] ∨
      ∃ s, s.getLast? = some ';' ∧ scan line (.between false) text = [(line, s)] := by
  by_cases hword : ∃ i, WordAt text i
  -- the statement begins where the word stands for the first time, and nothing begins after its end
  · have hstands := Nat.find_spec hword
    have hfirst : ∀ j < Nat.find hword, ¬ WordAt text j := fun j hj => Nat.find_min hword hj
    obtain ⟨k, -, hends, hlast⟩ := h _ hstands.lt_length hstands hfirst
    obtain ⟨s, hs, hdrop⟩ := hends.drop_eq
    have hmore : ∀ j < (text.drop (k + 1)).length, ¬ WordAt (text.drop (k + 1)) j := by
      intro j _ hj
      have hj := wordAt_of_wordAt_drop hends.2.1 hj
      exact hlast _ hj.lt_length (by omega) hj
    have htake : (text.take (Nat.find hword)).count '\n' = 0 :=
      List.count_eq_zero.2 fun hmem => hbreak (List.mem_of_mem_take hmem)
    refine .inr ⟨s ++ [';'], List.getLast?_concat, ?_⟩
    rw [scan_eq_cons hstands hfirst hdrop hs, scan_eq_nil hmore, htake, Nat.add_zero]
  · exact .inl (scan_eq_nil (fun i _ hi => hword ⟨i, hi⟩) line)

/-! ### Scanning up to a line break -/

/-- A line break is none of the letters of a word. -/
theorem afterLetters?_append_newline {letters : List Char} (hletters : '\n' ∉ letters)
    (text more : List Char) :
    afterLetters? letters (text ++ '\n' :: more) =
      (afterLetters? letters text).map (· ++ '\n' :: more) := by
  fun_induction afterLetters? letters text with
  | case1 text => rw [afterLetters?]; rfl
  | case2 letter letters =>
    have hletter : isLetter letter '\n' = false :=
      isLetter_eq_false (by decide) (by decide) fun h => hletters (h ▸ List.mem_cons_self)
    rw [List.nil_append, afterLetters?, hletter]
    rfl
  | case3 letter letters c text hc ih =>
    rw [List.cons_append, afterLetters?, if_pos hc]
    exact ih fun hmem => hletters (List.mem_cons_of_mem letter hmem)
  | case4 letter letters c text hc =>
    rw [List.cons_append, afterLetters?, if_neg hc]
    rfl

/-- Whether a statement begins on a line is seen before the line ends. -/
theorem beginsStatement_append_newline (text more : List Char) :
    beginsStatement (text ++ '\n' :: more) = beginsStatement text := by
  have hword : isWord '\n' = false := by decide +kernel
  rw [beginsStatement, beginsStatement, afterLetters?_append_newline (by decide)]
  cases afterLetters? ['s', 'e', 'l', 'e', 'c', 't'] text with
  | none => rfl
  | some rest =>
    cases rest with
    | nil => simp [hword]
    | cons c rest => rfl

/-- A scan begins anew after a line break, if every statement before it is ended. -/
theorem scan_append_newline (hmode : ';' ∉ mode.read)
    (h : ∀ found ∈ scan line mode text, found.2.getLast? = some ';') (more : List Char) :
    scan line mode (text ++ '\n' :: more) =
      scan line mode text ++ scan (line + text.count '\n' + 1) (.between false) more := by
  fun_induction scan line mode text with
  | case1 line afterWord => exact scan_newline
  | case2 line start read =>
    -- a statement that is under way at the end has no semicolon
    have hlast := h _ (List.mem_singleton_self _)
    exact absurd (List.mem_reverse.1 (List.mem_of_getLast? hlast)) hmode
  | case3 line afterWord c cs hbegins ih =>
    have hc : ';' ∉ [c] := by
      rw [List.mem_singleton]
      rintro rfl
      simp [beginsStatement_semicolon] at hbegins
    rw [List.cons_append, scan, ← List.cons_append, beginsStatement_append_newline, if_pos hbegins,
      ih hc h, nextLine_add_count]
  | case4 line afterWord c cs hbegins ih =>
    rw [List.cons_append, scan, ← List.cons_append, beginsStatement_append_newline, if_neg hbegins,
      ih List.not_mem_nil h, nextLine_add_count]
  | case5 line start read cs ih =>
    have hcount : (';' :: cs).count '\n' = cs.count '\n' := by simp
    rw [List.cons_append, scan, if_pos rfl,
      ih List.not_mem_nil fun found hfound => h found (List.mem_cons_of_mem _ hfound), hcount]
    rfl
  | case6 line start read c cs hc ih =>
    have hread : ';' ∉ c :: read := fun hmem =>
      (List.mem_cons.1 hmem).elim (fun hsame => hc hsame.symm) hmode
    rw [List.cons_append, scan, if_neg hc, ih hread h, nextLine_add_count]

/-! ### Reading line by line -/

/-- The statement on a line comes before those on later lines. -/
theorem firstStatements_cons (h : OneStatement text) (hbreak : '\n' ∉ text) (line : ℕ)
    (lines : List (List Char)) :
    firstStatements line (text :: lines) =
      (scan line (.between false) text).map (fun found => ⟨found.1, terminate found.2⟩) ++
        firstStatements (line + 1) lines := by
  rw [firstStatements]
  rcases h.scan_eq hbreak line with hscan | ⟨s, -, hscan⟩ <;> rw [hscan] <;> rfl

/-- The statements of a text are the first statements of its lines. -/
theorem map_scan_eq_firstStatements (hbreaks : ∀ c ∈ text, isLineBreak c = true → c = '\n')
    (hlines : ∀ cs ∈ splitLines text, OneStatement cs) (line : ℕ) :
    (scan line (.between false) text).map (fun found => ⟨found.1, terminate found.2⟩) =
      firstStatements line (splitLines text) := by
  induction text using lineInduction generalizing line with
  | last text hbreak =>
    have hnone := forall_isLineBreak_eq_false hbreaks hbreak
    by_cases hne : text = []
    · subst hne
      rfl
    · rw [splitLines_eq_singleton hnone hne] at hlines ⊢
      rw [firstStatements_cons (hlines text List.mem_cons_self) hbreak]
      exact (List.append_nil _).symm
  | line text more hbreak ih =>
    have hnone := forall_isLineBreak_eq_false
      (fun c hc => hbreaks c (List.mem_append_left _ hc)) hbreak
    rw [splitLines_append_cons hnone] at hlines ⊢
    obtain ⟨hone, hmore⟩ := List.forall_mem_cons.1 hlines
    have hended : ∀ found ∈ scan line (.between false) text, found.2.getLast? = some ';' := by
      rcases hone.scan_eq hbreak line with hscan | ⟨s, hs, hscan⟩
      · simp [hscan]
      · simp [hscan, hs]
    rw [firstStatements_cons hone hbreak, scan_append_newline List.not_mem_nil hended,
      List.map_append, List.count_eq_zero.2 hbreak,
      ← ih (fun c hc => hbreaks c (by simp [hc])) hmore]

/-- Both ways of reading a script give the statements of its text, if only line feeds break its
lines and there is no more than one statement to a line, which is ended on the line. -/
theorem ofFile_oneStatement {files : Files} {path : String}
    (hread : readText files path = .ok text)
    (hbreaks : ∀ c ∈ text, isLineBreak c = true → c = '\n')
    (hlines : ∀ cs ∈ splitLines text, OneStatement cs) :
    ofFile files path true = .ok (statements text) ∧
      ofFile files path false = .ok (statements text) := by
  have hstatements : statements text = statementsByLine text :=
    map_scan_eq_firstStatements hbreaks hlines 1
  rw [ofFile, ofFile, hread]
  exact ⟨rfl, congrArg Except.ok hstatements.symm⟩

/-- A line on which the word stands at one position, with a semicolon behind it. -/
theorem OneStatement.of_forall_ne (hends : EndsAt text i k)
    (hword : ∀ j < text.length, j ≠ i → ¬ WordAt text j) : OneStatement text := by
  intro j hj hstands _
  obtain rfl : j = i := by
    by_contra hne
    exact hword j hj hne hstands
  refine ⟨k, (List.getElem?_eq_some_iff.1 hends.2.1).1, hends, fun l hl hkl => hword l hl ?_⟩
  have hle : j ≤ k := hends.1
  omega

/-- A script with statements on its first and third line, and text around the first one. -/
def Sample.script : String := "all: Select a FROM T; etc\n\nselect 'b' FROM U;\n"

theorem ofFile_oneStatement_sample :
    let files := Files.put {} "q.sql" Sample.script.toUTF8
    let found := [⟨1, "Select a FROM T;"⟩, ⟨3, "select 'b' FROM U;"⟩]
    ofFile files "q.sql" true = .ok found ∧ ofFile files "q.sql" false = .ok found := by
  intro files found
  have hread : readText files "q.sql" = .ok Sample.script.toList := by decide +kernel
  have hsplit : splitLines Sample.script.toList =
      ["all: Select a FROM T; etc".toList, [], "select 'b' FROM U;".toList] := by decide +kernel
  have hlines : ∀ cs ∈ splitLines Sample.script.toList, OneStatement cs := by
    rw [hsplit]
    simp only [List.forall_mem_cons]
    exact ⟨.of_forall_ne (i := 5) (k := 20) (by decide +kernel) (by decide +kernel), nofun,
      .of_forall_ne (i := 0) (k := 17) (by decide +kernel) (by decide +kernel), nofun⟩
  have hbreaks : ∀ c ∈ Sample.script.toList, isLineBreak c = true → c = '\n' := by
    simp [Sample.script, isLineBreak]
  have hfound : statements Sample.script.toList = found := by decide +kernel
  rw [← hfound]
  exact ofFile_oneStatement hread hbreaks hlines

end QueryPlan.Script
