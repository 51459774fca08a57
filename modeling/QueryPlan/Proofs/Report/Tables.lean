import Mathlib
import QueryPlan.Report.Table

/-!
# Report tables are read back

A table that is written is read back as its header and its records, field by field. So it has one
record for each record that was written, in order, and no field runs into another one, whatever
commas, quotes and line ends stand in the fields.

The reader takes one character at a time and knows where in a record it stands. It gives up at a
quote, or at a line end, that no table has at that place.

## Main definitions

* `Csv.read?` : the records in a text.

## Main results

* `Csv.read?_write` : a table is read back as it was written.
-/

namespace QueryPlan.Csv

/-- Where in a record a reader stands: where a field begins, in a field without quotes, within
quotes, after a quote within quotes, or after a carriage return. -/
inductive Place
  | opening
  | plain
  | quoted
  | closing
  | ending
  deriving Repr, DecidableEq

/-- Whether a field may end at a place. -/
def Place.mayEnd : Place → Bool
  | opening | plain | closing => true
  | quoted | ending => false

/-- Where a reader stands after a character that ends no field, and what of it belongs to the field;
none if the character cannot stand there. -/
def Place.step? (c : Char) : Place → Option (Place × List Char)
  | opening =>
    if c = '"' then some (quoted, [])
    else if isSpecial c then none else some (plain, [c])
  | plain => if isSpecial c then none else some (plain, [c])
  | quoted => if c = '"' then some (closing, []) else some (quoted, [c])
  | closing => if c = '"' then some (quoted, [c]) else none
  | ending => none

/-- The records in a text, given the fields and the characters of a field that are already read of
the first one. -/
def readFrom (place : Place) (fields : List String) (field : List Char) :
    List Char → Option (List (List String))
  | [] => if place = .opening ∧ fields = [] then some [] else none
  | c :: cs =>
    if c = ',' ∧ place.mayEnd = true then
      readFrom .opening (fields ++ [String.ofList field]) [] cs
    else if c = '\r' ∧ place.mayEnd = true then readFrom .ending fields field cs
    else if c = '\n' ∧ place = .ending then
      (readFrom .opening [] [] cs).map ((fields ++ [String.ofList field]) :: ·)
    else
      match place.step? c with
      | some (next, taken) => readFrom next fields (field ++ taken) cs
      | none => none

/-- The records in a text. -/
def read? (text : String) : Option (List (List String)) := readFrom .opening [] [] text.toList

variable {place : Place} {fields : List String} {field cs rest : List Char} {c : Char}

/-! ### The ends of fields and records -/

theorem readFrom_comma (h : place.mayEnd = true) :
    readFrom place fields field (',' :: rest) =
      readFrom .opening (fields ++ [String.ofList field]) [] rest := by
  rw [readFrom, if_pos ⟨rfl, h⟩]

theorem readFrom_return (h : place.mayEnd = true) :
    readFrom place fields field ('\r' :: '\n' :: rest) =
      (readFrom .opening [] [] rest).map ((fields ++ [String.ofList field]) :: ·) := by
  rw [readFrom, if_neg (by simp), if_pos ⟨rfl, h⟩, readFrom, if_neg (by simp), if_neg (by simp),
    if_pos ⟨rfl, rfl⟩]

/-! ### Fields -/

/-- A character that is not special is taken as it stands where a field begins, and in a field. -/
theorem readFrom_cons_plain (hplace : place = .opening ∨ place = .plain)
    (hc : isSpecial c = false) :
    readFrom place fields field (c :: rest) = readFrom .plain fields (field ++ [c]) rest := by
  have hother (d : Char) (hd : isSpecial d = true) : c ≠ d := by
    rintro rfl
    rw [hc] at hd
    cases hd
  rw [readFrom, if_neg fun h => hother ',' rfl h.1, if_neg fun h => hother '\r' rfl h.1,
    if_neg fun h => hother '\n' rfl h.1]
  obtain rfl | rfl := hplace
  · simp [Place.step?, hother '"' rfl, hc]
  · simp [Place.step?, hc]

/-- Characters that are not special are taken as they stand. -/
theorem readFrom_plain (h : ∀ c ∈ cs, isSpecial c = false) (rest : List Char) :
    readFrom .plain fields field (cs ++ rest) = readFrom .plain fields (field ++ cs) rest := by
  induction cs generalizing field with
  | nil => simp
  | cons c cs ih =>
    rw [List.cons_append, readFrom_cons_plain (.inr rfl) (h c List.mem_cons_self),
      ih fun d hd => h d (List.mem_cons_of_mem c hd), List.append_assoc, List.singleton_append]

/-- Within quotes, everything is taken as it stands up to a quote that is not doubled. -/
theorem readFrom_quoted (cs rest : List Char) :
    readFrom .quoted fields field (doubleQuotes cs ++ '"' :: rest) =
      readFrom .closing fields (field ++ cs) rest := by
  have hquote (field rest : List Char) : readFrom .quoted fields field ('"' :: rest) =
      readFrom .closing fields field rest := by
    simp [readFrom, Place.step?, Place.mayEnd]
  have hcons (c : Char) (field rest : List Char) :
      readFrom .quoted fields field ((if c = '"' then ['"', '"'] else [c]) ++ rest) =
        readFrom .quoted fields (field ++ [c]) rest := by
    by_cases hc : c = '"'
    · rw [if_pos hc, List.cons_append, hquote, hc]
      simp [readFrom, Place.step?]
    · simp [readFrom, Place.step?, Place.mayEnd, hc]
  induction cs generalizing field with
  | nil => rw [doubleQuotes, List.flatMap_nil, List.nil_append, hquote, List.append_nil]
  | cons c cs ih =>
    rw [doubleQuotes] at ih ⊢
    rw [List.flatMap_cons, List.append_assoc, hcons, ih, List.append_assoc, List.singleton_append]

/-- A field that is written is read, up to a place where it may end. -/
theorem readFrom_writeField (s : String) : ∃ place : Place, place.mayEnd = true ∧ ∀ fields rest,
    readFrom .opening fields [] ((writeField s).toList ++ rest) =
      readFrom place fields s.toList rest := by
  unfold writeField
  split
  next =>
    refine ⟨.closing, rfl, fun fields rest => ?_⟩
    have hopen (cs : List Char) : readFrom .opening fields [] ('"' :: cs) =
        readFrom .quoted fields [] cs := by
      simp [readFrom, Place.step?]
    rw [String.toList_ofList, List.cons_append, List.cons_append, hopen, List.append_assoc,
      List.singleton_append, readFrom_quoted, List.nil_append]
  next hplain =>
    have hnone : ∀ c ∈ s.toList, isSpecial c = false := by simpa using hplain
    cases hs : s.toList with
    | nil => exact ⟨.opening, rfl, fun _ _ => rfl⟩
    | cons c cs =>
      rw [hs] at hnone
      refine ⟨.plain, rfl, fun fields rest => ?_⟩
      rw [List.cons_append, readFrom_cons_plain (.inl rfl) (hnone c List.mem_cons_self),
        readFrom_plain fun d hd => hnone d (List.mem_cons_of_mem c hd)]
      rfl

/-! ### Records -/

theorem readFrom_writeRecord {fs : List String} (hne : fs ≠ []) (rest : List Char) :
    readFrom .opening fields [] ((writeRecord fs).toList ++ rest) =
      (readFrom .opening [] [] rest).map ((fields ++ fs) :: ·) := by
  induction fs generalizing fields with
  | nil => exact absurd rfl hne
  | cons f fs ih =>
    obtain ⟨place, hend, hread⟩ := readFrom_writeField f
    cases fs with
    | nil =>
      have hwrite : (writeRecord [f]).toList ++ rest =
          (writeField f).toList ++ '\r' :: '\n' :: rest := by
        simp [writeRecord]
      rw [hwrite, hread, readFrom_return hend, String.ofList_toList]
    | cons g gs =>
      have hwrite : (writeRecord (f :: g :: gs)).toList ++ rest =
          (writeField f).toList ++ ',' :: ((writeRecord (g :: gs)).toList ++ rest) := by
        simp [writeRecord, String.intercalate_cons_cons]
      rw [hwrite, hread, readFrom_comma hend, String.ofList_toList, ih (List.cons_ne_nil g gs),
        List.append_assoc, List.singleton_append]

/-- A table is read back as it was written. -/
theorem read?_write {header : List String} {records : List (List String)}
    (hne : ∀ fs ∈ header :: records, fs ≠ []) :
    read? (write header records) = some (header :: records) := by
  have hrecords (table : List (List String)) (hne : ∀ fs ∈ table, fs ≠ []) :
      readFrom .opening [] [] ((table.map writeRecord).flatMap String.toList) = some table := by
    induction table with
    | nil => rfl
    | cons fs table ih =>
      rw [List.map_cons, List.flatMap_cons, readFrom_writeRecord (hne fs List.mem_cons_self),
        ih fun gs hgs => hne gs (List.mem_cons_of_mem fs hgs)]
      rfl
  rw [read?, write, String.toList_join]
  exact hrecords (header :: records) hne

end QueryPlan.Csv
