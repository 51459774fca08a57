import Mathlib
import QueryPlan.Catalog.Basic

/-!
# The failures of reading a catalog

A table is read from two files, and nearly everything that can be wrong with one of them is reported
with its path. Two things are not: a size in a schema descriptor that is infinite, and statistics
whose bytes are no text. A directory whose name has a null character is the third, for statistics
only. All three are determined here, in both directions.

## Main definitions

* `Failure.Names` : a failure of the catalog that names a file.
* `Descriptor.Unbounded` : a descriptor whose reading comes to an infinite size.

## Main results

* `Descriptor.readSchema_eq_overflow_iff` : a schema overflows exactly if its descriptor is
  unbounded.
* `Catalog.load_failures` : every failure names the file that is read, with three exceptions.
-/

namespace QueryPlan

/-- A failure of the catalog that names the file at a path. -/
def Failure.Names (f : Failure) (path : String) : Prop := ∃ fault, f = .catalog path fault

/-- An infinite number. -/
def Json.IsInfinite (value : Json) : Prop := ∃ negative, value = .real (.infinite negative)

namespace Descriptor

variable {table : String} {value : Json} {values : List Json}

/-- A value describes a column of a table. -/
def Describes (table : String) (value : Json) : Prop := ∃ a, readColumn table value = .ok a

/-- The first trouble that reading a schema descriptor meets is an infinite size: the one of a
column with a name, or, where every column is described, the one of the tuples. -/
inductive Unbounded (table : String) : Json → Prop
  | column {members fields : List (String × Json)} {before after : List Json} {name size : Json}
      (hlist : Json.member? "attributes" members = some (.arr (before ++ .obj fields :: after)))
      (hbefore : ∀ v ∈ before, Describes table v)
      (hname : Json.member? "name" fields = some name)
      (hsize : Json.member? "size" fields = some size) (hinfinite : size.IsInfinite) :
      Unbounded table (.obj members)
  | tuple {members : List (String × Json)} {list size : Json} {columns : List Json}
      (hlist : Json.member? "attributes" members = some list)
      (hcolumns : columnItems list = .ok columns)
      (hdescribed : ∀ v ∈ columns, Describes table v)
      (hsize : Json.member? "tuple_size" members = some size) (hinfinite : size.IsInfinite) :
      Unbounded table (.obj members)

theorem readSize_eq_overflow_iff : readSize value = .error .overflow ↔ value.IsInfinite := by
  cases value with
  | real x => cases x <;> simp [readSize, Json.toInteger, Binary64.truncate, Json.IsInfinite]
  | str s => cases hs : readInteger? s <;> simp [readSize, Json.toInteger, hs, Json.IsInfinite]
  | null | bool | int | arr | obj => simp [readSize, Json.toInteger, Json.IsInfinite]

/-- The size of a member that need not be there is infinite only if the member is there. -/
theorem readSize_member?_eq_overflow_iff {members : List (String × Json)} {name : String}
    {n : Int} :
    readSize ((Json.member? name members).getD (.int n)) = .error .overflow ↔
      ∃ size, Json.member? name members = some size ∧ size.IsInfinite := by
  rw [readSize_eq_overflow_iff]
  cases Json.member? name members <;> simp [Json.IsInfinite]

theorem readColumn_eq_overflow_iff :
    readColumn table value = .error .overflow ↔
      ∃ fields name size, value = .obj fields ∧ Json.member? "name" fields = some name ∧
        Json.member? "size" fields = some size ∧ size.IsInfinite := by
  cases value with
  | obj fields =>
    have hsize : readSize ((Json.member? "size" fields).getD (.int 4)) = .error .overflow ↔ _ :=
      readSize_member?_eq_overflow_iff
    cases hname : Json.member? "name" fields with
    | none => simp [readColumn, hname]
    | some name =>
      rw [readColumn, hname]
      cases hread : readSize ((Json.member? "size" fields).getD (.int 4)) <;>
        simp_all [Except.map]
  | null | bool | int | real | str | arr => simp [readColumn]

/-- Columns are read if each value describes one. -/
theorem exists_readColumns_iff :
    (∃ attributes, readColumns table values = .ok attributes) ↔
      ∀ v ∈ values, Describes table v := by
  induction values with
  | nil => simp [readColumns]
  | cons v values ih =>
    rw [List.forall_mem_cons, ← ih, readColumns, Describes]
    cases readColumn table v with
    | error => simp
    | ok a => cases readColumns table values <;> simp [Except.map]

/-- The trouble with a list of columns is that of the first value that describes none. -/
theorem readColumns_eq_error_iff {trouble : Trouble} :
    readColumns table values = .error trouble ↔
      ∃ before v after, values = before ++ v :: after ∧ (∀ w ∈ before, Describes table w) ∧
        readColumn table v = .error trouble := by
  induction values with
  | nil => simp [readColumns]
  | cons v values ih =>
    rw [readColumns]
    constructor
    · intro h
      cases hv : readColumn table v with
      | error t =>
        obtain rfl : t = trouble := by simpa [hv] using h
        exact ⟨[], v, values, rfl, nofun, hv⟩
      | ok a =>
        have hvalues : readColumns table values = .error trouble := by
          cases hrest : readColumns table values <;> simp_all [Except.map]
        obtain ⟨before, w, after, rfl, hbefore, hw⟩ := ih.1 hvalues
        exact ⟨v :: before, w, after, rfl, List.forall_mem_cons.2 ⟨⟨a, hv⟩, hbefore⟩, hw⟩
    · rintro ⟨before, w, after, hsplit, hbefore, hw⟩
      cases before with
      | nil =>
        obtain ⟨rfl, rfl⟩ := List.cons.inj hsplit
        rw [hw]
      | cons b before =>
        rw [List.cons_append] at hsplit
        obtain ⟨rfl, rfl⟩ := List.cons.inj hsplit
        obtain ⟨⟨a, ha⟩, hbefore⟩ := List.forall_mem_cons.1 hbefore
        have hrest := ih.2 ⟨before, w, after, rfl, hbefore, hw⟩
        simp [ha, hrest, Except.map]

/-- Only a list has items of which one could be infinite. -/
theorem eq_arr_of_columnItems {list : Json} {v : Json}
    (h : columnItems list = .ok values) (hv : v ∈ values) : list = .arr values := by
  unfold columnItems at h
  split at h
  · rw [Except.ok.inj h]
  · simp_all
  · split at h <;> simp_all
  · simp at h

theorem columnItems_ne_overflow {list : Json} : columnItems list ≠ .error .overflow := by
  unfold columnItems
  split
  · simp
  · simp
  · split <;> simp
  · simp

/-- A schema overflows exactly if its descriptor is unbounded. -/
theorem readSchema_eq_overflow_iff :
    readSchema table value = .error .overflow ↔ Unbounded table value := by
  constructor
  · intro h
    cases value with
    | obj members =>
      cases hlist : Json.member? "attributes" members with
      | none => simp [readSchema, hlist] at h
      | some list =>
        cases hitems : columnItems list with
        | error trouble =>
          obtain rfl : trouble = .overflow := by
            simpa [readSchema, hlist, hitems, bind, Except.bind] using h
          exact absurd hitems columnItems_ne_overflow
        | ok columns =>
          cases hcolumns : readColumns table columns with
          | error trouble =>
            obtain rfl : trouble = .overflow := by
              simpa [readSchema, hlist, hitems, hcolumns, bind, Except.bind] using h
            obtain ⟨before, v, after, rfl, hbefore, hv⟩ := readColumns_eq_error_iff.1 hcolumns
            obtain ⟨fields, name, size, rfl, hname, hsize, hinfinite⟩ :=
              readColumn_eq_overflow_iff.1 hv
            rw [eq_arr_of_columnItems (v := .obj fields) hitems (by simp)] at hlist
            exact .column hlist hbefore hname hsize hinfinite
          | ok attributes =>
            have hread : readSize ((Json.member? "tuple_size" members).getD
                (.int (Schema.totalSize attributes))) = .error .overflow := by
              simp only [readSchema, hlist, hitems, hcolumns, bind, Except.bind] at h
              split at h <;> simp_all [pure, Except.pure]
            obtain ⟨size, hsize, hinfinite⟩ := readSize_member?_eq_overflow_iff.1 hread
            exact .tuple hlist hitems (exists_readColumns_iff.1 ⟨_, hcolumns⟩) hsize hinfinite
    | null | bool | int | real | str | arr => simp [readSchema] at h
  · intro h
    cases h with
    | @column members fields before after name size hlist hbefore hname hsize hinfinite =>
      have hcolumns : readColumns table (before ++ .obj fields :: after) = .error .overflow :=
        readColumns_eq_error_iff.2 ⟨before, .obj fields, after, rfl, hbefore,
          readColumn_eq_overflow_iff.2 ⟨fields, name, size, rfl, hname, hsize, hinfinite⟩⟩
      simp [readSchema, hlist, columnItems, hcolumns, bind, Except.bind]
    | @tuple members list size columns hlist hitems hdescribed hsize hinfinite =>
      obtain ⟨attributes, hcolumns⟩ := exists_readColumns_iff.2 hdescribed
      have hread := readSize_member?_eq_overflow_iff (n := Schema.totalSize attributes).2
        ⟨size, hsize, hinfinite⟩
      simp [readSchema, hlist, hitems, hcolumns, hread, bind, Except.bind]

end Descriptor

namespace Files

variable {directory name : String} {c : Char}

/-- A name that does not begin with a slash adds nothing but a slash to the characters of the
directory and its own. -/
theorem mem_joinPath (hname : name.toList.head? ≠ some '/') (hc : c ≠ '/') :
    c ∈ (joinPath directory name).toList ↔ c ∈ directory.toList ∨ c ∈ name.toList := by
  rw [joinPath, if_neg hname]
  split <;> simp [hc]

end Files

namespace Catalog

variable {c : Catalog} {table : String}

/-- The path of a table's statistics has a null character only from the directory. -/
theorem hasNul_statisticsPath_iff (hslash : '/' ∉ table.toList) (hnul : '\x00' ∉ table.toList) :
    hasNul (c.statisticsPath table) ↔ '\x00' ∈ c.directory.toList := by
  have hname : (table ++ ".stat").toList.head? ≠ some '/' := by
    rw [String.toList_append]
    cases htable : table.toList with
    | nil => decide
    | cons d ds =>
      rintro hd
      exact hslash (by simp_all)
  rw [hasNul, List.contains_iff_mem, statisticsPath, Files.mem_joinPath hname (by decide),
    String.toList_append, List.mem_append]
  simp [hnul]

theorem loadSchema_eq_overflow_iff :
    c.loadSchema table = .error .overflow ↔
      ∃ value, c.readDescriptor table = .ok value ∧ Descriptor.Unbounded table value := by
  simp only [← Descriptor.readSchema_eq_overflow_iff]
  cases hvalue : c.readDescriptor table with
  | error f => simp [loadSchema, hvalue]
  | ok value =>
    cases hschema : Descriptor.readSchema table value with
    | error trouble => cases trouble <;> simp [loadSchema, hvalue, hschema]
    | ok schema =>
      simp only [loadSchema, hvalue, hschema]
      split <;> simp_all

/-- A schema that cannot be loaded is malformed, and its file is named, or it overflows. -/
theorem names_or_eq_of_loadSchema {f : Failure} (h : c.loadSchema table = .error f) :
    f.Names (c.schemaPath table) ∨ f = .overflow := by
  unfold loadSchema at h
  split at h
  · exact .inl ⟨_, (Except.error.inj h).symm⟩
  · split at h
    · exact .inr (Except.error.inj h).symm
    · exact .inl ⟨_, (Except.error.inj h).symm⟩
    · split at h
      · exact .inl ⟨_, (Except.error.inj h).symm⟩
      · simp at h

/-- What comes of reading statistics: a path that cannot be, bytes that are no text, or else a value
or a failure that names the file. -/
theorem loadStatistics_cases (c : Catalog) (table : String) (columns : Int) :
    (hasNul (c.statisticsPath table) ∧ c.loadStatistics table columns = .error .nulInPath) ∨
      (¬ hasNul (c.statisticsPath table) ∧
        ∃ bytes fault, c.files.read (c.statisticsPath table) = .ok bytes ∧
          Utf8.decode bytes = .error fault ∧
          c.loadStatistics table columns = .error (.notUtf8 fault)) ∨
      (¬ hasNul (c.statisticsPath table) ∧
        (∀ bytes, c.files.read (c.statisticsPath table) = .ok bytes →
          ∃ text, Utf8.decode bytes = .ok text) ∧
        ∀ f, c.loadStatistics table columns = .error f → f.Names (c.statisticsPath table)) := by
  by_cases hnul : hasNul (c.statisticsPath table)
  · exact .inl ⟨hnul, by simp [loadStatistics, hnul]⟩
  cases hbytes : c.files.read (c.statisticsPath table) with
  | error f =>
    refine .inr (.inr ⟨hnul, nofun, fun f' h => ⟨.statisticsUnreadable f, ?_⟩⟩)
    simpa [loadStatistics, hnul, hbytes, eq_comm] using h
  | ok bytes =>
    cases htext : Utf8.decode bytes with
    | error fault =>
      exact .inr (.inl ⟨hnul, bytes, fault, rfl, htext,
        by simp [loadStatistics, hnul, hbytes, htext]⟩)
    | ok cs =>
      refine .inr (.inr ⟨hnul, ?_, fun f h => ?_⟩)
      · rintro _ ⟨⟩
        exact ⟨cs, htext⟩
      · simp only [loadStatistics, hnul, hbytes, htext] at h
        cases hlines : Statistics.ofLines columns
            ((Text.splitLines (Text.unifyLineEnds cs)).map String.ofList) with
        | error fault => exact ⟨fault, by simpa [hlines, eq_comm] using h⟩
        | ok statistics => simp [hlines] at h

/-- Every failure of reading a file of the catalog names that file, but for three. A schema
overflows exactly if its descriptor is unbounded, bytes of statistics that are no text are reported
as such, and a null character in the name of the directory is found only when statistics are
read. -/
theorem load_failures (c : Catalog) {table : String} (columns : Int) (hslash : '/' ∉ table.toList)
    (hnul : '\x00' ∉ table.toList) :
    (∀ f, c.loadSchema table = .error f → f.Names (c.schemaPath table) ∨ f = .overflow) ∧
      (c.loadSchema table = .error .overflow ↔
        ∃ value, c.readDescriptor table = .ok value ∧ Descriptor.Unbounded table value) ∧
      (∀ f, c.loadStatistics table columns = .error f →
        f.Names (c.statisticsPath table) ∨ (∃ fault, f = .notUtf8 fault) ∨ f = .nulInPath) ∧
      (∀ fault, c.loadStatistics table columns = .error (.notUtf8 fault) ↔
        '\x00' ∉ c.directory.toList ∧
          ∃ bytes, c.files.read (c.statisticsPath table) = .ok bytes ∧
            Utf8.decode bytes = .error fault) ∧
      (c.loadStatistics table columns = .error .nulInPath ↔ '\x00' ∈ c.directory.toList) := by
  rw [← hasNul_statisticsPath_iff hslash hnul]
  refine ⟨fun f h => names_or_eq_of_loadSchema h, loadSchema_eq_overflow_iff, ?_⟩
  obtain ⟨hpath, h⟩ | ⟨hpath, bytes, fault, hbytes, htext, h⟩ | ⟨hpath, htext, hnames⟩ :=
    c.loadStatistics_cases table columns
  · simp [h, hpath, eq_comm]
  · simp [h, hpath, hbytes, htext, eq_comm]
  · refine ⟨fun f h => .inl (hnames f h), fun fault => ⟨fun h => ?_, ?_⟩, fun h => ?_, fun h => ?_⟩
    · obtain ⟨_, ⟨⟩⟩ := hnames _ h
    · rintro ⟨-, bytes, hbytes, hfault⟩
      obtain ⟨text, htext⟩ := htext bytes hbytes
      simp [hfault] at htext
    · obtain ⟨_, ⟨⟩⟩ := hnames _ h
    · exact absurd h hpath

/-- A catalog with a table whose only column has an infinite size, and whose statistics are one
byte that begins no character. -/
def Sample.brokenCatalog : Catalog where
  files := (Files.put {} "T.schema.json"
    "\x7b\"attributes\": [\x7b\"name\": \"a\", \"size\": Infinity\x7d]\x7d".toUTF8).put
    "T.stat" ⟨#[0xff]⟩
  directory := ""

theorem load_failures_sample :
    '/' ∉ "T".toList ∧ '\x00' ∉ "T".toList ∧
      (∃ value, Sample.brokenCatalog.readDescriptor "T" = .ok value ∧
        Descriptor.Unbounded "T" value) ∧
      (∃ bytes, Sample.brokenCatalog.files.read "T.stat" = .ok bytes ∧
        Utf8.decode bytes = .error ⟨0, 0xff, 1, .invalidStart⟩) := by
  obtain ⟨-, hoverflow, -, hbytes, -⟩ :=
    Sample.brokenCatalog.load_failures 1 (by decide : '/' ∉ "T".toList) (by decide)
  exact ⟨by decide, by decide, hoverflow.1 (by decide +kernel),
    ((hbytes ⟨0, 0xff, 1, .invalidStart⟩).1 (by decide +kernel)).2⟩

/-- Neither file of a broken table is named by the failure of reading it. -/
theorem load_failures_unnamed :
    ∃ f g, Sample.brokenCatalog.loadSchema "T" = .error f ∧
      Sample.brokenCatalog.loadStatistics "T" 1 = .error g ∧
      ∀ path, ¬ f.Names path ∧ ¬ g.Names path := by
  refine ⟨.overflow, .notUtf8 ⟨0, 0xff, 1, .invalidStart⟩, by decide +kernel, by decide +kernel,
    fun path => ⟨?_, ?_⟩⟩
  · rintro ⟨_, ⟨⟩⟩
  · rintro ⟨_, ⟨⟩⟩

end Catalog

end QueryPlan
