import QueryPlan.Proofs.Catalog.Loading
import QueryPlan.Proofs.Catalog.Statistics
import QueryPlan.Proofs.Json.RoundTrip
import QueryPlan.Proofs.Store.Writing

/-!
# Loading a table that was stored

The two files of a table are written in plain text, so their bytes are read as the texts that were
written; the descriptor is read as the value that it was written from, and the statistics as their
numbers. The two files have names of their own in the directory of the catalog, so neither writes
over the other nor over a file of another table. The sizes are added up before the first file is
opened.

## Main definitions

* `Descriptor.IsColumn` : a value describes a column.

## Main results

* `Descriptor.readSchema_ofColumns` : the descriptor of columns describes the schema of them.
* `Catalog.run_storeTable_eq_ok` : what there is after a table is stored.
* `Catalog.load_stored` : a table that was stored is loaded as it was, and no other table changes.
-/

namespace QueryPlan

namespace Descriptor

variable {table : String} {value : Json} {columns : List Json} {a : Attribute}
  {attributes : List Attribute}

/-- A value describes a column of a table: an object with a text for a name, with a text for a type
or none, which means `INTEGER`, and with a size that stands for an integer or none, which means
four. -/
inductive IsColumn (table : String) : Json → Attribute → Prop
  | mk {members : List (String × Json)} {name type : String} {size : ℤ}
      (hname : Json.member? "name" members = some (.str name))
      (htype : (Json.member? "type" members).getD (.str "INTEGER") = .str type)
      (hsize : ((Json.member? "size" members).getD (.int 4)).toInteger = .ok size) :
      IsColumn table (.obj members) { table := some table, name := name, type := type, size := size }

/-- A value that describes a column is read as that column. -/
theorem IsColumn.readColumn (h : IsColumn table value a) : readColumn table value = .ok a := by
  obtain @⟨members, name, type, size, hname, htype, hsize⟩ := h
  have htype' : ((Json.member? "type" members).map Json.plain).getD "INTEGER" = type := by
    cases hmember : Json.member? "type" members with
    | none => simpa [hmember] using htype
    | some v =>
      obtain rfl : v = .str type := by simpa [hmember] using htype
      rfl
  simp [Descriptor.readColumn, hname, htype', readSize, hsize, Json.plain, Except.map]

theorem readColumns_of_forall₂ (h : List.Forall₂ (IsColumn table) columns attributes) :
    readColumns table columns = .ok attributes := by
  induction h with
  | nil => rfl
  | cons hcolumn _ ih => simp [readColumns, hcolumn.readColumn, ih, Except.map]

/-- The sum that is written is that of the sizes of the columns. -/
theorem totalSize_of_forall₂ (h : List.Forall₂ (IsColumn table) columns attributes) :
    totalSize columns = .ok (Schema.totalSize attributes) := by
  induction h with
  | nil => rfl
  | cons hcolumn _ ih =>
    obtain ⟨-, -, hsize⟩ := hcolumn
    simp [totalSize, hsize, ih, Except.map, Schema.totalSize]

/-- The descriptor of columns describes the schema of these columns. -/
theorem readSchema_ofColumns (h : List.Forall₂ (IsColumn table) columns attributes) :
    readSchema table (ofColumns columns (Schema.totalSize attributes)) =
      .ok (Schema.ofAttributes attributes) := by
  have hcolumns := readColumns_of_forall₂ h
  simp [readSchema, ofColumns, Json.member?, columnItems, hcolumns, readSize, Json.toInteger,
    Schema.ofAttributes, bind, Except.bind, pure, Except.pure]

theorem sound_ofColumns (h : ∀ v ∈ columns, v.Sound) (size : ℤ) :
    (ofColumns columns size).Sound := by
  refine .obj (by simp) fun m hm => ?_
  simp only [List.mem_cons, List.not_mem_nil, or_false] at hm
  obtain rfl | rfl := hm
  · exact .arr h
  · exact .int size

/-- A value is read from the bytes that it was written in. -/
theorem readJson_writeIndented (h : value.Sound) :
    readJson value.writeIndented.toUTF8 = .ok value := by
  have hplain := h.plain_write (.indented 0)
  have hread := h.read_write (.indented 0)
  unfold readJson Json.writeIndented
  rw [Utf8.decode_toUTF8_of_plain hplain]
  simp only [Text.unifyLineEnds_of_plain hplain, hread]

end Descriptor

namespace Catalog

open Files (IsName)

variable {c : Catalog} {table other : String} {columns : List Json} {attributes : List Attribute}
  {files u : Files} {tuples : String} {distinct : List String} {schema : Schema}
  {statistics : Statistics}

/-! ### The files of a table -/

/-- What the names of the two files of a table end with. -/
theorem isName_append {ending : String} (h : 2 < ending.toList.length) :
    IsName (table ++ ending) := by
  have hlong : 2 < (table ++ ending).toList.length := by
    rw [String.toList_append, List.length_append]
    omega
  refine ⟨?_, ?_, ?_⟩ <;>
  · intro heq
    rw [heq] at hlong
    revert hlong
    decide

theorem isName_schema (table : String) : IsName (table ++ ".schema.json") :=
  isName_append (by decide)

theorem isName_statistics (table : String) : IsName (table ++ ".stat") :=
  isName_append (by decide)

theorem slash_not_mem_append {ending : String} (htable : '/' ∉ table.toList)
    (hending : '/' ∉ ending.toList) : '/' ∉ (table ++ ending).toList := by
  rw [String.toList_append, List.mem_append]
  exact not_or.2 ⟨htable, hending⟩

/-- The descriptor of a table and the statistics of a table are different files. -/
theorem schema_ne_statistics (table other : String) :
    table ++ ".schema.json" ≠ other ++ ".stat" := by
  intro heq
  have hlast := congrArg (fun s : String => s.toList.getLast?) heq
  have hschema : ".schema.json".toList = ".schema.jso".toList ++ ['n'] := by decide
  have hstatistics : ".stat".toList = ".sta".toList ++ ['t'] := by decide
  simp only [String.toList_append, hschema, hstatistics, ← List.append_assoc,
    List.getLast?_concat] at hlast
  revert hlast
  decide

theorem append_ne_append (hother : other ≠ table) (ending : String) :
    table ++ ending ≠ other ++ ending := by
  intro heq
  have hlist := congrArg String.toList heq
  rw [String.toList_append, String.toList_append, List.append_left_inj] at hlist
  exact hother (String.toList_inj.1 hlist).symm

/-- The file that a path of a table leads to. -/
theorem getLast?_of_reaches_schema (htable : '/' ∉ table.toList) {name : List String}
    (h : files.Reaches (c.schemaPath table) name) : name.getLast? = some (table ++ ".schema.json") :=
  h.getLast?_joinPath (isName_schema table) (slash_not_mem_append htable (by decide))

theorem getLast?_of_reaches_statistics (htable : '/' ∉ table.toList) {name : List String}
    (h : files.Reaches (c.statisticsPath table) name) : name.getLast? = some (table ++ ".stat") :=
  h.getLast?_joinPath (isName_statistics table) (slash_not_mem_append htable (by decide))

/-! ### Storing a table -/

/-- What there is after a table is stored: the directory, the descriptor and the statistics, written
one after the other. -/
theorem run_storeTable_eq_ok :
    (c.storeTable table columns tuples distinct).run files = (.ok ⟨⟩, u) ↔
      ∃ (made : Files) (size : ℤ) (first second : List String),
        (FilesM.makeDirectory c.directory).run files = (.ok ⟨⟩, made) ∧
        Descriptor.totalSize columns = .ok size ∧
        '\x00' ∉ (c.schemaPath table).toList ∧ '\x00' ∉ (c.statisticsPath table).toList ∧
        made.Reaches (c.schemaPath table) first ∧
        (made.withContent first (Descriptor.ofColumns columns size).writeIndented.toUTF8).Reaches
          (c.statisticsPath table) second ∧
        u = (made.withContent first
            (Descriptor.ofColumns columns size).writeIndented.toUTF8).withContent
          second (Statistics.write tuples distinct).toUTF8 := by
  unfold storeTable
  simp only [Program.run_bind_eq_ok, FilesM.run_writeText_eq_ok, Program.run_ofExcept,
    Prod.mk.injEq]
  constructor
  · rintro ⟨⟨⟩, made, hmake, size, _, ⟨hsize, rfl⟩, ⟨⟩, _, ⟨hnul, first, hfirst, rfl⟩, hnul',
      second, hsecond, rfl⟩
    exact ⟨made, size, first, second, hmake, hsize, hnul, hnul', hfirst, hsecond, rfl⟩
  · rintro ⟨made, size, first, second, hmake, hsize, hnul, hnul', hfirst, hsecond, rfl⟩
    exact ⟨⟨⟩, made, hmake, size, made, ⟨hsize, rfl⟩, ⟨⟩, _, ⟨hnul, first, hfirst, rfl⟩, hnul',
      second, hsecond, rfl⟩

/-- A table whose descriptor and statistics are in their files is loaded as they say. -/
theorem loadSchema_eq_ok {bytes : ByteArray} {value : Json}
    (hnul : '\x00' ∉ (c.schemaPath table).toList)
    (hread : c.files.read (c.schemaPath table) = .ok bytes)
    (hjson : Descriptor.readJson bytes = .ok value)
    (hschema : Descriptor.readSchema table value = .ok schema) (hsize : 0 < schema.tupleSize) :
    c.loadSchema table = .ok schema := by
  have hvalue : c.readDescriptor table = .ok value := by
    simp [readDescriptor, hasNul, hnul, hread, hjson]
  simp [loadSchema, hvalue, hschema, hsize]

theorem loadStatistics_eq_ok {text : String} {columns : ℤ}
    (hnul : '\x00' ∉ (c.statisticsPath table).toList)
    (hread : c.files.read (c.statisticsPath table) = .ok text.toUTF8)
    (hplain : Text.Plain text.toList)
    (hlines : Statistics.ofLines columns ((Text.splitLines text.toList).map String.ofList) =
      .ok statistics) :
    c.loadStatistics table columns = .ok statistics := by
  unfold loadStatistics
  rw [if_neg (by simpa [hasNul] using hnul), hread]
  simp only [Utf8.decode_toUTF8_of_plain hplain, Text.unifyLineEnds_of_plain hplain, hlines]

/-- The files of all other tables of a catalog are as they were. -/
def KeepsOthers (c : Catalog) (table : String) (files u : Files) : Prop :=
  ∀ other, other ≠ table → '/' ∉ other.toList →
    ∀ path ∈ [c.schemaPath other, c.statisticsPath other], ∀ name,
      files.Reaches path name ∨ u.Reaches path name → u.contents.get? name = files.contents.get? name

/-- The last part of a name tells the files of different tables apart. -/
theorem ne_of_reaches {name first second : List String} {path : String} {fs : Files}
    (hother : other ≠ table) (hslash : '/' ∉ other.toList)
    (hfirst : first.getLast? = some (table ++ ".schema.json"))
    (hsecond : second.getLast? = some (table ++ ".stat"))
    (hpath : path ∈ [c.schemaPath other, c.statisticsPath other]) (hname : fs.Reaches path name) :
    first ≠ name ∧ second ≠ name := by
  simp only [List.mem_cons, List.not_mem_nil, or_false] at hpath
  obtain rfl | rfl := hpath
  · have hlast := getLast?_of_reaches_schema hslash hname
    constructor <;> rintro rfl
    · rw [hfirst] at hlast
      exact append_ne_append hother _ (Option.some.inj hlast)
    · rw [hsecond] at hlast
      exact schema_ne_statistics _ _ (Option.some.inj hlast).symm
  · have hlast := getLast?_of_reaches_statistics hslash hname
    constructor <;> rintro rfl
    · rw [hfirst] at hlast
      exact schema_ne_statistics _ _ (Option.some.inj hlast)
    · rw [hsecond] at hlast
      exact append_ne_append hother _ (Option.some.inj hlast)

/-- A table that is stored changes no file of another table. -/
theorem keepsOthers_of_storeTable (htable : '/' ∉ table.toList)
    (h : (c.storeTable table columns tuples distinct).run files = (.ok ⟨⟩, u)) :
    c.KeepsOthers table files u := by
  obtain ⟨made, size, first, second, hmake, -, -, -, hfirst, hsecond, rfl⟩ :=
    run_storeTable_eq_ok.1 h
  have hgrows := FilesM.grows_of_makeDirectory hmake
  intro other hother hslash path hpath name hname
  obtain ⟨hfirst', hsecond'⟩ : first ≠ name ∧ second ≠ name := by
    have hlast := getLast?_of_reaches_schema htable hfirst
    have hlast' := getLast?_of_reaches_statistics htable hsecond
    obtain hname | hname := hname <;> exact ne_of_reaches hother hslash hlast hlast' hpath hname
  rw [Files.withContent, OrderedMap.get?_insert_of_ne _ hsecond', Files.withContent,
    OrderedMap.get?_insert_of_ne _ hfirst', hgrows.contents]

/-- A table that is stored is loaded as it was given. -/
theorem load_of_storeTable {n : ℕ} {counts : List ℕ} (htable : '/' ∉ table.toList)
    (hsound : ∀ v ∈ columns, v.Sound)
    (hcolumns : List.Forall₂ (Descriptor.IsColumn table) columns attributes)
    (hsize : 0 < Schema.totalSize attributes) (hcounts : counts.length = columns.length)
    (h : (c.storeTable table columns (toString n) (counts.map toString)).run files = (.ok ⟨⟩, u)) :
    { c with files := u }.loadSchema table = .ok (Schema.ofAttributes attributes) ∧
      { c with files := u }.loadStatistics table columns.length = .ok ⟨n, counts⟩ := by
  obtain ⟨made, size, first, second, hmake, htotal, hnul, hnul', hfirst, hsecond, rfl⟩ :=
    run_storeTable_eq_ok.1 h
  obtain rfl : Schema.totalSize attributes = size :=
    Except.ok.inj ((Descriptor.totalSize_of_forall₂ hcolumns).symm.trans htotal)
  have hne : first ≠ second := by
    rintro rfl
    have hlast := getLast?_of_reaches_schema htable hfirst
    rw [getLast?_of_reaches_statistics htable hsecond] at hlast
    exact schema_ne_statistics table table (Option.some.inj hlast).symm
  constructor
  · refine loadSchema_eq_ok hnul ?_
      (Descriptor.readJson_writeIndented (Descriptor.sound_ofColumns hsound _))
      (Descriptor.readSchema_ofColumns hcolumns) hsize
    exact ((hfirst.withContent first _).read_withContent_of_ne hne _).trans
      (hfirst.read_withContent _)
  · rw [← hcounts]
    exact loadStatistics_eq_ok hnul' (hsecond.read_withContent _) (Statistics.plain_write n counts)
      (Statistics.ofLines_write n counts)

/-- A null character in the path of a file of a table comes from the directory. -/
theorem nul_not_mem_joinPath {ending : String} (htable : '/' ∉ table.toList)
    (hnul : '\x00' ∉ table.toList) (hdirectory : '\x00' ∉ c.directory.toList)
    (hending : '/' ∉ ending.toList ∧ '\x00' ∉ ending.toList) :
    '\x00' ∉ (Files.joinPath c.directory (table ++ ending)).toList := by
  have hslash := slash_not_mem_append htable hending.1
  rw [Files.mem_joinPath (fun h => hslash (List.mem_of_head? h)) (by decide), String.toList_append,
    List.mem_append]
  exact not_or.2 ⟨hdirectory, not_or.2 ⟨hnul, hending.2⟩⟩

/-- Once the directory is made, a table is stored, unless its name is too long for a file or there
are directories in the place of its files. -/
theorem exists_of_makeDirectory {made : Files} {size : ℤ} (htable : '/' ∉ table.toList)
    (hnul : '\x00' ∉ table.toList) (hdirectory : '\x00' ∉ c.directory.toList)
    (hsize : Descriptor.totalSize columns = .ok size)
    (hlong : (table ++ ".schema.json").utf8ByteSize ≤ Files.maxNameSize)
    (hmake : (FilesM.makeDirectory c.directory).run files = (.ok ⟨⟩, made))
    (hfree : ∀ path ∈ [c.schemaPath table, c.statisticsPath table], ∀ name,
      made.locate path ≠ .ok (.directory name)) :
    ∃ u, (c.storeTable table columns tuples distinct).run files = (.ok ⟨⟩, u) := by
  have hlong' : (table ++ ".stat").utf8ByteSize ≤ Files.maxNameSize := by
    refine le_trans ?_ hlong
    rw [String.utf8ByteSize_append, String.utf8ByteSize_append]
    exact Nat.add_le_add_left (by decide) _
  obtain ⟨first, hfirst⟩ := FilesM.exists_reaches_of_makeDirectory hmake (isName_schema table)
    (slash_not_mem_append htable (by decide)) hlong (hfree _ (by simp [schemaPath]))
  obtain ⟨second, hsecond⟩ := FilesM.exists_reaches_of_makeDirectory hmake (isName_statistics table)
    (slash_not_mem_append htable (by decide)) hlong' (hfree _ (by simp [statisticsPath]))
  exact ⟨_, run_storeTable_eq_ok.2 ⟨made, size, first, second, hmake, hsize,
    nul_not_mem_joinPath htable hnul hdirectory (by decide),
    nul_not_mem_joinPath htable hnul hdirectory (by decide), hfirst, hsecond.withContent _ _, rfl⟩⟩

/-- When the sizes of the columns cannot be added up, storing a table writes no file. -/
theorem storeTable_of_totalSize_eq_error {f : Failure}
    (h : Descriptor.totalSize columns = .error f) :
    (c.storeTable table columns tuples distinct).Always
      (fun t => t.contents = files.contents) files ∧
    ∀ made, (FilesM.makeDirectory c.directory).run files = (.ok ⟨⟩, made) →
      (c.storeTable table columns tuples distinct).run files = (.error f, made) := by
  unfold storeTable
  rw [h]
  constructor
  · refine Program.always_bind.2 ⟨fun t ht => ?_, fun _ made hmake => ?_⟩
    · exact (FilesM.always_grows_makeDirectory files c.directory t ht).contents
    · refine Program.always_bind.2 ⟨Program.always_ofExcept _ _ _, fun _ _ hsize => ?_⟩
      cases hsize
  · intro made hmake
    rw [Program.run_bind, hmake]
    rfl

/-- A table that is stored is loaded with the columns and the numbers that it was given, whatever
the files held before, and the files of all other tables are as they were. It is stored unless its
directory cannot be made, its name is too long or directories are in the place of its files. When
the sizes of the columns cannot be added up, no file is made or changed. -/
theorem load_stored (c : Catalog) {table : String} (hslash : '/' ∉ table.toList)
    (hnul : '\x00' ∉ table.toList) (columns : List Json) (n : ℕ) (counts : List ℕ)
    (files : Files) :
    let store := c.storeTable table columns (toString n) (counts.map toString)
    (∀ attributes, (∀ v ∈ columns, v.Sound) →
      List.Forall₂ (Descriptor.IsColumn table) columns attributes →
      0 < Schema.totalSize attributes → counts.length = columns.length →
      (∀ u, store.run files = (.ok ⟨⟩, u) →
        { c with files := u }.loadSchema table = .ok (Schema.ofAttributes attributes) ∧
        { c with files := u }.loadStatistics table columns.length = .ok ⟨n, counts⟩ ∧
        c.KeepsOthers table files u) ∧
      ∀ made, '\x00' ∉ c.directory.toList →
        (table ++ ".schema.json").utf8ByteSize ≤ Files.maxNameSize →
        (FilesM.makeDirectory c.directory).run files = (.ok ⟨⟩, made) →
        (∀ path ∈ [c.schemaPath table, c.statisticsPath table], ∀ name,
          made.locate path ≠ .ok (.directory name)) →
        ∃ u, store.run files = (.ok ⟨⟩, u)) ∧
    ∀ f, Descriptor.totalSize columns = .error f →
      store.Always (fun t => t.contents = files.contents) files ∧
      (store.run files).2.contents = files.contents ∧
      ∀ made, (FilesM.makeDirectory c.directory).run files = (.ok ⟨⟩, made) →
        store.run files = (.error f, made) := by
  intro store
  refine ⟨fun attributes hsound hcolumns hsize hcounts => ⟨fun u hstore => ?_, ?_⟩, fun f hf => ?_⟩
  · obtain ⟨hschema, hstatistics⟩ :=
      load_of_storeTable hslash hsound hcolumns hsize hcounts hstore
    exact ⟨hschema, hstatistics, keepsOthers_of_storeTable hslash hstore⟩
  · intro made hdirectory hlong hmake hfree
    exact exists_of_makeDirectory hslash hnul hdirectory
      (Descriptor.totalSize_of_forall₂ hcolumns) hlong hmake hfree
  · obtain ⟨halways, herror⟩ := storeTable_of_totalSize_eq_error hf
    exact ⟨halways, halways.run_snd rfl, herror⟩

/-- A catalog in a directory that is not there yet. -/
def Sample.newCatalog : Catalog := { directory := "d" }

/-- A column with a size that is no integer. -/
def Sample.sizelessColumn : Json := .obj [("name", .str "a"), ("size", .str "wide")]

/-- A column with a name beyond sixteen bits and a size of two and a half, one with a size in
digits of another script, and one without a size. -/
def Sample.newColumns : List Json :=
  [.obj [("name", .str "😀"), ("size", .real (.finite false (5 * twoPow 1073)))],
    .obj [("name", .str "b"), ("type", .str "VARCHAR"), ("size", .str " ٣ ")],
    .obj [("name", .str "c"), ("note", .arr [.null, .bool true])]]

/-- The columns as they are loaded. -/
def Sample.newAttributes : List Attribute :=
  [{ table := some "t", name := "😀", type := "INTEGER", size := 2 },
    { table := some "t", name := "b", type := "VARCHAR", size := 3 },
    { table := some "t", name := "c", type := "INTEGER", size := 4 }]

theorem load_stored_sample : ∃ u,
    (Sample.newCatalog.storeTable "t" Sample.newColumns "7" ["0", "10", "2"]).run {} =
      (.ok ⟨⟩, u) ∧
    { Sample.newCatalog with files := u }.loadSchema "t" =
      .ok (Schema.ofAttributes Sample.newAttributes) ∧
    { Sample.newCatalog with files := u }.loadStatistics "t" 3 = .ok ⟨7, [0, 10, 2]⟩ ∧
    Sample.newCatalog.KeepsOthers "t" {} u ∧
    ∃ made, (Sample.newCatalog.storeTable "t" [Sample.sizelessColumn] "7" []).run {} =
      (.error (.badNumeral "wide"), made) ∧ made.contents = {} := by
  have hreal : (Json.real (.finite false (5 * twoPow 1073))).Sound :=
    .real ⟨Nat.mul_le_mul (by decide) (twoPow_le_twoPow (by decide)), 5, 1073, by decide, rfl⟩
  have hnote : (Json.arr [.null, .bool true]).Sound :=
    .arr (by simp [Json.Sound.null, Json.Sound.bool])
  have hsound : ∀ v ∈ Sample.newColumns, v.Sound := by
    simp only [Sample.newColumns, List.forall_mem_cons]
    refine ⟨.obj (by decide) ?_, .obj (by decide) ?_, .obj (by decide) ?_, nofun⟩ <;>
      simp [Json.Sound.str, hreal, hnote]
  have hcolumns : List.Forall₂ (Descriptor.IsColumn "t") Sample.newColumns Sample.newAttributes :=
    .cons (.mk rfl rfl (by decide +kernel)) (.cons (.mk rfl rfl (by decide +kernel))
      (.cons (.mk rfl rfl rfl) .nil))
  obtain ⟨hload, -⟩ := Sample.newCatalog.load_stored (by decide : '/' ∉ "t".toList) (by decide)
    Sample.newColumns 7 [0, 10, 2] {}
  obtain ⟨hload, hstore⟩ := hload Sample.newAttributes hsound hcolumns (by decide) rfl
  have hmake : ((FilesM.makeDirectory "d").run {}).1 = .ok ⟨⟩ := by decide +kernel
  have hfree : ∀ path ∈ ["d/t.schema.json", "d/t.stat"], ∃ file ∈ ["t.schema.json", "t.stat"],
      ((FilesM.makeDirectory "d").run {}).2.locate path = .ok (.free ["d", file]) := by
    decide +kernel
  obtain ⟨u, hu⟩ := hstore ((FilesM.makeDirectory "d").run {}).2 (by decide) (by decide)
    (Prod.ext hmake rfl) (fun path hpath name hname => by
      obtain ⟨file, -, hfile⟩ := hfree path hpath
      cases hfile.symm.trans hname)
  obtain ⟨hschema, hstatistics, hothers⟩ := hload u hu
  obtain ⟨-, hfail⟩ := Sample.newCatalog.load_stored (by decide : '/' ∉ "t".toList) (by decide)
    [Sample.sizelessColumn] 7 [] {}
  obtain ⟨-, hkept, herror⟩ := hfail (.badNumeral "wide") (by decide +kernel)
  have hfailed := herror ((FilesM.makeDirectory "d").run {}).2 (Prod.ext hmake rfl)
  exact ⟨u, hu, hschema, hstatistics, hothers, _, hfailed,
    (congrArg (fun p => p.2.contents) hfailed).symm.trans hkept⟩

end Catalog

end QueryPlan
