import QueryPlan.Proofs.Program
import QueryPlan.Proofs.Store.Files
import QueryPlan.Store.Writing

/-!
# What programs that write files leave

Making a directory adds directories to the tree of files and nothing else, and it leaves a tree in
which the path leads to a directory. A name within that directory then leads to a file of that name
wherever there is no directory in its place, and files of different names are different.

## Main definitions

* `Files.Grows` : a tree has the files of another one, and at least its directories.

## Main results

* `FilesM.always_grows_makeDirectory` : making a directory changes no file.
* `FilesM.follow_of_makeDirectory` : the path of a directory that was made leads to it.
* `Files.Reaches.getLast?_joinPath` : a name within a directory leads to a file of that name.
* `FilesM.exists_reaches_of_makeDirectory` : such a file can be made once the directory is.
-/

namespace QueryPlan

namespace Files

variable {fs fs' fs'' : Files} {here around name parts more : List String} {directory part : String}
  {place : Place} {cs ds : List Char}

/-! ### Paths -/

/-- A text without slashes is one part. -/
theorem splitSlashes_of_not_mem (h : '/' ∉ cs) : splitSlashes cs = [cs] := by
  induction cs with
  | nil => rfl
  | cons c cs ih =>
    simp only [List.mem_cons, not_or] at h
    rw [splitSlashes, if_neg (Ne.symm h.1), ih h.2]

/-- Texts on both sides of a slash are split by themselves. -/
theorem splitSlashes_append_cons (cs ds : List Char) :
    splitSlashes (cs ++ '/' :: ds) = splitSlashes cs ++ splitSlashes ds := by
  induction cs with
  | nil => simp [splitSlashes]
  | cons c cs ih =>
    obtain rfl | hc := eq_or_ne c '/'
    · simp [splitSlashes, ih]
    · have hne : splitSlashes cs ≠ [] := by
        cases cs with
        | nil => simp [splitSlashes]
        | cons d cs =>
          rw [splitSlashes]
          split
          · simp
          · split <;> simp
      obtain ⟨part, parts, hparts⟩ := List.exists_cons_of_ne_nil hne
      rw [List.cons_append, splitSlashes, if_neg hc, ih, splitSlashes, if_neg hc, hparts]
      rfl

/-- A name is the last part of its path within a directory. -/
theorem exists_partsOf_joinPath (directory : String) {name : String} (hslash : '/' ∉ name.toList) :
    ∃ parts, partsOf (joinPath directory name) = parts ++ [name] ∧
      (directory ≠ "" → partsOf directory = parts ∨ partsOf directory = parts ++ [""]) := by
  have hhead : name.toList.head? ≠ some '/' := fun h => hslash (List.mem_of_head? h)
  have hname : (splitSlashes name.toList).map String.ofList = [name] := by
    rw [splitSlashes_of_not_mem hslash, List.map_singleton, String.ofList_toList]
  rw [joinPath, if_neg hhead]
  split
  · rename_i hend
    simp only [Bool.or_eq_true, decide_eq_true_eq] at hend
    obtain rfl | hend := hend
    · exact ⟨[], by simpa [partsOf] using hname, fun h => absurd rfl h⟩
    · obtain ⟨cs, hcs⟩ := List.getLast?_eq_some_iff.1 hend
      refine ⟨(splitSlashes cs).map String.ofList, ?_, fun _ => .inr ?_⟩
      · rw [partsOf, String.toList_append, hcs, List.append_assoc, List.singleton_append,
          splitSlashes_append_cons, List.map_append, hname]
      · rw [partsOf, hcs, splitSlashes_append_cons, List.map_append]
        rfl
  · refine ⟨partsOf directory, ?_, fun _ => .inl rfl⟩
    rw [partsOf, String.toList_append, String.toList_append, List.append_assoc]
    exact (congrArg _ (splitSlashes_append_cons directory.toList name.toList)).trans
      (by rw [List.map_append, hname]; rfl)

/-- The name of a file or directory: neither empty nor one of the two names with a meaning. -/
def IsName (part : String) : Prop := part ≠ "" ∧ part ≠ "." ∧ part ≠ ".."

/-- A way that goes on with a name. -/
theorem follow_cons (hpart : IsName part) :
    fs.follow here (part :: parts) =
      if maxNameSize < part.utf8ByteSize then .error .nameTooLong
      else if fs.directories.contains (here ++ [part]) then fs.follow (here ++ [part]) parts
      else if fs.contents.contains (here ++ [part]) then
        if parts.isEmpty then .ok (.file (here ++ [part])) else .error .notDirectory
      else if parts.isEmpty then .ok (.free (here ++ [part])) else .error .missing := by
  obtain ⟨hempty, hdot, hup⟩ := hpart
  rw [follow, if_neg (by simp [hempty, hdot]), if_neg hup]

/-- A way goes on from the directory that its first part leads to. -/
theorem follow_append_eq_ok (hmore : more ≠ []) :
    fs.follow here (parts ++ more) = .ok place ↔
      ∃ around, fs.follow here parts = .ok (.directory around) ∧
        fs.follow around more = .ok place := by
  induction parts generalizing here with
  | nil => simp [follow]
  | cons part parts ih =>
    rw [List.cons_append, follow, follow]
    split
    · exact ih
    split
    · cases above here with
      | none => simp
      | some around => exact ih
    split
    · simp
    split
    · exact ih
    · cases parts <;> split <;> simp [hmore]

/-- A name within a directory is looked for where the directory is. -/
theorem origin_joinPath (fs : Files) {file : String} (hdirectory : directory ≠ "")
    (hslash : '/' ∉ file.toList) :
    joinPath directory file ≠ "" ∧ fs.origin (joinPath directory file) = fs.origin directory := by
  have hhead : file.toList.head? ≠ some '/' := fun h => hslash (List.mem_of_head? h)
  have hne : directory.toList ≠ [] := by simpa using hdirectory
  have hprefix : ∃ cs, (joinPath directory file).toList = directory.toList ++ cs := by
    rw [joinPath, if_neg hhead]
    split
    · exact ⟨_, String.toList_append ..⟩
    · exact ⟨"/".toList ++ file.toList, by simp⟩
  obtain ⟨cs, hcs⟩ := hprefix
  refine ⟨fun hempty => ?_, ?_⟩
  · rw [hempty] at hcs
    exact hne (List.append_eq_nil_iff.1 hcs.symm).1
  · rw [origin, origin, hcs, List.head?_append_of_ne_nil _ hne]

/-- A way to a file that ends with a name ends in the file of that name, within some directory. -/
theorem exists_append_of_follow (hpart : IsName part)
    (h : fs.follow here (parts ++ [part]) = .ok place)
    (hplace : place = .file name ∨ place = .free name) : ∃ around, name = around ++ [part] := by
  obtain ⟨around, -, hfollow⟩ := (follow_append_eq_ok (List.cons_ne_nil part [])).1 h
  refine ⟨around, ?_⟩
  rw [follow_cons hpart] at hfollow
  split_ifs at hfollow
  · obtain rfl := Except.ok.inj hfollow
    simp at hplace
  all_goals
    obtain rfl := Except.ok.inj hfollow
    simpa [eq_comm] using hplace

/-- A name within a directory leads to a file of that name. -/
theorem Reaches.getLast?_joinPath {file : String} (hfile : IsName file)
    (hslash : '/' ∉ file.toList) (h : fs.Reaches (joinPath directory file) name) :
    name.getLast? = some file := by
  obtain ⟨parts, hparts, -⟩ := exists_partsOf_joinPath directory hslash
  have hplace : ∃ place, fs.follow (fs.origin (joinPath directory file)) (parts ++ [file]) =
      .ok place ∧ (place = .file name ∨ place = .free name) := by
    unfold Reaches locate at h
    rw [hparts] at h
    split at h
    · simp at h
    · obtain h | h := h
      · exact ⟨_, h, .inl rfl⟩
      · exact ⟨_, h, .inr rfl⟩
  obtain ⟨place, hfollow, hplace⟩ := hplace
  obtain ⟨around, rfl⟩ := exists_append_of_follow hfile hfollow hplace
  exact List.getLast?_concat

/-! ### Trees with more directories -/

/-- A tree has the files of another one, and at least its directories. -/
structure Grows (fs fs' : Files) : Prop where
  start : fs'.start = fs.start
  contents : fs'.contents = fs.contents
  directories : ∀ name ∈ fs.directories, name ∈ fs'.directories

theorem Grows.refl (fs : Files) : fs.Grows fs := ⟨rfl, rfl, fun _ h => h⟩

theorem Grows.trans (h : fs.Grows fs') (h' : fs'.Grows fs'') : fs.Grows fs'' :=
  ⟨h'.start.trans h.start, h'.contents.trans h.contents,
    fun name hname => h'.directories name (h.directories name hname)⟩

theorem Grows.origin_eq (h : fs.Grows fs') (path : String) : fs'.origin path = fs.origin path := by
  rw [origin, origin, h.start]

theorem grows_addDirectory (fs : Files) (name : List String) : fs.Grows (fs.addDirectory name) := by
  unfold addDirectory
  split
  · exact .refl fs
  · exact ⟨rfl, rfl, fun _ h => List.mem_append_left _ h⟩

theorem mem_directories_addDirectory (fs : Files) (name : List String) :
    name ∈ (fs.addDirectory name).directories := by
  unfold addDirectory
  split
  · rename_i h
    exact List.contains_iff_mem.1 h
  · exact List.mem_append_right _ List.mem_cons_self

end Files

namespace FilesM

open Files Program

variable {fs t : Files} {here passed parts : List String} {directory : String}

/-! ### Making a directory -/

/-- All along the making of directories, the tree has the same files and no fewer directories. -/
theorem always_grows_makeDirectories (h : fs.Grows t) :
    (makeDirectories here passed parts).Always fs.Grows t := by
  induction parts generalizing here passed t with
  | nil => exact always_pure _ _ _
  | cons part parts ih =>
    rw [makeDirectories]
    refine always_bind.2 ⟨always_get _ _, fun files s hrun => ?_⟩
    obtain ⟨rfl, rfl⟩ : files = t ∧ s = t := by simpa [eq_comm] using hrun
    split_ifs with hstay hnul hup hlong hdirectory hfile
    · exact ih h
    · exact always_fail _ _ _
    · cases above here with
      | none => exact always_fail _ _ _
      | some around => exact ih h
    · exact always_fail _ _ _
    · exact ih h
    · split <;> exact always_fail _ _ _
    · have hgrows := h.trans (grows_addDirectory _ (here ++ [part]))
      refine always_bind.2 ⟨(always_modify _ _ _).2 hgrows, fun _ s hrun => ?_⟩
      obtain ⟨-, rfl⟩ := Prod.mk.inj hrun
      exact ih hgrows

/-- A way through directories that were made leads to a directory. -/
theorem follow_of_makeDirectories (h : (makeDirectories here passed parts).run fs = (.ok ⟨⟩, t)) :
    ∃ around, t.follow here parts = .ok (.directory around) := by
  have hgrows (here passed parts : List String) {s : Files}
      (h : (makeDirectories here passed parts).run s = (.ok ⟨⟩, t)) : s.Grows t := by
    have halways : (makeDirectories here passed parts).Always s.Grows s :=
      always_grows_makeDirectories (.refl s)
    simpa only [h] using halways.run_snd (.refl s)
  induction parts generalizing here passed fs with
  | nil => exact ⟨here, rfl⟩
  | cons part parts ih =>
    rw [makeDirectories] at h
    obtain ⟨files, s, hget, hrun⟩ := run_bind_eq_ok.1 h
    obtain ⟨rfl, rfl⟩ : files = fs ∧ s = fs := by simpa [eq_comm] using hget
    rw [follow]
    split_ifs at hrun with hstay hnul hup hlong hdirectory hfile
    · rw [if_pos hstay]
      exact ih hrun
    · cases hrun
    · rw [if_neg hstay, if_pos hup]
      cases habove : above here with
      | none =>
        rw [habove] at hrun
        cases hrun
      | some around =>
        rw [habove] at hrun
        exact ih hrun
    · cases hrun
    · have hmem : here ++ [part] ∈ t.directories :=
        (hgrows _ _ _ hrun).directories _ (List.contains_iff_mem.1 hdirectory)
      rw [if_neg hstay, if_neg hup, if_neg hlong, if_pos (List.contains_iff_mem.2 hmem)]
      exact ih hrun
    · split at hrun <;> cases hrun
    · obtain ⟨_, s, hmodify, hrun⟩ := run_bind_eq_ok.1 hrun
      obtain ⟨-, rfl⟩ := Prod.mk.inj hmodify
      have hmem : here ++ [part] ∈ t.directories :=
        (hgrows _ _ _ hrun).directories _ (mem_directories_addDirectory _ _)
      rw [if_neg hstay, if_neg hup, if_neg hlong, if_pos (List.contains_iff_mem.2 hmem)]
      exact ih hrun

/-- Making a directory changes no file. -/
theorem always_grows_makeDirectory (fs : Files) (directory : String) :
    (makeDirectory directory).Always fs.Grows fs := by
  unfold makeDirectory
  split_ifs
  · exact always_fail _ _ _
  · refine always_bind.2 ⟨always_get _ _, fun files s hrun => ?_⟩
    obtain ⟨rfl, rfl⟩ : files = fs ∧ s = fs := by simpa [eq_comm] using hrun
    exact always_grows_makeDirectories (.refl _)

theorem grows_of_makeDirectory {result : Except Failure Unit}
    (h : (makeDirectory directory).run fs = (result, t)) : fs.Grows t := by
  simpa only [h] using (always_grows_makeDirectory fs directory).run_snd (.refl fs)

/-- The path of a directory that was made leads to a directory. -/
theorem follow_of_makeDirectory (h : (makeDirectory directory).run fs = (.ok ⟨⟩, t)) :
    directory ≠ "" ∧
      ∃ around, t.follow (t.origin directory) (partsOf directory) = .ok (.directory around) := by
  have hgrows := grows_of_makeDirectory h
  unfold makeDirectory at h
  split_ifs at h with hempty
  · cases h
  · obtain ⟨files, s, hget, h⟩ := run_bind_eq_ok.1 h
    obtain ⟨rfl, rfl⟩ : files = fs ∧ s = fs := by simpa [eq_comm] using hget
    refine ⟨hempty, ?_⟩
    rw [hgrows.origin_eq]
    exact follow_of_makeDirectories h

/-- Within a directory that was made, a name that is not too long leads to a file, unless a
directory has it. -/
theorem exists_reaches_of_makeDirectory {file : String}
    (h : (makeDirectory directory).run fs = (.ok ⟨⟩, t)) (hfile : IsName file)
    (hslash : '/' ∉ file.toList) (hsize : file.utf8ByteSize ≤ maxNameSize)
    (hfree : ∀ name, t.locate (joinPath directory file) ≠ .ok (.directory name)) :
    ∃ name, t.Reaches (joinPath directory file) name := by
  obtain ⟨hempty, around, hfollow⟩ := follow_of_makeDirectory h
  obtain ⟨parts, hparts, hdirectory⟩ := exists_partsOf_joinPath directory hslash
  obtain ⟨hpath, horigin⟩ := origin_joinPath t hempty hslash
  have hbefore : t.follow (t.origin directory) parts = .ok (.directory around) := by
    obtain hsame | hblank := hdirectory hempty
    · exact hsame ▸ hfollow
    · -- a slash at the end of the path of the directory adds nothing
      rw [hblank] at hfollow
      obtain ⟨_, hbefore, hstay⟩ := (follow_append_eq_ok (List.cons_ne_nil "" [])).1 hfollow
      exact hbefore.trans hstay
  have hlocate (place : Place) (hplace : t.follow around [file] = .ok place) :
      t.locate (joinPath directory file) = .ok place := by
    rw [locate, if_neg hpath, horigin, hparts]
    exact (follow_append_eq_ok (List.cons_ne_nil file [])).2 ⟨around, hbefore, hplace⟩
  refine ⟨around ++ [file], ?_⟩
  rw [follow_cons hfile, if_neg (not_lt.2 hsize)] at hlocate
  simp only [List.isEmpty_nil, if_true] at hlocate
  split_ifs at hlocate with hname hthere
  · exact absurd (hlocate _ rfl) (hfree _)
  · exact .inl (hlocate _ rfl)
  · exact .inr (hlocate _ rfl)

/-! ### Writing a text -/

/-- A text is written where its path leads; no path with a null character leads anywhere. -/
theorem run_writeText_eq_ok {path text : String} {done : Unit} :
    (writeText path text).run fs = (.ok done, t) ↔
      '\x00' ∉ path.toList ∧ ∃ name, fs.Reaches path name ∧ t = fs.withContent name text.toUTF8 := by
  rw [← write_eq_ok_iff]
  unfold writeText
  generalize text.toUTF8 = bytes
  split_ifs with hnul
  · simp only [List.contains_iff_mem] at hnul
    simp [hnul]
  · simp only [List.contains_iff_mem] at hnul
    rw [run_bind, run_get]
    dsimp only
    cases fs.write path bytes with
    | error f => simp
    | ok files =>
      have hset : (set files : FilesM PUnit).run fs = (.ok ⟨⟩, files) := rfl
      simp [hnul, hset]

end FilesM

end QueryPlan
