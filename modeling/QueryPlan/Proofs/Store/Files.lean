import Mathlib
import QueryPlan.Store.Files

/-!
# Writing and reading files

A file that is written has a name in the tree of files, the one that its path leads to. Writing it
changes what that name holds. All ways through the tree stay, except that what was a free place is
a file afterwards.

## Main definitions

* `Files.withContent` : the tree with the given bytes in the file of a name.
* `Files.Reaches` : a path leads to the name of a file, which there need not be yet.

## Main results

* `Files.write_eq_ok_iff` : when a file can be written, and the tree afterwards.
* `Files.Reaches.withContent` : a path leads to the same name after any file is written.
* `Files.read_of_write` : what is written is read back.
-/

namespace QueryPlan.Files

variable {fs fs' : Files} {path : String} {name other here parts : List String}
  {bytes bytes' : ByteArray} {place : Place}

/-- The tree with the given bytes in the file of a name. -/
def withContent (fs : Files) (name : List String) (bytes : ByteArray) : Files :=
  { fs with contents := fs.contents.insert name bytes }

@[simp] theorem directories_withContent :
    (fs.withContent name bytes).directories = fs.directories := rfl

@[simp] theorem contains_withContent :
    (fs.withContent name bytes).contents.contains other =
      (decide (other = name) || fs.contents.contains other) := by
  rw [OrderedMap.contains, withContent, OrderedMap.get?_insert]
  by_cases hname : name = other
  · simp [hname]
  · simp [hname, Ne.symm hname, OrderedMap.contains]

/-- What a place is once there is a file of the given name. -/
def Place.filled (name : List String) : Place → Place
  | .free other => if other = name then .file other else .free other
  | place => place

/-- A way through the tree leads to the same place after a file is written. -/
theorem follow_withContent (h : fs.follow here parts = .ok place) :
    (fs.withContent name bytes).follow here parts = .ok (place.filled name) := by
  induction parts generalizing here with
  | nil =>
    obtain rfl := Except.ok.inj h
    rfl
  | cons part parts ih =>
    rw [follow] at h ⊢
    split at h
    · rename_i hstay
      rw [if_pos hstay]
      exact ih h
    rename_i hstay
    rw [if_neg hstay]
    split at h
    · rename_i hup
      rw [if_pos hup]
      split at h
      · cases h
      · exact ih h
    rename_i hup
    rw [if_neg hup]
    split at h
    · cases h
    rename_i hlong
    rw [if_neg hlong]
    split at h
    · rename_i hdir
      rw [directories_withContent, if_pos hdir]
      exact ih h
    rename_i hdir
    rw [directories_withContent, if_neg hdir, contains_withContent]
    -- the last part names a file or a free place
    split at h
    · rename_i hfile
      split at h
      · rename_i hlast
        obtain rfl := Except.ok.inj h
        simp [hfile, hlast, Place.filled]
      · cases h
    · rename_i hfile
      split at h
      · rename_i hlast
        obtain rfl := Except.ok.inj h
        by_cases hname : here ++ [part] = name <;> simp [hfile, hlast, hname, Place.filled]
      · cases h

/-- A path leads to the name of a file, which is there or can be made. -/
def Reaches (fs : Files) (path : String) (name : List String) : Prop :=
  fs.locate path = .ok (.file name) ∨ fs.locate path = .ok (.free name)

theorem locate_withContent (h : fs.locate path = .ok place) (name : List String)
    (bytes : ByteArray) :
    (fs.withContent name bytes).locate path = .ok (place.filled name) := by
  unfold locate at h ⊢
  split at h
  · cases h
  · rename_i hpath
    rw [if_neg hpath]
    exact follow_withContent h

/-- A path leads to the same name after any file is written. -/
theorem Reaches.withContent (h : fs.Reaches path name) (other : List String) (bytes : ByteArray) :
    (fs.withContent other bytes).Reaches path name := by
  obtain hfile | hfree := h
  · exact .inl (locate_withContent hfile other bytes)
  · have hlocate := locate_withContent hfree other bytes
    by_cases hname : name = other
    · exact .inl (by simpa [Place.filled, hname] using hlocate)
    · exact .inr (by simpa [Place.filled, hname] using hlocate)

/-- A file is written where its path leads. -/
theorem write_eq_ok_iff :
    fs.write path bytes = .ok fs' ↔
      ∃ name, fs.Reaches path name ∧ fs' = fs.withContent name bytes := by
  unfold write Reaches withContent
  cases fs.locate path with
  | error reason => simp
  | ok place => cases place <;> simp [eq_comm]

theorem Reaches.write (h : fs.Reaches path name) (bytes : ByteArray) :
    fs.write path bytes = .ok (fs.withContent name bytes) :=
  write_eq_ok_iff.2 ⟨name, h, rfl⟩

/-- A path that leads to the name of a file leads to the file once it is written. -/
theorem Reaches.read_withContent (h : fs.Reaches path name) (bytes : ByteArray) :
    (fs.withContent name bytes).read path = .ok bytes := by
  have hlocate : (fs.withContent name bytes).locate path = .ok (.file name) := by
    obtain hfile | hfree := h
    · exact locate_withContent hfile name bytes
    · simpa [Place.filled] using locate_withContent hfree name bytes
  rw [Files.read, hlocate]
  simp [Files.withContent]

/-- A file of another name is read as before. -/
theorem Reaches.read_withContent_of_ne (h : fs.Reaches path name) (hname : name ≠ other)
    (bytes : ByteArray) : (fs.withContent other bytes).read path = fs.read path := by
  obtain hfile | hfree := h
  · rw [Files.read, Files.read, locate_withContent hfile other bytes, hfile]
    simp [Place.filled, Files.withContent, OrderedMap.get?_insert_of_ne _ hname.symm]
  · rw [Files.read, Files.read, locate_withContent hfree other bytes, hfree]
    simp [Place.filled, hname]

/-- What is written is read back. -/
theorem read_of_write (h : fs.write path bytes = .ok fs') : fs'.read path = .ok bytes := by
  obtain ⟨name, hreaches, rfl⟩ := write_eq_ok_iff.1 h
  exact hreaches.read_withContent bytes

/-- Where a file was written, it can be written again. -/
theorem exists_write_of_write (h : fs.write path bytes = .ok fs') (bytes' : ByteArray) :
    ∃ fs'', fs'.write path bytes' = .ok fs'' := by
  obtain ⟨name, hreaches, rfl⟩ := write_eq_ok_iff.1 h
  exact ⟨_, (hreaches.withContent name bytes).write bytes'⟩

end QueryPlan.Files
