/-!
# Maps in order of insertion

An `OrderedMap` lists its keys in the order in which they were first inserted. Inserting under a key
that is there replaces the value and keeps the place; erasing a key and inserting it again puts it
at the end.

## Main definitions

* `OrderedMap.get?`, `OrderedMap.insert`, `OrderedMap.erase`, `OrderedMap.mapValues`.

## Main results

* `OrderedMap.get?_insert`, `OrderedMap.get?_erase` : what a key is bound to after a change, for
  maps without repeated keys in the case of `erase`.
* `OrderedMap.keys_insert_of_mem`, `OrderedMap.keys_insert_of_not_mem` : the order of the keys.
-/

namespace QueryPlan

/-- A finite map whose keys are listed in the order of their first insertion. -/
structure OrderedMap (α β : Type) where
  entries : List (α × β) := []
  deriving Repr, DecidableEq

namespace OrderedMap

variable {α β γ : Type}

/-- The map without keys. -/
def empty : OrderedMap α β := ⟨[]⟩

instance : Inhabited (OrderedMap α β) := ⟨empty⟩

/-- The keys, in order. -/
def keys (m : OrderedMap α β) : List α := m.entries.map Prod.fst

/-- The values, in the order of their keys. -/
def values (m : OrderedMap α β) : List β := m.entries.map Prod.snd

/-- The number of keys. -/
def size (m : OrderedMap α β) : Nat := m.entries.length

/-- The map with a function applied to every value. -/
def mapValues (f : β → γ) (m : OrderedMap α β) : OrderedMap α γ :=
  ⟨m.entries.map fun e => (e.1, f e.2)⟩

variable [DecidableEq α]

/-- The value at a key in a list of entries. -/
def lookup (k : α) : List (α × β) → Option β
  | [] => none
  | (a, b) :: es => if a = k then some b else lookup k es

/-- A list of entries with one set. -/
def put (k : α) (v : β) : List (α × β) → List (α × β)
  | [] => [(k, v)]
  | (a, b) :: es => if a = k then (a, v) :: es else (a, b) :: put k v es

/-- The value at a key. -/
def get? (m : OrderedMap α β) (k : α) : Option β := lookup k m.entries

/-- Whether a key is there. -/
def contains (m : OrderedMap α β) (k : α) : Bool := (m.get? k).isSome

/-- The map with a key bound to a value. -/
def insert (m : OrderedMap α β) (k : α) (v : β) : OrderedMap α β := ⟨put k v m.entries⟩

/-- The map without a key. -/
def erase (m : OrderedMap α β) (k : α) : OrderedMap α β :=
  ⟨m.entries.filter fun e => e.1 ≠ k⟩

theorem lookup_put (k j : α) (v : β) (es : List (α × β)) :
    lookup j (put k v es) = if k = j then some v else lookup j es := by
  induction es with
  | nil => simp [put, lookup]
  | cons e es ih =>
    obtain ⟨a, b⟩ := e
    by_cases h : a = k
    · subst h
      by_cases hj : a = j <;> simp [put, lookup, hj]
    · rw [put, if_neg h, lookup, lookup, ih]
      by_cases ha : a = j
      · subst ha
        simp [Ne.symm h]
      · simp [ha]

/-- Binding a key changes what that key is bound to, and nothing else. -/
theorem get?_insert (m : OrderedMap α β) (k j : α) (v : β) :
    (m.insert k v).get? j = if k = j then some v else m.get? j :=
  lookup_put k j v m.entries

@[simp] theorem get?_insert_self (m : OrderedMap α β) (k : α) (v : β) :
    (m.insert k v).get? k = some v := by
  simp [get?_insert]

theorem get?_insert_of_ne (m : OrderedMap α β) {k j : α} (h : k ≠ j) (v : β) :
    (m.insert k v).get? j = m.get? j := by
  simp [get?_insert, h]

@[simp] theorem get?_empty (k : α) : (empty : OrderedMap α β).get? k = none := rfl

theorem lookup_eq_none_iff (k : α) (es : List (α × β)) :
    lookup k es = none ↔ k ∉ es.map Prod.fst := by
  induction es with
  | nil => simp [lookup]
  | cons e es ih =>
    obtain ⟨a, b⟩ := e
    by_cases h : a = k
    · simp [lookup, h]
    · simp [lookup, h, ih, Ne.symm h]

/-- A key is bound exactly when it is listed. -/
theorem get?_eq_none_iff (m : OrderedMap α β) (k : α) : m.get? k = none ↔ k ∉ m.keys :=
  lookup_eq_none_iff k m.entries

theorem mem_keys_iff {m : OrderedMap α β} {k : α} : k ∈ m.keys ↔ ∃ v, m.get? k = some v := by
  have h := m.get?_eq_none_iff k
  cases hk : m.get? k with
  | none => simpa [hk] using h
  | some v => simpa [hk] using h

theorem map_fst_put_of_mem {k : α} {es : List (α × β)} (v : β) (h : k ∈ es.map Prod.fst) :
    (put k v es).map Prod.fst = es.map Prod.fst := by
  induction es with
  | nil => simp at h
  | cons e es ih =>
    obtain ⟨a, b⟩ := e
    by_cases ha : a = k
    · simp [put, ha]
    · simp only [List.map_cons, List.mem_cons] at h
      simp [put, ha, ih (h.resolve_left (Ne.symm ha))]

theorem map_fst_put_of_not_mem {k : α} {es : List (α × β)} (v : β) (h : k ∉ es.map Prod.fst) :
    (put k v es).map Prod.fst = es.map Prod.fst ++ [k] := by
  induction es with
  | nil => simp [put]
  | cons e es ih =>
    obtain ⟨a, b⟩ := e
    simp only [List.map_cons, List.mem_cons, not_or] at h
    simp [put, Ne.symm h.1, ih h.2]

/-- A key that is listed keeps its place. -/
theorem keys_insert_of_mem (m : OrderedMap α β) {k : α} (v : β) (h : k ∈ m.keys) :
    (m.insert k v).keys = m.keys :=
  map_fst_put_of_mem v h

/-- A new key is listed last. -/
theorem keys_insert_of_not_mem (m : OrderedMap α β) {k : α} (v : β) (h : k ∉ m.keys) :
    (m.insert k v).keys = m.keys ++ [k] :=
  map_fst_put_of_not_mem v h

theorem mem_keys_insert {m : OrderedMap α β} {k j : α} {v : β} :
    j ∈ (m.insert k v).keys ↔ j = k ∨ j ∈ m.keys := by
  by_cases h : k ∈ m.keys
  · rw [m.keys_insert_of_mem v h]
    exact ⟨.inr, fun hj => hj.elim (fun hjk => hjk ▸ h) id⟩
  · simp [m.keys_insert_of_not_mem v h, or_comm]

/-- No key is listed twice after one is bound. -/
theorem nodup_keys_insert {m : OrderedMap α β} (h : m.keys.Nodup) (k : α) (v : β) :
    (m.insert k v).keys.Nodup := by
  by_cases hk : k ∈ m.keys
  · rwa [m.keys_insert_of_mem v hk]
  · rw [m.keys_insert_of_not_mem v hk, List.nodup_append]
    refine ⟨h, by simp, fun a ha b hb => ?_⟩
    rintro rfl
    exact hk (List.mem_singleton.1 hb ▸ ha)

/-- Where no key is listed twice, every entry binds its key. -/
theorem get?_of_mem_entries {m : OrderedMap α β} (h : m.keys.Nodup) {k : α} {v : β}
    (hkv : (k, v) ∈ m.entries) : m.get? k = some v := by
  obtain ⟨es⟩ := m
  induction es with
  | nil => simp at hkv
  | cons e es ih =>
    obtain ⟨a, b⟩ := e
    simp only [keys, List.map_cons, List.nodup_cons] at h
    by_cases ha : a = k
    · have : (k, v) ∉ es := fun hmem => h.1 (ha ▸ List.mem_map_of_mem hmem)
      simp only [List.mem_cons, this, or_false, Prod.mk.injEq] at hkv
      simp [get?, lookup, hkv]
    · simp only [List.mem_cons, Prod.mk.injEq, Ne.symm ha, false_and, false_or] at hkv
      rw [get?, lookup, if_neg ha]
      exact ih h.2 hkv

theorem mem_entries_of_lookup {k : α} {v : β} {es : List (α × β)} (h : lookup k es = some v) :
    (k, v) ∈ es := by
  induction es with
  | nil => cases h
  | cons e es ih =>
    obtain ⟨a, b⟩ := e
    rw [lookup] at h
    split at h
    · simp_all
    · exact List.mem_cons_of_mem _ (ih h)

/-- What a key is bound to is listed among the values. -/
theorem mem_values_of_get? {m : OrderedMap α β} {k : α} {v : β} (h : m.get? k = some v) :
    v ∈ m.values :=
  List.mem_map.2 ⟨(k, v), mem_entries_of_lookup h, rfl⟩

theorem lookup_filter_ne (k j : α) (es : List (α × β)) :
    lookup j (es.filter fun e => e.1 ≠ k) = if k = j then none else lookup j es := by
  induction es with
  | nil => simp [lookup]
  | cons e es ih =>
    obtain ⟨a, b⟩ := e
    by_cases h : a = k
    · subst h
      by_cases hj : a = j <;> simp_all [lookup]
    · by_cases hj : a = j
      · subst hj
        simp [lookup, h, Ne.symm h]
      · simp_all [lookup]

/-- Erasing a key unbinds it and changes nothing else. -/
theorem get?_erase (m : OrderedMap α β) (k j : α) :
    (m.erase k).get? j = if k = j then none else m.get? j :=
  lookup_filter_ne k j m.entries

theorem keys_erase (m : OrderedMap α β) (k : α) :
    (m.erase k).keys = m.keys.filter fun j => j ≠ k := by
  simp [keys, erase, List.filter_map, Function.comp_def]

/-- Erasing a key that is there leaves fewer keys. -/
theorem size_erase_lt {m : OrderedMap α β} {k : α} {v : β} (h : m.get? k = some v) :
    (m.erase k).size < m.size := by
  have hk : k ∈ m.keys := by
    refine Decidable.byContradiction fun hk => ?_
    rw [(m.get?_eq_none_iff k).2 hk] at h
    cases h
  obtain ⟨e, he, rfl⟩ := List.mem_map.1 hk
  refine Nat.lt_of_le_of_ne (List.length_filter_le _ _) fun hlen => ?_
  simpa using List.length_filter_eq_length_iff.1 hlen e he

end OrderedMap

end QueryPlan
