import Mathlib
import QueryPlan.Proofs.Program
import QueryPlan.Relation.Schema

/-!
# Resolving references in joins and restrictions

A reference means the first column of a schema that it matches: by the name alone if it has no
table, by table and name otherwise. Type and size play no part in this, and a schema may list
columns of one name, or of one identity, more than once. So which of its columns a schema gives for
a reference depends on their order, and joins and restrictions change that.

In a join the left side comes first. In a restriction every column is one that some reference was
resolved to, past all columns in front of it. None of these has the identity of the column, since
the reference would have meant it as well. So a reference with a table leads to the same column in
a restriction as in the whole schema, if the restriction has a column for it. A reference without a
table need not, as the columns of a restriction may stand in another order.

## Main results

* `Schema.resolveAll_eq_ok_iff` : when a list of references is resolved, and to which columns.
* `Schema.resolve?_join`, `Schema.resolve?_of_restrict` : what a reference means in a join and in a
  restriction.
* `Schema.resolve_derived` : the two laws together, the second one for lists of references.
-/

namespace QueryPlan.Schema

variable {s t u : Schema} {references found columns : List Attribute} {x a b c : Attribute}

/-! ### What a reference means -/

/-- A reference with a table means the columns of its identity. -/
theorem means_iff_key_eq (hx : x.table ≠ none) : means x a = true ↔ a.key = x.key := by
  obtain ⟨table, htable⟩ := Option.ne_none_iff_exists'.1 hx
  rw [means, htable]
  exact a.same_iff x

/-- What a reference means is a matter of identity, also if it has no table. -/
theorem means_congr (c : Attribute) (h : a.key = b.key) : means c a = means c b := by
  have hname : a.name = b.name := congrArg AttributeKey.name h
  unfold means Attribute.same
  rw [h, hname]

/-- Of the columns that have the identity of a column that some reference means, this column is the
first one. -/
theorem resolve?_of_key_eq (hc : s.resolve? c = some a) (hx : x.table ≠ none)
    (hax : a.key = x.key) : s.resolve? x = some a := by
  obtain ⟨hca, before, after, hattributes, hbefore⟩ := List.find?_eq_some_iff_append.1 hc
  refine List.find?_eq_some_iff_append.2
    ⟨(means_iff_key_eq hx).2 hax, before, after, hattributes, fun b hb => ?_⟩
  rw [Bool.not_eq_true', Bool.eq_false_iff]
  intro hxb
  have hba : b.key = a.key := ((means_iff_key_eq hx).1 hxb).trans hax.symm
  have hcb : means c b = true := (means_congr c hba).trans hca
  simpa [hcb] using hbefore b hb

/-! ### Lists of references -/

/-- References are resolved if each of them is, and to the columns that they mean, in order. -/
theorem resolveAll_eq_ok_iff :
    s.resolveAll references = .ok found ↔ references.map s.resolve? = found.map some := by
  induction references generalizing found with
  | nil => cases found <;> simp [resolveAll]
  | cons reference references ih =>
    rw [resolveAll, List.map_cons]
    cases s.resolve? reference with
    | none => cases found <;> simp
    | some a => cases found <;> simp [map_eq_ok_iff, ih, and_comm]

/-- References that are all resolved mean columns of the schema. -/
theorem contains_of_resolveAll (h : s.resolveAll references = .ok found) (ha : a ∈ references) :
    s.contains a = true := by
  have hmem : s.resolve? a ∈ references.map s.resolve? := List.mem_map_of_mem ha
  rw [resolveAll_eq_ok_iff.1 h] at hmem
  obtain ⟨b, -, hb⟩ := List.mem_map.1 hmem
  exact Option.isSome_iff_exists.2 ⟨b, hb.symm⟩

/-- All references of a list are resolved if the schema has a column for each. -/
theorem exists_resolveAll_iff :
    (∃ found, s.resolveAll references = .ok found) ↔ ∀ a ∈ references, s.contains a = true := by
  constructor
  · rintro ⟨found, hfound⟩ a ha
    exact contains_of_resolveAll hfound ha
  · intro hall
    induction references with
    | nil => exact ⟨[], rfl⟩
    | cons reference references ih =>
      obtain ⟨hfirst, hrest⟩ := List.forall_mem_cons.1 hall
      obtain ⟨a, ha⟩ := Option.isSome_iff_exists.1 hfirst
      obtain ⟨found, hfound⟩ := ih hrest
      refine ⟨a :: found, resolveAll_eq_ok_iff.2 ?_⟩
      rw [List.map_cons, List.map_cons, ha, resolveAll_eq_ok_iff.1 hfound]

/-- Every column that references are resolved to is meant by one of them. -/
theorem exists_of_mem_resolveAll (h : s.resolveAll references = .ok found) (ha : a ∈ found) :
    ∃ reference ∈ references, s.resolve? reference = some a := by
  have hmem : some a ∈ found.map some := List.mem_map_of_mem ha
  rw [← resolveAll_eq_ok_iff.1 h] at hmem
  exact List.mem_map.1 hmem

/-- Two schemas in which references mean the same resolve them alike. -/
theorem resolveAll_congr (h : ∀ x ∈ references, s.resolve? x = t.resolve? x) :
    s.resolveAll references = t.resolveAll references := by
  induction references with
  | nil => rfl
  | cons reference references ih =>
    obtain ⟨hfirst, hrest⟩ := List.forall_mem_cons.1 h
    rw [resolveAll, resolveAll, hfirst, ih hrest]

/-! ### Joins and restrictions -/

/-- A reference means a column of the left side of a join if it means one there. -/
theorem resolve?_join (s t : Schema) (x : Attribute) :
    (s.join t).resolve? x = (s.resolve? x).or (t.resolve? x) :=
  List.find?_append

theorem contains_join :
    (s.join t).contains x = true ↔ s.contains x = true ∨ t.contains x = true := by
  simp [contains, resolve?_join]

/-- A reference with a table that means a column of a restriction means the same one in the whole
schema. -/
theorem resolve?_of_restrict (hu : s.restrict columns = .ok u) (hx : x.table ≠ none)
    (hux : u.contains x = true) : u.resolve? x = s.resolve? x := by
  obtain ⟨found, hfound, rfl⟩ := map_eq_ok_iff.1 hu
  obtain ⟨a, ha⟩ := Option.isSome_iff_exists.1 hux
  obtain ⟨c, -, hc⟩ := exists_of_mem_resolveAll hfound (List.mem_of_find?_eq_some ha)
  have hax : a.key = x.key := (means_iff_key_eq hx).1 (List.find?_some ha)
  rw [ha, resolve?_of_key_eq hc hx hax]

/-- In a join a reference means what it means on the left side if there is a column for it there,
otherwise what it means on the right side, and nothing only if neither side has a column for it.
Restricting a schema to some columns and then to others, all of them with a table and in the first
restriction, gives the restriction to the second ones: the same columns with their types and sizes,
in the same order, and the same tuple size. The first ones may be without a table or repeated. -/
theorem resolve_derived (s : Schema) :
    (∀ (t : Schema) (x : Attribute),
      (s.join t).resolve? x = (if s.contains x then s.resolve? x else t.resolve? x) ∧
        ((s.join t).resolve? x = none ↔ s.contains x = false ∧ t.contains x = false)) ∧
    ∀ (columns₁ columns₂ : List Attribute) (u : Schema), s.restrict columns₁ = .ok u →
      (∀ x ∈ columns₂, x.table ≠ none ∧ u.contains x = true) →
      ∃ v, u.restrict columns₂ = .ok v ∧ s.restrict columns₂ = .ok v := by
  refine ⟨fun t x => ?_, fun columns₁ columns₂ u hu hcolumns => ?_⟩
  · rw [resolve?_join, contains, contains]
    cases s.resolve? x <;> simp
  · have hresolve : u.resolveAll columns₂ = s.resolveAll columns₂ :=
      resolveAll_congr fun x hx => resolve?_of_restrict hu (hcolumns x hx).1 (hcolumns x hx).2
    obtain ⟨found, hfound⟩ := exists_resolveAll_iff.2 fun x hx => (hcolumns x hx).2
    refine ⟨ofAttributes found, map_eq_ok_iff.2 ⟨found, hfound, rfl⟩, ?_⟩
    exact map_eq_ok_iff.2 ⟨found, hresolve ▸ hfound, rfl⟩

/-- A schema with three columns of one name, two of which have the same table as well. -/
def Sample.repeated : Schema where
  attributes := [⟨some "A", "x", "INTEGER", 4⟩, ⟨some "A", "x", "STRING", 20⟩,
    ⟨some "B", "x", "STRING", 8⟩]
  tupleSize := 32

/-- A restriction of it, with the columns in another order and one of them twice. -/
def Sample.restricted : Schema where
  attributes := [⟨some "B", "x", "STRING", 8⟩, ⟨some "A", "x", "INTEGER", 4⟩,
    ⟨some "A", "x", "INTEGER", 4⟩]
  tupleSize := 16

/-- A reference to the columns of that name, whatever their table is. -/
def Sample.bare : Attribute := { table := none, name := "x" }

/-- A reference to the column of that name in a table. -/
def Sample.named (table : String) : Attribute := { table := some table, name := "x", size := 1 }

theorem resolve_derived_sample :
    Sample.repeated.restrict [Sample.named "B", Sample.bare, Sample.bare] = .ok Sample.restricted ∧
      (∀ x ∈ [Sample.named "A", Sample.named "B"],
        x.table ≠ none ∧ Sample.restricted.contains x = true) ∧
      ∃ v, Sample.restricted.restrict [Sample.named "A", Sample.named "B"] = .ok v ∧
        Sample.repeated.restrict [Sample.named "A", Sample.named "B"] = .ok v ∧
        v = ⟨[⟨some "A", "x", "INTEGER", 4⟩, ⟨some "B", "x", "STRING", 8⟩], 12⟩ := by
  have hrestricted : Sample.repeated.restrict [Sample.named "B", Sample.bare, Sample.bare] =
      .ok Sample.restricted := rfl
  have hcolumns : ∀ x ∈ [Sample.named "A", Sample.named "B"],
      x.table ≠ none ∧ Sample.restricted.contains x = true := by decide
  obtain ⟨v, hv, hwhole⟩ := (resolve_derived Sample.repeated).2 _ _ _ hrestricted hcolumns
  exact ⟨hrestricted, hcolumns, v, hv, hwhole, (Except.ok.inj hwhole).symm⟩

end QueryPlan.Schema
