import Mathlib
import QueryPlan.Sql.Reader.Statement
import QueryPlan.Sql.Resolution

/-!
# The tables that names mean

A table goes by its own name also where it is given another one, and a name means the last table
that goes by it. So the name that a table is referred to by means this table unless a later table
has it as its own name, under which that table is not referred to. The order of the tables makes a
difference then.

## Main definitions

* `TableRef.goesBy` : the names of a table.

## Main results

* `Scope.get?_names_of_addAll` : the table that a name means.
* `Scope.attributeOf_exposedName` : the columns of the name that a table is referred to by.
* `Scope.attributeOf_overridden` : a table whose name another table takes away.
-/

namespace QueryPlan.Sql

/-- Whether a table goes by a name: by the one that it is referred to by, or by its own. -/
def TableRef.goesBy (r : TableRef) (name : String) : Bool := name = r.exposedName || name = r.table

namespace Scope

variable {s u : Scope} {r : TableRef} {rs before after : List TableRef} {name : String}

/-! ### Tables one after the other -/

theorem add_of_not_mem (h : r.table ∉ s.tables) :
    ∃ u, s.add r = .ok u ∧ u.tables = s.tables ++ [r.table] := by
  refine ⟨_, if_neg ?_, rfl⟩
  simpa using h

/-- Tables without repetitions can be added. -/
theorem addAll_of_nodup (h : (s.tables ++ rs.map (·.table)).Nodup) :
    ∃ u, s.addAll rs = .ok u ∧ u.tables = s.tables ++ rs.map (·.table) := by
  induction rs generalizing s with
  | nil => exact ⟨s, rfl, (List.append_nil _).symm⟩
  | cons r rs ih =>
    have hnew : r.table ∉ s.tables := fun hmem =>
      (List.nodup_append.1 h).2.2 _ hmem _ List.mem_cons_self rfl
    obtain ⟨v, hv, hadded⟩ := add_of_not_mem hnew
    have hsplit : s.tables ++ (r :: rs).map (·.table) = v.tables ++ rs.map (·.table) := by
      rw [hadded, List.map_cons, List.append_cons]
    rw [hsplit] at h ⊢
    obtain ⟨u, hu, htables⟩ := ih h
    exact ⟨u, by rw [addAll, hv]; exact hu, htables⟩

/-- After a table is added, the names that it goes by mean it, and no others change. -/
theorem get?_names_of_add (h : s.add r = .ok u) (name : String) :
    u.names.get? name = if r.goesBy name then some r.table else s.names.get? name := by
  unfold add at h
  split_ifs at h
  obtain rfl := Except.ok.inj h
  by_cases htable : r.table = name
  · simp [TableRef.goesBy, htable]
  by_cases hexposed : r.exposedName = name
  · simp [TableRef.goesBy, OrderedMap.get?_insert, htable, hexposed]
  · simp [TableRef.goesBy, OrderedMap.get?_insert, htable, hexposed, Ne.symm htable,
      Ne.symm hexposed]

/-- A name means the last table that goes by it, if one of those that are added does. -/
theorem get?_names_of_addAll (h : s.addAll rs = .ok u) (name : String) :
    u.names.get? name =
      ((rs.reverse.find? (·.goesBy name)).map (·.table)).or (s.names.get? name) := by
  induction rs generalizing s with
  | nil =>
    obtain rfl := Except.ok.inj h
    rfl
  | cons r rs ih =>
    rw [addAll] at h
    cases hadd : s.add r with
    | error e =>
      rw [hadd] at h
      cases h
    | ok v =>
      rw [hadd] at h
      rw [ih h, get?_names_of_add hadd, List.reverse_cons, List.find?_append]
      cases rs.reverse.find? (·.goesBy name) with
      | some last => rfl
      | none => by_cases hname : r.goesBy name = true <;> simp [hname]

/-- Tables without repetitions make a scope, in which a name means the last table that goes by
it. -/
theorem ofSources_of_nodup (hne : rs ≠ []) (h : (rs.map (·.table)).Nodup) :
    ∃ scope, ofSources rs = .ok scope ∧ scope.tables = rs.map (·.table) ∧
      ∀ name, scope.names.get? name = (rs.reverse.find? (·.goesBy name)).map (·.table) := by
  obtain ⟨scope, hscope, htables⟩ := addAll_of_nodup (s := {}) h
  refine ⟨scope, ?_, htables, fun name => ?_⟩
  · have hsome : scope.tables.isEmpty = false := by
      rw [htables]
      simpa using hne
    rw [ofSources, hscope]
    simp [bind, Except.bind, hsome, pure, Except.pure]
  · rw [get?_names_of_addAll hscope]
    exact Option.or_none

/-! ### The name that a table is referred to by -/

/-- Of tables that are all referred to by other names, the last one that goes by a name of one of
them is another table with this name of its own, or else that one. -/
theorem find?_goesBy_exposedName (h : ((r :: after).map (·.exposedName)).Nodup) :
    ((before ++ r :: after).reverse.find? (·.goesBy r.exposedName)).map (·.table) =
      some (if r.exposedName ∈ after.map (·.table) then r.exposedName else r.table) := by
  have hother (r' : TableRef) (hr' : r' ∈ after) :
      r'.goesBy r.exposedName = true ↔ r'.table = r.exposedName := by
    have hne : r.exposedName ≠ r'.exposedName := fun heq =>
      (List.nodup_cons.1 h).1 (List.mem_map.2 ⟨r', hr', heq.symm⟩)
    simp [TableRef.goesBy, hne, eq_comm]
  have hself : r.goesBy r.exposedName = true := by simp [TableRef.goesBy]
  rw [List.reverse_append, List.reverse_cons, List.append_assoc, List.find?_append]
  cases hlast : after.reverse.find? (·.goesBy r.exposedName) with
  | some last =>
    have hmem := List.mem_reverse.1 (List.mem_of_find?_eq_some hlast)
    have htable := (hother last hmem).1 (List.find?_eq_some_iff_append.1 hlast).1
    rw [if_pos (htable ▸ List.mem_map_of_mem hmem), ← htable]
    rfl
  | none =>
    have hnone : r.exposedName ∉ after.map (·.table) := fun hmem => by
      obtain ⟨r', hr', htable⟩ := List.mem_map.1 hmem
      exact List.find?_eq_none.1 hlast r' (List.mem_reverse.2 hr') ((hother r' hr').2 htable)
    rw [if_neg hnone, List.singleton_append, List.find?_cons, hself]
    rfl

/-- Where no two tables have the same name or are referred to by the same name, a column with the
name that a table is referred to by belongs to this table, whatever the other tables are, exactly if
this name is not the own name of a later table. If it is, the column belongs to that one. -/
theorem attributeOf_exposedName [Reader] {qualifiers : List Identifier} (column : Identifier)
    (htables : ((before ++ r :: after).map (·.table)).Nodup)
    (hnames : ((before ++ r :: after).map (·.exposedName)).Nodup)
    (hqualifier : qualifier? qualifiers = some r.exposedName) :
    ∃ scope, ofSources (before ++ r :: after) = .ok scope ∧
      scope.attributeOf qualifiers column = .ok
        { table := some (if r.exposedName ∈ after.map (·.table) then r.exposedName else r.table),
          name := column.text } ∧
      (scope.attributeOf qualifiers column = .ok { table := some r.table, name := column.text } ↔
        r.exposedName ∉ after.map (·.table)) := by
  obtain ⟨scope, hscope, -, hmeaning⟩ := ofSources_of_nodup (by simp) htables
  rw [List.map_append] at htables hnames
  have hcolumn : scope.attributeOf qualifiers column = .ok
      { table := some (if r.exposedName ∈ after.map (·.table) then r.exposedName else r.table),
        name := column.text } := by
    simp only [attributeOf, hqualifier, hmeaning,
      find?_goesBy_exposedName (List.nodup_append.1 hnames).2.1]
  refine ⟨scope, hscope, hcolumn, ?_⟩
  have hself : r.table ∉ after.map (·.table) :=
    (List.nodup_cons.1 (List.nodup_append.1 htables).2.1).1
  rw [hcolumn]
  split_ifs with hlater
  · have hne : r.exposedName ≠ r.table := fun heq => hself (heq ▸ hlater)
    simp [hne, hlater]
  · simp [hlater]

section Samples

attribute [local instance] standardReader

theorem attributeOf_exposedName_sample :
    (["B", "A", "D"] : List String).Nodup ∧
      ∃ scope, ofSources [⟨"B", some "C"⟩, ⟨"A", some "B"⟩, ⟨"D", none⟩] = .ok scope ∧
        scope.attributeOf [⟨"B", false⟩] ⟨"x", false⟩ = .ok { table := some "A", name := "x" } := by
  have htables : (([⟨"B", some "C"⟩] ++ ⟨"A", some "B"⟩ :: [⟨"D", none⟩] : List TableRef).map
      (·.table)).Nodup := by decide
  have hqualifier : qualifier? [⟨"B", false⟩] = some (TableRef.exposedName ⟨"A", some "B"⟩) := rfl
  obtain ⟨scope, hscope, hcolumn, -⟩ :=
    attributeOf_exposedName ⟨"x", false⟩ htables (by decide) hqualifier
  exact ⟨by decide, scope, hscope, hcolumn⟩

/-- The table `A` is referred to by the name `B`, and the table `B` by the name `C`. A column of `B`
belongs to `A` if the table `B` is written first, and to `B` if it is written last. -/
theorem attributeOf_overridden :
    ([⟨"A", some "B"⟩, ⟨"B", some "C"⟩].map TableRef.table).Nodup ∧
      [⟨"A", some "B"⟩, ⟨"B", some "C"⟩].map TableRef.exposedName = ["B", "C"] ∧
      (∃ scope, ofSources [⟨"A", some "B"⟩, ⟨"B", some "C"⟩] = .ok scope ∧
        scope.attributeOf [⟨"B", false⟩] ⟨"x", false⟩ = .ok { table := some "B", name := "x" }) ∧
      (∃ scope, ofSources [⟨"B", some "C"⟩, ⟨"A", some "B"⟩] = .ok scope ∧
        scope.attributeOf [⟨"B", false⟩] ⟨"x", false⟩ = .ok { table := some "A", name := "x" }) ∧
      (∃ q, Query.ofText dialect "SELECT B.x FROM A AS B, B AS C" = .ok q ∧
        q.projection = [{ table := some "B", name := "x" }]) ∧
      ∃ q, Query.ofText dialect "SELECT B.x FROM B AS C, A AS B" = .ok q ∧
        q.projection = [{ table := some "A", name := "x" }] := by
  let written (table : String) (tables : List String) : Query :=
    { tables := tables, projection := [{ table := some table, name := "x" }] }
  have hlast : Query.ofText dialect "SELECT B.x FROM A AS B, B AS C" =
      .ok (written "B" ["A", "B"]) := by decide +kernel
  have hfirst : Query.ofText dialect "SELECT B.x FROM B AS C, A AS B" =
      .ok (written "A" ["B", "A"]) := by decide +kernel
  exact ⟨by decide, by decide, ⟨_, rfl, rfl⟩, ⟨_, rfl, rfl⟩, ⟨_, hlast, rfl⟩, ⟨_, hfirst, rfl⟩⟩

end Samples

end Scope

end QueryPlan.Sql
