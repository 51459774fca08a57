import Mathlib
import QueryPlan.Proofs.Build.Alike

/-!
# Columns with and without their tables

A column that only one of the tables has is looked up to the same column whether its table is named
or not; only the type and the size that the schema gives it may be lost. So a condition that does
not join two tables as it is written, with or without the name, stays in its place, and the plan is
the same up to types and sizes.

A condition that joins two tables only when the name is there is taken earlier with the name than
without it: before the conditions that come later and join two tables as they are written, and
before those that come earlier and join two tables once they are qualified. These are *overtaken*.
The plan is the same when none of them is of the same pair of tables, and the pairs are met in the
same order.

## Main definitions

* `Attribute.plain` : a column without its type and size.
* `Condition.Renamed` : a column of a condition is replaced by another one.
* `Condition.overtaken`, `Condition.Steady` : the pairs that a condition is taken before, and that
  this does not matter.

## Main results

* `BuildM.image_build_on_of_renamed` : when a column may be named with its table.
-/

namespace QueryPlan

variable {catalog : Catalog} {settings : Settings} {tables : List String} {s : BuildState}
  {a b : Attribute} {c d : Condition} {table name : String}

/-- A column without its type and size. -/
def Attribute.plain (a : Attribute) : Attribute := { table := a.table, name := a.name }

theorem Attribute.key_plain (a : Attribute) : a.plain.key = a.key := rfl

theorem Attribute.plain_eq_of_same (h : a.same b = true) : a.plain = b.plain := by
  have hkey := (same_iff a b).1 h
  have htable : a.table = b.table := congrArg AttributeKey.table hkey
  have hname : a.name = b.name := congrArg AttributeKey.name hkey
  rw [plain, plain, htable, hname]

/-! ### The column of one table -/

/-- A table has a column whether the table is named or not. -/
theorem Catalog.column?_named (catalog : Catalog) (table name : String) :
    catalog.column? { table := some table, name := name } table =
      catalog.column? { table := none, name := name } table := by
  unfold column?
  split
  · rename_i schema hload
    refine List.find?_congr fun b hb => ?_
    simp [Schema.means, Attribute.same, Attribute.key, table_of_mem_attributes hload hb]
  · rfl

theorem Catalog.plain_of_column? (h : catalog.column? { table := none, name := name } table = some b) :
    b.plain = { table := some table, name := name } := by
  have htable := table_of_column? h
  have hname : b.name = name := by
    unfold column? at h
    split at h
    · simpa [Schema.means] using List.find?_some h
    · cases h
  rw [Attribute.plain, htable, hname]

theorem Catalog.table_of_column?_named {t : String}
    (h : catalog.column? { table := some table, name := name } t = some b) :
    b.table = some table := by
  unfold column? at h
  split at h
  · have hsame := List.find?_some h
    simp only [Schema.means, Attribute.same_iff] at hsame
    exact congrArg AttributeKey.table hsame
  · cases h

/-- One of the tables, and no other one, has a column of a name. -/
structure Catalog.OnlyIn (catalog : Catalog) (tables : List String) (name table : String) :
    Prop where
  mem : table ∈ tables
  found : (catalog.column? { table := none, name := name } table).isSome
  only : ∀ t ∈ tables, (catalog.column? { table := none, name := name } t).isSome → t = table

namespace BuildState

/-- A column that one table has is looked up to the same one with and without its table, up to its
type and size. -/
theorem Scanned.column_named (hs : s.Scanned catalog tables)
    (h : catalog.OnlyIn tables name table) :
    (s.column { table := none, name := name }).map Attribute.plain =
        .ok { table := some table, name := name } ∧
      (s.column { table := some table, name := name }).map Attribute.plain =
        .ok { table := some table, name := name } := by
  obtain ⟨b, hb⟩ := Option.isSome_iff_exists.1 h.found
  have hplain := Catalog.plain_of_column? hb
  constructor
  · rw [hs.column_of_unique rfl h.mem hb h.only, ← hplain]
    rfl
  · by_cases hempty : table = ""
    · subst hempty
      rw [← Catalog.column?_named] at hb
      rw [hs.column_of_unique rfl h.mem hb fun t _ ht => ?_, ← hplain]
      · rfl
      · obtain ⟨x, hx⟩ := Option.isSome_iff_exists.1 ht
        exact Option.some.inj
          ((Catalog.table_of_column? hx).symm.trans (Catalog.table_of_column?_named hx))
    · have howner : Attribute.owner? { table := some table, name := name } = some table :=
        if_neg hempty
      rw [column_of_owner? howner]
      rfl

theorem mapColumns_plain_of_same {o o' : Operand} (h : s.operand o = .ok o')
    (hsame : o'.same o = true) :
    o'.mapColumns Attribute.plain = o.mapColumns Attribute.plain := by
  cases o with
  | column x =>
    obtain ⟨y, -, rfl⟩ := map_eq_ok_iff.1 h
    exact congrArg Operand.column (Attribute.plain_eq_of_same hsame)
  | integer | real | text =>
    obtain rfl := Except.ok.inj h
    rfl

/-- What a condition is qualified to, up to types and sizes, follows from what its columns are. -/
theorem map_qualified (hs : s.Scanned catalog tables) (c : Condition) :
    (s.qualified c).map (Condition.mapColumns Attribute.plain) = (do
      let lhs ← (s.column c.lhs).map Attribute.plain
      let rhs ← (s.operand c.rhs).map (Operand.mapColumns Attribute.plain)
      return { c with lhs := lhs, rhs := rhs }) := by
  rw [qualified_eq hs]
  cases s.column c.lhs with
  | error e => rfl
  | ok lhs =>
    cases hrhs : s.operand c.rhs with
    | error e => rfl
    | ok rhs =>
      refine congrArg Except.ok ?_
      split
      · rename_i hsame
        obtain ⟨hl, hr⟩ := (Bool.and_eq_true _ _).mp hsame
        rw [Condition.mapColumns, Attribute.plain_eq_of_same hl, mapColumns_plain_of_same hrhs hr]
      · rfl

end BuildState

/-- A column of a condition is replaced by another one. -/
inductive Condition.Renamed (a b : Attribute) : Condition → Condition → Prop
  | lhs {rhs : Operand} {comparator : Comparator} {kind : ConditionKind} :
      Renamed a b ⟨a, rhs, comparator, kind⟩ ⟨b, rhs, comparator, kind⟩
  | rhs {lhs : Attribute} {comparator : Comparator} {kind : ConditionKind} :
      Renamed a b ⟨lhs, .column a, comparator, kind⟩ ⟨lhs, .column b, comparator, kind⟩

theorem Condition.Renamed.withKind (h : Renamed a b c d) (kind : ConditionKind) :
    Renamed a b { c with kind := kind } { d with kind := kind } := by
  cases h with
  | lhs => exact .lhs
  | rhs => exact .rhs

namespace BuildState

/-- A condition is qualified to the same one, up to types and sizes, when a column of it is replaced
by one that is looked up to the same column. -/
theorem map_qualified_of_renamed (hs : s.Scanned catalog tables) (h : Condition.Renamed a b c d)
    (hab : (s.column a).map Attribute.plain = (s.column b).map Attribute.plain) :
    (s.qualified c).map (Condition.mapColumns Attribute.plain) =
      (s.qualified d).map (Condition.mapColumns Attribute.plain) := by
  rw [map_qualified hs, map_qualified hs]
  cases h with
  | lhs => simp only [hab]
  | rhs =>
    have hoperand (a : Attribute) : (s.operand (.column a)).map (Operand.mapColumns Attribute.plain) =
        ((s.column a).map Attribute.plain).map Operand.column := by
      rw [operand]
      cases s.column a <;> rfl
    simp only [hoperand, hab]

/-- Where a condition stays in its place, the others are looked up as before. -/
theorem alikeResults_of_renamed (hs : s.Scanned catalog tables)
    (h : Condition.Renamed a b c d)
    (hab : (s.column a).map Attribute.plain = (s.column b).map Attribute.plain)
    (before after : List Condition) :
    Condition.AlikeResults Attribute.plain ((before ++ c :: after).mapM s.qualified)
      ((before ++ d :: after).mapM s.qualified) := by
  have hcd := map_qualified_of_renamed hs h hab
  rw [mapM_append_cons, mapM_append_cons]
  cases before.mapM s.qualified with
  | error e => exact .error e
  | ok as =>
    cases hc : s.qualified c <;> cases hd : s.qualified d <;> rw [hc, hd] at hcd
    case error.error e e' =>
      obtain rfl : e = e' := Except.error.inj hcd
      exact .error e
    case ok.ok x y =>
      have hxy : x.mapColumns Attribute.plain = y.mapColumns Attribute.plain :=
        Except.ok.inj hcd
      cases after.mapM s.qualified with
      | error e => exact .error e
      | ok bs => exact .ok ⟨by simp [hxy], by simp [hxy]⟩
    all_goals cases hcd

end BuildState

namespace Condition

/-- The pairs of tables that a condition between others is taken before when it joins two tables as
it is written, and not otherwise: those of the later conditions that do so too, and those of the
earlier conditions that join two tables only when they are qualified. -/
def overtaken (catalog : Catalog) (tables : List String) (earlier later : List Condition) :
    List String :=
  later.filterMap edge? ++
    (earlier.filter (!·.relatesTables)).filterMap fun c => (c.qualifiedIn catalog tables).edge?

/-- A condition can be taken before those that it overtakes: it is of another pair than they are,
and its pair, or all of theirs, are those of conditions that it does not overtake. -/
def Steady (catalog : Catalog) (tables : List String) (earlier : List Condition) (d : Condition)
    (later : List Condition) : Prop :=
  ∀ edge, d.edge? = some edge → edge ∉ overtaken catalog tables earlier later ∧
    (edge ∈ earlier.filterMap edge? ∨
      overtaken catalog tables earlier later ⊆ earlier.filterMap edge?)

end Condition

namespace BuildState

variable {cs ds earlier later : List Condition}

theorem mapM_qualified_classify_snd (hs : s.Scanned catalog tables) (cs : List Condition) :
    (Condition.classify cs).2.mapM s.qualified = .ok (Condition.classify cs).2 := by
  refine mapM_eq_self fun c hc => ?_
  obtain ⟨d, hd, rfl⟩ := List.mem_map.1 hc
  obtain ⟨p, hp⟩ := Condition.exists_pair?_of_relatesTables (List.mem_filter.1 hd).2
  exact qualified_of_pair? hs hp

theorem filterMap_edge?_of_mapM (hs : s.Scanned catalog tables)
    (h : cs.mapM s.qualified = .ok ds) :
    ds.filterMap Condition.edge? =
      cs.filterMap fun c => (c.qualifiedIn catalog tables).edge? := by
  induction cs generalizing ds with
  | nil =>
    obtain rfl := Except.ok.inj h
    rfl
  | cons c cs ih =>
    rw [List.mapM_cons] at h
    obtain ⟨x, hx, h⟩ := bind_eq_ok_iff.1 h
    obtain ⟨xs, hxs, h⟩ := bind_eq_ok_iff.1 h
    obtain rfl := Except.ok.inj h
    have hedge : x.edge? = (c.qualifiedIn catalog tables).edge? :=
      congrArg (Option.map _) (hs.pair?_qualified hx)
    rw [List.filterMap_cons, List.filterMap_cons, hedge, ih hxs]

/-- Conditions are alike when one of them overtakes others of which this does not matter. -/
theorem alikeResults_of_overtaking (hs : s.Scanned catalog tables)
    (h : Condition.Renamed a b c d)
    (hab : (s.column a).map Attribute.plain = (s.column b).map Attribute.plain)
    (hc : c.relatesTables = false) (hd : d.relatesTables = true)
    (hsteady : Condition.Steady catalog tables earlier d later) :
    Condition.AlikeResults Attribute.plain
      ((Condition.inOrder (earlier ++ c :: later)).mapM s.qualified)
      ((Condition.inOrder (earlier ++ d :: later)).mapM s.qualified) := by
  obtain ⟨pair, hpair⟩ := Condition.exists_pair?_of_relatesTables hd
  have hselect : s.qualified { d with kind := .select } = .ok { d with kind := .select } :=
    qualified_of_pair? hs hpair
  have hjoin : s.qualified { d with kind := .join } = .ok { d with kind := .join } :=
    qualified_of_pair? hs hpair
  obtain ⟨x, hx, hxd⟩ := map_eq_ok_iff.1
    ((map_qualified_of_renamed hs (h.withKind .select) hab).trans (congrArg (Except.map _) hselect))
  have happend : Condition.classify (earlier ++ later) =
      ((Condition.classify earlier).1 ++ (Condition.classify later).1,
        (Condition.classify earlier).2 ++ (Condition.classify later).2) := by
    simp [Condition.classify]
  rw [Condition.inOrder_of_not_relatesTables earlier later hc,
    Condition.inOrder_of_relatesTables earlier later hd, happend]
  simp only [List.mapM_append, List.mapM_cons, mapM_qualified_classify_snd hs, hx, hjoin]
  cases hearlier : (Condition.classify earlier).1.mapM s.qualified with
  | error e => exact .error e
  | ok xs =>
    cases hlater : (Condition.classify later).1.mapM s.qualified with
    | error e => exact .error e
    | ok ys =>
      -- the condition passes the later joins and what the earlier selections are qualified to
      have hpassed : ((Condition.classify later).2 ++ xs).filterMap Condition.edge? =
          Condition.overtaken catalog tables earlier later := by
        rw [List.filterMap_append, Condition.filterMap_edge?_classify_snd,
          filterMap_edge?_of_mapM hs hearlier, Condition.classify, List.filterMap_map]
        rfl
      have hlink : (x.mapColumns Attribute.plain).link? =
          (({ d with kind := .join } : Condition).mapColumns Attribute.plain).link? := by
        rw [hxd]
        rfl
      obtain ⟨hne, hmem⟩ := hsteady _ (congrArg (Option.map _) hpair)
      rw [← hpassed] at hne hmem
      rw [← Condition.filterMap_edge?_classify_snd earlier] at hmem
      have halike : Condition.Alike Attribute.plain _ _ :=
        Condition.alike_of_passed ys Attribute.key_plain hlink (congrArg (Option.map _) hpair) hne
          hmem
      simpa [bind, Except.bind, pure, Except.pure] using Condition.AlikeResults.ok halike

end BuildState

namespace BuildM

open BuildState

variable {q : Query} {earlier later : List Condition}

/-- A column that only one of the tables has may be named with its table, as long as the condition
does not join two tables as it is written, or overtakes others of which this does not matter: the
result is the same up to the types and sizes of columns. -/
theorem image_build_on_of_renamed (hcolumn : catalog.OnlyIn q.tables name table)
    (h : Condition.Renamed { table := none, name := name } { table := some table, name := name } c d)
    (hsteady : Condition.Steady catalog q.tables earlier d later) (start : BuildState) :
    image Attribute.plain ((build catalog settings (q.on (earlier ++ d :: later))).run start) =
      image Attribute.plain ((build catalog settings (q.on (earlier ++ c :: later))).run start) := by
  have hc : c.relatesTables = false := by
    rw [Condition.relatesTables_eq]
    cases h with
    | lhs => rfl
    | @rhs lhs =>
      simp [Condition.pair?, Operand.column?, Attribute.owner?]
  refine image_build_on Attribute.key_plain (fun s hs => ?_) start
  obtain ⟨hunnamed, hnamed⟩ := hs.column_named hcolumn
  have hab := hunnamed.trans hnamed.symm
  cases hd : d.relatesTables with
  | true => exact alikeResults_of_overtaking hs h hab hc hd hsteady
  | false =>
    obtain ⟨before, kind, after, horder⟩ := Condition.exists_inOrder_eq earlier later false
    rw [horder c hc, horder d hd]
    exact alikeResults_of_renamed hs (h.withKind kind) hab before after

end BuildM

end QueryPlan
