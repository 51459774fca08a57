import Mathlib
import QueryPlan.Proofs.Build.Scans

/-!
# Columns and their tables

A column that names no table belongs to the only table whose operator has a column of that name.
While every table is under its scan, that is a question about the schemas of the catalog alone: the
conditions of a query are qualified by these, whatever the state of the construction.

## Main definitions

* `Attribute.qualifiedIn`, `Condition.qualifiedIn` : a column and a condition with the tables that
  the schemas of a catalog give them.
* `Query.conditions` : the conditions of a query with the tables of all their columns.
* `Condition.Qualified` : all columns of a condition name their tables.

## Main results

* `BuildM.ownerOf_meets` : the table of a column.
* `BuildM.qualifyAll_meets` : conditions are qualified by the schemas of the catalog.
-/

namespace QueryPlan

variable {catalog : Catalog} {tables : List String} {table : String} {a b : Attribute}

/-- The column of a table that a reference means. -/
def Catalog.column? (catalog : Catalog) (a : Attribute) (table : String) : Option Attribute :=
  match catalog.loadSchema table with
  | .ok schema => schema.resolve? a
  | .error _ => none

/-- The column that a reference without a table means in the first of the tables that has it. -/
def Attribute.qualifiedIn (catalog : Catalog) (tables : List String) (a : Attribute) : Attribute :=
  match a.owner? with
  | some _ => a
  | none => (tables.findSome? (catalog.column? a)).getD a

/-- The operand with its table, if it is a column. -/
def Operand.qualifiedIn (catalog : Catalog) (tables : List String) : Operand → Operand
  | .column a => .column (a.qualifiedIn catalog tables)
  | o => o

/-- The condition with both columns qualified. -/
def Condition.qualifiedIn (catalog : Catalog) (tables : List String) (c : Condition) : Condition :=
  { c with lhs := c.lhs.qualifiedIn catalog tables, rhs := c.rhs.qualifiedIn catalog tables }

/-- The conditions of a query, those that were given as joins first, with the tables of all their
columns. -/
def Query.conditions (catalog : Catalog) (q : Query) : List Condition :=
  (q.joins ++ q.selections).map (Condition.qualifiedIn catalog q.tables)

/-- All columns of a condition name their tables. -/
structure Condition.Qualified (c : Condition) : Prop where
  lhs : ∃ t, c.lhs.owner? = some t
  rhs : ∀ {a}, c.rhs = .column a → ∃ t, a.owner? = some t

/-! ### Columns of loaded schemas -/

theorem Descriptor.table_of_readColumn {value : Json} (h : readColumn table value = .ok a) :
    a.table = some table := by
  unfold readColumn at h
  split at h
  · split at h
    · cases h
    · obtain ⟨size, -, rfl⟩ := map_eq_ok_iff.1 h
      rfl
  · cases h

theorem Descriptor.table_of_mem_readColumns {values : List Json} {columns : List Attribute}
    (h : readColumns table values = .ok columns) (ha : a ∈ columns) : a.table = some table := by
  induction values generalizing columns with
  | nil =>
    cases h
    cases ha
  | cons value values ih =>
    rw [readColumns] at h
    split at h
    · cases h
    · rename_i first hfirst
      obtain ⟨rest, hrest, rfl⟩ := map_eq_ok_iff.1 h
      obtain rfl | ha := List.mem_cons.1 ha
      · exact table_of_readColumn hfirst
      · exact ih hrest ha

/-- The columns of a loaded schema name its table. -/
theorem Catalog.table_of_mem_attributes {schema : Schema}
    (h : catalog.loadSchema table = .ok schema) (ha : a ∈ schema.attributes) :
    a.table = some table := by
  unfold loadSchema at h
  split at h
  · cases h
  · split at h
    · cases h
    · cases h
    · rename_i value _ _ loaded hread
      obtain rfl : loaded = schema := by
        split at h
        · cases h
        · exact Except.ok.inj h
      unfold Descriptor.readSchema at hread
      split at hread
      · split at hread
        · cases hread
        · obtain ⟨columns, -, hread⟩ := bind_eq_ok_iff.1 hread
          obtain ⟨attributes, hattributes, hread⟩ := bind_eq_ok_iff.1 hread
          obtain ⟨size, -, hread⟩ := bind_eq_ok_iff.1 hread
          cases hread
          exact Descriptor.table_of_mem_readColumns hattributes ha
      · cases hread

theorem Catalog.table_of_column? (h : catalog.column? a table = some b) :
    b.table = some table := by
  unfold column? at h
  split at h
  · rename_i schema hload
    exact table_of_mem_attributes hload (List.mem_of_find?_eq_some h)
  · cases h

/-- A column that is the same after it is qualified had its table before. -/
theorem Attribute.qualifiedIn_eq_of_same (hnames : ∀ t ∈ tables, t ≠ "")
    (h : (a.qualifiedIn catalog tables).same a = true) : a.qualifiedIn catalog tables = a := by
  unfold qualifiedIn at h ⊢
  split at h
  · rfl
  · rename_i howner
    cases hfirst : tables.findSome? (catalog.column? a) with
    | none => rfl
    | some b =>
      obtain ⟨t, ht, hcolumn⟩ := List.exists_of_findSome?_eq_some hfirst
      have htable : a.table = some t := by
        rw [hfirst, Option.getD_some, same_iff] at h
        rw [← Catalog.table_of_column? hcolumn]
        exact (congrArg AttributeKey.table h).symm
      simp [owner?, htable, hnames t ht] at howner

theorem Operand.qualifiedIn_eq_of_same {o : Operand} (hnames : ∀ t ∈ tables, t ≠ "")
    (h : (o.qualifiedIn catalog tables).same o = true) : o.qualifiedIn catalog tables = o := by
  cases o with
  | column a => exact congrArg column (Attribute.qualifiedIn_eq_of_same hnames h)
  | integer | real | text => rfl

/-! ### The table of a column -/

namespace BuildM

open Program BuildState

variable {s : BuildState}

/-- No table whose operator has the column is left out. -/
theorem tablesWith_meets (hs : s.Frontier catalog tables) (a : Attribute) (ts : List String) :
    (tablesWith a ts).Meets (Frontier catalog tables) s fun found u =>
      s.Unchanged u ∧
        ∀ t ∈ ts, ∀ p, s.Top t p → p.schema.contains a = true → t ∈ found := by
  induction ts generalizing s with
  | nil => exact .pure ⟨.refl s, nofun⟩
  | cons t ts ih =>
    refine (topOf_meets hs t).bind fun top s₁ ⟨htop, h₁⟩ => ?_
    refine (ih (hs.of_same h₁.toSameFrontier)).bind fun others s₂ ⟨h₂, hothers⟩ => ?_
    refine .pure ⟨h₁.trans h₂, fun x hx p hp hcontains => ?_⟩
    obtain rfl | hx := List.mem_cons.1 hx
    · obtain rfl := Frontier.top_unique htop hp
      rw [if_pos hcontains]
      exact List.mem_cons_self
    · have hmem := hothers x hx p (h₁.toSameFrontier.top_iff.2 hp) hcontains
      split
      · exact List.mem_cons_of_mem t hmem
      · exact hmem

/-- A column belongs to the table that it names, or else to the only one whose operator has it. -/
theorem ownerOf_meets (hs : s.Frontier catalog tables) (a : Attribute) :
    (ownerOf a).Meets (Frontier catalog tables) s fun t u =>
      s.Unchanged u ∧ (∀ owner, a.owner? = some owner → t = owner) ∧
        (a.owner? = none → ∀ x p, s.Top x p → p.schema.contains a = true → x = t) := by
  unfold ownerOf
  split
  · rename_i owner howner
    exact .pure ⟨.refl s, fun o ho => by simpa [howner] using ho, by simp [howner]⟩
  · rename_i howner
    refine .get_bind ((tablesWith_meets hs a s.groups.tables).bind fun found u ⟨hu, hfound⟩ => ?_)
    split
    · rename_i t
      refine .pure ⟨hu, by simp [howner], fun _ x p hp hcontains => ?_⟩
      exact List.mem_singleton.1 (hfound x hp.choose_spec.1.mem_tables p hp hcontains)
    · exact .fail _
    · exact .fail _

/-- While every table is under its scan, a column is qualified by the schemas of the catalog. -/
theorem qualify_meets (hs : s.Scanned catalog tables) (a : Attribute) :
    (qualify a).Meets (Frontier catalog tables) s fun b u =>
      s.Unchanged u ∧ b = a.qualifiedIn catalog tables ∧
        ((∀ t ∈ tables, t ≠ "") → ∃ t, b.owner? = some t) := by
  unfold qualify
  split
  · rename_i t howner
    exact .pure ⟨.refl s, by rw [Attribute.qualifiedIn, howner], fun _ => ⟨t, howner⟩⟩
  · rename_i howner
    refine (ownerOf_meets hs.toFrontier a).bind fun t s₁ ⟨h₁, _, honly⟩ => ?_
    refine (topOf_meets (hs.of_same h₁.toSameFrontier) t).bind fun top s₂ ⟨htop, h₂⟩ => ?_
    split
    · rename_i found hfound
      obtain ⟨ht, schema, hload, rfl⟩ := hs.top_iff.1 (h₁.toSameFrontier.top_iff.1 htop)
      have hcolumn : catalog.column? a t = some found := by
        rw [Catalog.column?, hload]
        exact hfound
      have htable := Catalog.table_of_column? hcolumn
      have hnamed (hnames : ∀ t ∈ tables, t ≠ "") : found.owner? = some t := by
        simp [Attribute.owner?, htable, hnames t ht]
      refine .pure ⟨h₁.trans h₂, ?_, fun hnames => ⟨t, hnamed hnames⟩⟩
      have hfirst : tables.findSome? (catalog.column? a) = some found := by
        obtain ⟨b, hb⟩ : ∃ b, tables.findSome? (catalog.column? a) = some b :=
          Option.isSome_iff_exists.1 (List.findSome?_isSome_iff.2 ⟨t, ht, by simp [hcolumn]⟩)
        obtain ⟨x, hx, hcolumn'⟩ := List.exists_of_findSome?_eq_some hb
        obtain rfl : x = t := by
          unfold Catalog.column? at hcolumn'
          split at hcolumn'
          · rename_i schema' hload'
            refine honly howner x _ (hs.top_iff.2 ⟨hx, schema', hload', rfl⟩) ?_
            exact Option.isSome_iff_exists.2 ⟨b, hcolumn'⟩
          · cases hcolumn'
        rw [hb, ← hcolumn', hcolumn]
      simp [Attribute.qualifiedIn, howner, hfirst]
    · exact .fail _

theorem qualifyOperand_meets (hs : s.Scanned catalog tables) (o : Operand) :
    (qualifyOperand o).Meets (Frontier catalog tables) s fun o' u =>
      s.Unchanged u ∧ o' = o.qualifiedIn catalog tables ∧
        ((∀ t ∈ tables, t ≠ "") → ∀ {a}, o' = .column a → ∃ t, a.owner? = some t) := by
  cases o with
  | column a =>
    refine (qualify_meets hs a).bind fun b u ⟨hu, hb, howner⟩ => .pure ⟨hu, by rw [hb]; rfl, ?_⟩
    rintro hnames _ ⟨⟩
    exact howner hnames
  | integer | real | text => exact .pure ⟨.refl s, rfl, nofun⟩

/-- A condition that stays as it is would not be changed by its tables either, as long as no table
has an empty name. -/
theorem qualifyCondition_meets (hs : s.Scanned catalog tables) (c : Condition) :
    (qualifyCondition c).Meets (Frontier catalog tables) s fun d u =>
      s.Unchanged u ∧
        ((∀ t ∈ tables, t ≠ "") → d = c.qualifiedIn catalog tables ∧ d.Qualified) := by
  refine (qualify_meets hs c.lhs).bind fun lhs s₁ ⟨h₁, hlhs, hlowner⟩ => ?_
  refine (qualifyOperand_meets (hs.of_unchanged h₁) c.rhs).bind
    fun rhs s₂ ⟨h₂, hrhs, hrowner⟩ => ?_
  refine .pure ⟨h₁.trans h₂, fun hnames => ?_⟩
  subst hlhs hrhs
  have hqualified : (c.qualifiedIn catalog tables).Qualified := ⟨hlowner hnames, hrowner hnames⟩
  split
  · rename_i hsame
    obtain ⟨hl, hr⟩ := (Bool.and_eq_true _ _).mp hsame
    have heq : c.qualifiedIn catalog tables = c := by
      rw [Condition.qualifiedIn, Attribute.qualifiedIn_eq_of_same hnames hl,
        Operand.qualifiedIn_eq_of_same hnames hr]
    exact ⟨heq.symm, heq ▸ hqualified⟩
  · exact ⟨rfl, hqualified⟩

theorem qualifyAll_meets (hs : s.Scanned catalog tables) (cs : List Condition) :
    (qualifyAll cs).Meets (Frontier catalog tables) s fun ds u =>
      s.Unchanged u ∧ ((∀ t ∈ tables, t ≠ "") →
        ds = cs.map (Condition.qualifiedIn catalog tables) ∧ ∀ d ∈ ds, d.Qualified) := by
  induction cs generalizing s with
  | nil => exact .pure ⟨.refl s, fun _ => ⟨rfl, nofun⟩⟩
  | cons c cs ih =>
    refine (qualifyCondition_meets hs c).bind fun d s₁ ⟨h₁, hd⟩ => ?_
    refine (ih (hs.of_unchanged h₁)).bind fun ds s₂ ⟨h₂, hds⟩ => ?_
    refine .pure ⟨h₁.trans h₂, fun hnames => ?_⟩
    obtain ⟨rfl, hd⟩ := hd hnames
    obtain ⟨rfl, hds⟩ := hds hnames
    exact ⟨rfl, List.forall_mem_cons.2 ⟨hd, hds⟩⟩

end BuildM

end QueryPlan
