import Mathlib
import QueryPlan.Proofs.Build.Naming
import QueryPlan.Proofs.Sql.Rewriting
import QueryPlan.Sql.Reader.Statement

/-!
# Comparisons with and without the tables of their columns

A column of a statement over several tables may be written without its table when no other table has
such a column. Writing the table too gives the same plan, unless the comparison becomes one that
joins two tables as it is written: such comparisons come first, so it may overtake others, and the
pairs of tables are then joined in another order.

## Main definitions

* `Scope.Names` : a column is written without its table and with it.
* `Expr.QualifiedTo` : a comparison with such a column, without its table and with it.

## Main results

* `BuildM.build_qualified` : when the plan of a statement does not change.
* `BuildM.build_qualified_overtaking` : statements whose plans change.
-/

namespace QueryPlan

variable {catalog : Catalog} {settings : Settings} {scope : Sql.Scope}

namespace Sql

variable {qualifiers qualifiers' : List Identifier} {i : Identifier} {table : String} {x y : Expr}

/-- A column is written without its table, which is the only one that has it, and with a name that
this table goes by. -/
structure Scope.Names (scope : Scope) (catalog : Catalog) (qualifiers qualifiers' : List Identifier)
    (i : Identifier) (table : String) : Prop where
  unnamed : qualifier? qualifiers = none
  named : (qualifier? qualifiers').bind scope.names.get? = some table
  only : catalog.OnlyIn scope.tables i.text table

/-- A comparison with a column on one side, without its table and with it. -/
inductive Expr.QualifiedTo (catalog : Catalog) (scope : Scope) : Expr → Expr → Prop
  | left {c : Comparator} {qualifiers qualifiers' : List Identifier} {i : Identifier}
      {table : String} {r : Expr} (h : scope.Names catalog qualifiers qualifiers' i table) :
      QualifiedTo catalog scope (.compare c (.column qualifiers i) r)
        (.compare c (.column qualifiers' i) r)
  | right {c : Comparator} {l : Expr} {qualifiers qualifiers' : List Identifier} {i : Identifier}
      {table : String} (h : scope.Names catalog qualifiers qualifiers' i table) :
      QualifiedTo catalog scope (.compare c l (.column qualifiers i))
        (.compare c l (.column qualifiers' i))

theorem Scope.attributeOf_unnamed [Reader] (hmany : 1 < scope.tables.length)
    (h : qualifier? qualifiers = none) :
    scope.attributeOf qualifiers i = .ok { table := none, name := i.text } := by
  unfold attributeOf
  rw [h]
  dsimp only
  split
  · rename_i t ht
    simp [ht] at hmany
  · rfl

theorem Scope.attributeOf_named [Reader]
    (h : (qualifier? qualifiers).bind scope.names.get? = some table) :
    scope.attributeOf qualifiers i = .ok { table := some table, name := i.text } := by
  obtain ⟨q, hq, htable⟩ := Option.bind_eq_some_iff.1 h
  simp only [attributeOf, hq, htable]

theorem Scope.Names.column? [Reader] (h : scope.Names catalog qualifiers qualifiers' i table)
    (hmany : 1 < scope.tables.length) :
    scope.column? (.column qualifiers i) = some (.ok { table := none, name := i.text }) ∧
      scope.column? (.column qualifiers' i) = some (.ok { table := some table, name := i.text }) :=
  ⟨congrArg some (attributeOf_unnamed hmany h.unnamed), congrArg some (attributeOf_named h.named)⟩

/-- What a comparison means, when a column of it is written with its table. -/
theorem Expr.QualifiedTo.condition [Reader] (hmany : 1 < scope.tables.length)
    (h : x.QualifiedTo catalog scope y) :
    (∃ f, scope.condition x = .error f ∧ scope.condition y = .error f) ∨
      ∃ c d name table, scope.condition x = .ok c ∧ scope.condition y = .ok d ∧
        catalog.OnlyIn scope.tables name table ∧
          Condition.Renamed { table := none, name := name } { table := some table, name := name }
            c d := by
  cases h with
  | @left c qualifiers qualifiers' i table r h =>
    obtain ⟨hx, hy⟩ := h.column? hmany
    simp only [Scope.condition, Scope.comparison, hx, hy]
    cases scope.operand r with
    | error f => exact .inl ⟨f, rfl, rfl⟩
    | ok rhs => exact .inr ⟨_, _, i.text, table, rfl, rfl, h.only, .lhs⟩
  | @right c l qualifiers qualifiers' i table h =>
    obtain ⟨hx, hy⟩ := h.column? hmany
    cases hl : scope.column? l with
    | none =>
      -- the column stands on the right of something else, and is turned to the left
      simp only [Scope.condition, Scope.comparison, hl, hx, hy]
      cases scope.operand l with
      | error f => exact .inl ⟨f, rfl, rfl⟩
      | ok rhs => exact .inr ⟨_, _, i.text, table, rfl, rfl, h.only, .lhs⟩
    | some lhs =>
      simp only [Scope.condition, Scope.comparison, Scope.operand, hl, hx, hy]
      cases lhs with
      | error f => exact .inl ⟨f, rfl, rfl⟩
      | ok a => exact .inr ⟨_, _, i.text, table, rfl, rfl, h.only, .rhs⟩

end Sql

namespace BuildM

open Sql

/-- Writing a column with its table does not change the result of a statement, up to the types and
sizes of columns in its conditions, as long as the comparison does not join two tables as it is
written, or overtakes others of which this does not matter. -/
theorem build_qualified [Reader] {dialect text text' : String} {s s' : Select}
    {before after : List Expr} {x y : Expr}
    (hread : Reader.read? dialect text = some (.select s))
    (hread' : Reader.read? dialect text' = some (.select s'))
    (hscope : Scope.ofSources s.tables = .ok scope) (hmany : 1 < scope.tables.length)
    (hrewritten : s.RewrittenTo s' before x y after) (hqualified : x.QualifiedTo catalog scope y)
    (hsteady : ∀ earlier d later, before.mapM scope.condition = .ok earlier →
      scope.condition y = .ok d → after.mapM scope.condition = .ok later →
        Condition.Steady catalog scope.tables earlier d later) :
    (∃ f, Query.ofText dialect text = .error f ∧ Query.ofText dialect text' = .error f) ∨
      ∃ q q', Query.ofText dialect text = .ok q ∧ Query.ofText dialect text' = .ok q' ∧
        ∀ settings start, image Attribute.plain ((build catalog settings q').run start) =
          image Attribute.plain ((build catalog settings q).run start) := by
  rw [Query.ofText_eq_resolve hread, Query.ofText_eq_resolve hread',
    Select.resolve_eq_of_predicates hscope hrewritten.predicates,
    Select.resolve_eq_of_predicates (hrewritten.tables_eq ▸ hscope) hrewritten.predicates_rewritten,
    hrewritten.clauses_eq]
  cases hearlier : before.mapM scope.condition with
  | error f => exact .inl ⟨f, rfl, rfl⟩
  | ok earlier =>
    obtain ⟨f, hc, hd⟩ | ⟨c, d, name, table, hc, hd, hcolumn, hrenamed⟩ :=
      hqualified.condition hmany
    · exact .inl ⟨f, by rw [hc]; rfl, by rw [hd]; rfl⟩
    rw [hc, hd]
    cases hlater : after.mapM scope.condition with
    | error f => exact .inl ⟨f, rfl, rfl⟩
    | ok later =>
      cases hclauses : s.clauses scope with
      | error f => exact .inl ⟨f, rfl, rfl⟩
      | ok clauses =>
        refine .inr ⟨clauses.on (earlier ++ c :: later), clauses.on (earlier ++ d :: later), rfl,
          rfl, fun settings start => ?_⟩
        have hkeeps := hsteady earlier d later hearlier hd hlater
        rw [← Select.tables_of_clauses hclauses] at hcolumn hkeeps
        exact image_build_on_of_renamed hcolumn hrenamed hkeeps start

section Samples

attribute [local instance] standardReader

theorem build_qualified_sample :
    ∃ q q', Query.ofText dialect "SELECT * FROM A, C WHERE w < C.z" = .ok q ∧
      Query.ofText dialect "SELECT * FROM A, C WHERE A.w < C.z" = .ok q' ∧
      q.joins = [] ∧ q'.selections = [] ∧
      ∀ settings start, image Attribute.plain ((build Sample.catalog settings q').run start) =
        image Attribute.plain ((build Sample.catalog settings q).run start) := by
  have hread : Reader.read? dialect "SELECT * FROM A, C WHERE w < C.z" = some (.select
      (Sample.comparing "A" "C" .less ([], ⟨"w", false⟩) ([⟨"C", false⟩], ⟨"z", false⟩))) := by
    decide +kernel
  have hread' : Reader.read? dialect "SELECT * FROM A, C WHERE A.w < C.z" = some (.select
      (Sample.comparing "A" "C" .less ([⟨"A", false⟩], ⟨"w", false⟩)
        ([⟨"C", false⟩], ⟨"z", false⟩))) := by
    decide +kernel
  let scope : Scope := ⟨["A", "C"], ⟨[("A", "A"), ("C", "C")]⟩⟩
  have hnames : scope.Names Sample.catalog [] [⟨"A", false⟩] ⟨"w", false⟩ "A" :=
    ⟨rfl, by decide +kernel, ⟨by decide, by decide +kernel, by decide +kernel⟩⟩
  have hsteady (earlier : List Condition) (d : Condition) (later : List Condition)
      (hearlier : [].mapM scope.condition = .ok earlier)
      (_ : scope.condition (.compare .less (.column [⟨"A", false⟩] ⟨"w", false⟩)
        (.column [⟨"C", false⟩] ⟨"z", false⟩)) = .ok d)
      (hlater : [].mapM scope.condition = .ok later) :
      Condition.Steady Sample.catalog scope.tables earlier d later := by
    obtain rfl : [] = earlier := Except.ok.inj hearlier
    obtain rfl : [] = later := Except.ok.inj hlater
    exact fun edge _ => ⟨List.not_mem_nil, .inr (List.nil_subset _)⟩
  let w : Attribute := { table := none, name := "w" }
  let z : Operand := .column (Sample.column "C" "z")
  let q : Query :=
    { tables := ["A", "C"], selections := [{ lhs := w, rhs := z, comparator := .less }] }
  let q' : Query :=
    { tables := ["A", "C"],
      joins := [{ lhs := Sample.column "A" "w", rhs := z, comparator := .less, kind := .join }] }
  have hq : Query.ofText dialect "SELECT * FROM A, C WHERE w < C.z" = .ok q :=
    (Query.ofText_eq_resolve hread).trans (by decide +kernel)
  have hq' : Query.ofText dialect "SELECT * FROM A, C WHERE A.w < C.z" = .ok q' :=
    (Query.ofText_eq_resolve hread').trans (by decide +kernel)
  obtain ⟨f, hf, -⟩ | ⟨r, r', hr, hr', himage⟩ := build_qualified hread hread' rfl
    (by decide : 1 < scope.tables.length) (Sample.comparing_rewrittenTo "A" "C") (.left hnames)
    hsteady
  · rw [hq] at hf
    cases hf
  · obtain rfl := Except.ok.inj (hq.symm.trans hr)
    obtain rfl := Except.ok.inj (hq'.symm.trans hr')
    exact ⟨q, q', hq, hq', rfl, rfl, himage⟩

/-- A catalog of three tables with one column each. -/
def Sample.chainCatalog : Catalog where
  files :=
    ((Files.put {} "T1.schema.json"
      "\x7b\"attributes\": [\x7b\"name\": \"a\"\x7d]\x7d".toUTF8).put
      "T2.schema.json" "\x7b\"attributes\": [\x7b\"name\": \"b\"\x7d]\x7d".toUTF8).put
      "T3.schema.json" "\x7b\"attributes\": [\x7b\"name\": \"c\"\x7d]\x7d".toUTF8
  directory := ""

/-- A comparison that names both of its tables overtakes one of another pair, and the tables are
joined in another order. It also overtakes one of the same pair and stands before it in the join. -/
theorem build_qualified_overtaking :
    Sample.chainCatalog.OnlyIn ["T1", "T2", "T3"] "a" "T1" ∧
    (∃ q q' p p' u u',
      Query.ofText dialect "SELECT * FROM T1, T2, T3 WHERE a = T2.b AND T2.b = T3.c" = .ok q ∧
      Query.ofText dialect "SELECT * FROM T1, T2, T3 WHERE T1.a = T2.b AND T2.b = T3.c" = .ok q' ∧
      (build Sample.chainCatalog default q).run Sample.start = (.ok p, u) ∧
      (build Sample.chainCatalog default q').run Sample.start = (.ok p', u') ∧
      p.children.map Plan.scannedTables = [["T1"], ["T2", "T3"]] ∧
      p'.children.map Plan.scannedTables = [["T1", "T2"], ["T3"]]) ∧
    ∃ q q' p p' u u',
      Query.ofText dialect "SELECT * FROM T1, T2 WHERE a = T2.b AND T1.a < T2.b" = .ok q ∧
      Query.ofText dialect "SELECT * FROM T1, T2 WHERE T1.a = T2.b AND T1.a < T2.b" = .ok q' ∧
      (build Sample.chainCatalog default q).run Sample.start = (.ok p, u) ∧
      (build Sample.chainCatalog default q').run Sample.start = (.ok p', u') ∧
      p.conditions.map Condition.comparator = [.less, .equal] ∧
      p'.conditions.map Condition.comparator = [.equal, .less] := by
  let unnamed : Condition :=
    { lhs := { table := none, name := "a" }, rhs := .column (Sample.column "T2" "b") }
  let ab : Condition :=
    { lhs := Sample.column "T1" "a", rhs := .column (Sample.column "T2" "b"), kind := .join }
  let bc : Condition :=
    { lhs := Sample.column "T2" "b", rhs := .column (Sample.column "T3" "c"), kind := .join }
  let s₁ : Plan := .scan "T1" ⟨[Sample.column "T1" "a"], 4⟩
  let s₂ : Plan := .scan "T2" ⟨[Sample.column "T2" "b"], 4⟩
  let s₃ : Plan := .scan "T3" ⟨[Sample.column "T3" "c"], 4⟩
  refine ⟨⟨by decide, by decide +kernel, by decide +kernel⟩, ?_, ?_⟩
  · let q : Query := { tables := ["T1", "T2", "T3"], selections := [unnamed], joins := [bc] }
    let q' : Query := { tables := ["T1", "T2", "T3"], joins := [ab, bc] }
    let p : Plan := .join s₁ (.join s₂ s₃ [bc] 1 0) [ab] 1 1
    let p' : Plan := .join (.join s₁ s₂ [ab] 1 0) s₃ [bc] 1 1
    exact ⟨q, q', p, p', _, _, by decide +kernel, by decide +kernel,
      Prod.ext (by decide +kernel) rfl, Prod.ext (by decide +kernel) rfl, by decide +kernel,
      by decide +kernel⟩
  · let less : Condition := { ab with comparator := .less }
    let q : Query := { tables := ["T1", "T2"], selections := [unnamed], joins := [less] }
    let q' : Query := { tables := ["T1", "T2"], joins := [ab, less] }
    let p : Plan := .join s₁ s₂ [less, ab] 1 0
    let p' : Plan := .join s₁ s₂ [ab, less] 1 0
    exact ⟨q, q', p, p', _, _, by decide +kernel, by decide +kernel,
      Prod.ext (by decide +kernel) rfl, Prod.ext (by decide +kernel) rfl, by decide +kernel,
      by decide +kernel⟩

end Samples

end BuildM

end QueryPlan
