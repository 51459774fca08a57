import Mathlib
import QueryPlan.Proofs.Build.Stages
import QueryPlan.Proofs.Estimate.Scope

/-!
# The scope of columns in built plans

A condition of one table is put above an operator that scans this table, and the conditions of a
pair of tables are turned so that the left side is a column of the operator that the join has on its
left. What an operator scans it has the columns of, so every operator at the top of a construction
is scoped, and no pass over a plan that is returned fails because of a column.

## Main definitions

* `Catalog.Describes` : the columns of a condition are in the schemas of their tables.
* `BuildState.Scopes` : all operators at the top are scoped.

## Main results

* `BuildM.build_scoped` : how the estimate of a plan that is returned does not fail.
-/

namespace QueryPlan

/-- The columns that a condition compares. -/
def Condition.columns (c : Condition) : List Attribute := c.lhs :: c.rhs.column?.toList

/-- Every column of a condition is in the schema that is loaded for its table. -/
def Catalog.Describes (catalog : Catalog) (c : Condition) : Prop :=
  ∀ a ∈ c.columns, ∀ t, a.owner? = some t → ∀ schema, catalog.loadSchema t = .ok schema →
    schema.contains a = true

variable {catalog : Catalog} {tables : List String} {c : Condition} {cs : List Condition}

instance : Decidable (catalog.Describes c) :=
  decidable_of_iff (∀ a ∈ c.columns, ∀ t ∈ a.owner?,
    ∀ schema ∈ (catalog.loadSchema t).toOption, schema.contains a = true) <| by
      simp [Catalog.Describes, toOption_eq_some_iff]

theorem Condition.columns_oriented_subset (c : Condition) : c.oriented.columns ⊆ c.columns := by
  unfold oriented
  split
  · split
    · cases hrhs : c.rhs with
      | column a => simp [columns, flipped?, hrhs, Operand.column?]
      | integer | real | text => simp [columns, flipped?, hrhs, Operand.column?]
    · exact fun a ha => ha
  · exact fun a ha => ha

theorem Catalog.Describes.oriented (hc : catalog.Describes c) : catalog.Describes c.oriented :=
  fun a ha => hc a (c.columns_oriented_subset ha)

/-- Conditions are sorted by what they are used for, and their columns stay the same. -/
theorem Catalog.describes_classify (hcs : ∀ c ∈ cs, catalog.Describes c) :
    (∀ c ∈ (Condition.classify cs).1, catalog.Describes c) ∧
      ∀ c ∈ (Condition.classify cs).2, catalog.Describes c := by
  constructor
  · intro c hc
    obtain ⟨d, hd, rfl⟩ := List.mem_map.1 hc
    exact hcs d (List.mem_of_mem_filter hd)
  · intro c hc
    obtain ⟨d, hd, rfl⟩ := List.mem_map.1 hc
    exact hcs d (List.mem_of_mem_filter hd)

namespace BuildState

variable {s t u : BuildState} {graph : JoinGraph} {edge left right : String}

/-- Every operator at the top is scoped. -/
def Scopes (s : BuildState) : Prop := ∀ r p, s.tops.get? r = some p → p.Scoped

theorem Scopes.of_same (hs : s.Scopes) (hsu : s.SameFrontier u) : u.Scopes :=
  fun r p hp => hs r p (hsu.tops ▸ hp)

theorem Scanned.scopes (hs : s.Scanned catalog tables) : s.Scopes := by
  intro r p hp
  obtain ⟨schema, -, rfl⟩ := hs.scan hp
  trivial

/-- An operator has the columns of all tables that share it. -/
theorem Frontier.contains_of_ledBy (hs : s.Frontier catalog tables) {table r : String} {p : Plan}
    {a : Attribute} (hr : s.groups.LedBy table r) (hp : s.tops.get? r = some p)
    (ha : ∀ schema, catalog.loadSchema table = .ok schema → schema.contains a = true) :
    p.schema.contains a = true :=
  (hs.bare hp).contains_of_mem_scannedTables ((hs.mem_scannedTables_iff hp table).2 hr) ha

theorem Scopes.of_selects (hs : s.Frontier catalog tables) (hscopes : s.Scopes)
    (hc : catalog.Describes c) (howner : ∃ t, c.lhs.owner? = some t) (hu : s.Selects c u) :
    u.Scopes := by
  obtain ⟨t, ht⟩ := howner
  obtain ⟨howner, hr, hp, hu, -⟩ := hu
  obtain rfl := howner t ht
  intro j k hk
  obtain ⟨rfl, rfl⟩ | ⟨-, hk⟩ := hu.get?_iff.1 hk
  · exact ⟨hscopes _ _ hp,
      hs.contains_of_ledBy hr hp (hc c.lhs List.mem_cons_self _ ht)⟩
  · exact hscopes _ _ hk

theorem Scopes.of_takesPair (hs : s.Frontier catalog tables) (hscopes : s.Scopes)
    (hcs : ∀ c ∈ cs, catalog.Describes c)
    (howners : ∀ c ∈ cs,
      c.lhs.owner? = some left ∧ ∃ x, c.rhs = .column x ∧ x.owner? = some right)
    (hu : s.TakesPair left right cs u) : u.Scopes := by
  have hlhs {c r p} (hc : c ∈ cs) (hl : s.groups.LedBy left r) (hp : s.tops.get? r = some p) :
      p.schema.contains c.lhs = true :=
    hs.contains_of_ledBy hl hp (hcs c hc c.lhs List.mem_cons_self left (howners c hc).1)
  intro j k hk
  cases hu with
  | chain hl hr hp hu =>
    obtain ⟨rfl, rfl⟩ | ⟨-, hk⟩ := hu.get?_iff.1 hk
    · exact (hscopes _ _ hp).foldl_select fun c hc => hlhs hc hl hp
    · exact hscopes _ _ hk
  | join hl hr hne hpl hpr algorithm hu hcount =>
    obtain ⟨rfl, rfl⟩ | ⟨-, -, hk⟩ := hu.get?_iff.1 hk
    · refine ⟨hscopes _ _ hpl, hscopes _ _ hpr, fun c hc => ⟨hlhs hc hl hpl, ?_⟩⟩
      obtain ⟨x, hrhs, hx⟩ := (howners c hc).2
      have hmem : x ∈ c.columns := by simp [Condition.columns, hrhs, Operand.column?]
      exact ⟨x, hrhs, hs.contains_of_ledBy hr hpr (hcs c hc x hmem right hx)⟩
    · exact hscopes _ _ hk

theorem Scopes.of_takesEdge (hs : s.Frontier catalog tables) (hscopes : s.Scopes)
    (hnames : ∀ t ∈ tables, '|' ∉ t.toList) (hgraph : graph.Holds cs)
    (hcs : ∀ c ∈ cs, catalog.Describes c) (hu : s.TakesEdge graph edge u) : u.Scopes := by
  obtain ⟨left, right, hsplit, hpair⟩ := hu
  refine hscopes.of_takesPair hs (fun c hc => ?_)
    (hs.owners_of_takesPair hnames hgraph hsplit hpair) hpair
  rw [hgraph.conditionsOf] at hc
  obtain ⟨d, hd, rfl⟩ := List.mem_map.1 hc
  exact (hcs d (List.mem_of_mem_filter hd)).oriented

theorem Scopes.of_steps_selects (hs : s.Frontier catalog tables) (hscopes : s.Scopes)
    (hcs : ∀ c ∈ cs, catalog.Describes c) (howners : ∀ c ∈ cs, ∃ t, c.lhs.owner? = some t)
    (hsu : Steps Selects cs s u) : u.Scopes :=
  (hsu.induction (P := fun _ v => v.Frontier catalog tables ∧ v.Scopes) ⟨hs, hscopes⟩
    fun _ c _ _ hpre ⟨ht, htscopes⟩ htv =>
      have hc : c ∈ cs := hpre.subset (by simp)
      ⟨ht.of_selects htv, htscopes.of_selects ht (hcs c hc) (howners c hc) htv⟩).2

theorem Scopes.of_joinsTaken (hs : s.Frontier catalog tables) (hscopes : s.Scopes)
    (hnames : ∀ t ∈ tables, '|' ∉ t.toList) (hcs : ∀ c ∈ cs, catalog.Describes c)
    (hu : s.JoinsTaken cs u) : u.Scopes := by
  cases hu with
  | without hnil hu => exact hu ▸ hscopes
  | edges hne hgraph hsteps hlast hsplit htop hu hroot =>
    have hholds := JoinGraph.holds_ofConditions hgraph
    have hend := hsteps.induction (P := fun _ v => v.Frontier catalog tables ∧ v.Scopes)
      ⟨hs, hscopes⟩ fun _ _ _ _ _ ⟨ht, htscopes⟩ htv =>
        ⟨ht.of_takesEdge htv, htscopes.of_takesEdge ht hnames hholds hcs htv⟩
    exact hend.2.of_same hu

theorem ConditionsTaken.scopes (hs : s.Scanned catalog tables)
    (hnames : ∀ t ∈ tables, '|' ∉ t.toList) (hqualified : ∀ c ∈ cs, c.Qualified)
    (hcs : ∀ c ∈ cs, catalog.Describes c) (hu : s.ConditionsTaken cs u) : u.Scopes := by
  obtain ⟨t, hselects, hjoins⟩ := hu
  obtain ⟨hfirst, hsecond⟩ := Catalog.describes_classify hcs
  have howners : ∀ c ∈ (Condition.classify cs).1, ∃ t, c.lhs.owner? = some t := by
    intro c hc
    obtain ⟨d, hd, rfl⟩ := List.mem_map.1 hc
    exact (hqualified d (List.mem_of_mem_filter hd)).lhs
  have ht := hs.scopes.of_steps_selects hs.toFrontier hfirst howners hselects
  exact ht.of_joinsTaken (hs.of_steps_selects hselects) hnames hsecond hjoins

end BuildState

namespace BuildM

open BuildState

/-- If the columns of all conditions are in the schemas of their tables, then the estimate of a plan
that is returned does not fail because of a column, whatever the codes of its joins, the settings
and the statistics are. -/
theorem build_scoped {catalog : Catalog} {settings : Settings} {q : Query} {s u : BuildState}
    {p : Plan} (hnames : ∀ t ∈ q.tables, t ≠ "" ∧ '|' ∉ t.toList)
    (hrun : (build catalog settings q).run s = (.ok p, u))
    (hcolumns : ∀ c ∈ q.conditions catalog, catalog.Describes c) {p' : Plan}
    (hp' : p'.withoutAlgorithms = p.withoutAlgorithms) :
    ∀ (measured : Catalog) (settings' : Settings) (e : Failure),
      p'.estimate measured settings' = .error e → ¬ e.IsScope := by
  obtain ⟨t, cs, v, ht, htaken, hroot, -, hcs⟩ := build_returns hrun
  obtain ⟨rfl, hqualified⟩ := hcs fun t ht => (hnames t ht).1
  have hscopes := htaken.scopes ht (fun t ht => (hnames t ht).2) hqualified hcolumns
  obtain ⟨r, hr⟩ := htaken.root_top ht.root hroot
  have hp : p.Scoped := Plan.scoped_core.1 (hscopes r p.core hr)
  exact fun measured settings' e he => (hp.of_withoutAlgorithms hp').estimate_error he

theorem build_scoped_sample :
    (∀ t ∈ Sample.query.tables, t ≠ "" ∧ '|' ∉ t.toList) ∧
      (build Sample.catalog default Sample.query).run Sample.start =
        (.ok Sample.plan, Sample.finish) ∧
      (∀ c ∈ Sample.query.conditions Sample.catalog, Sample.catalog.Describes c) ∧
      (Sample.plan.setAlgorithm 1 7).withoutAlgorithms = Sample.plan.withoutAlgorithms ∧
      ∃ e, (Sample.plan.setAlgorithm 1 7).estimate Sample.catalog default = .error e ∧
        ¬ e.IsScope := by
  have hnames : ∀ t ∈ Sample.query.tables, t ≠ "" ∧ '|' ∉ t.toList := by decide +kernel
  have hcolumns : ∀ c ∈ Sample.query.conditions Sample.catalog, Sample.catalog.Describes c := by
    decide +kernel
  have hplan := Sample.plan.withoutAlgorithms_setAlgorithm 1 7
  have herror : (Sample.plan.setAlgorithm 1 7).estimate Sample.catalog default =
      .error (.catalog "A.stat" (.statisticsUnreadable ⟨"A.stat", .missing⟩)) := by decide +kernel
  exact ⟨hnames, Sample.run_start, hcolumns, hplan, _, herror,
    build_scoped hnames Sample.run_start hcolumns hplan Sample.catalog default _ herror⟩

end BuildM

end QueryPlan
