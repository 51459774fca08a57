import Mathlib
import QueryPlan.Proofs.Build.Joins
import QueryPlan.Proofs.Build.Omissions
import QueryPlan.Proofs.Build.Wrapping
import QueryPlan.Proofs.Join.Connectivity

/-!
# What the root of a plan is over

Which tables lie under the root when all conditions are taken into the plan follows from the query
and the schemas of its tables. If conditions join tables, it is the component of the last edge of
their graph. Otherwise it is the table of the last condition, or the last table of the query if
there is no condition.

## Main definitions

* `Query.graph` : the join graph of the conditions of a query.
* `Query.rootTables`, `Query.rootSchema` : the tables under the root, and all their columns.

## Main results

* `BuildState.ConditionsTaken.root_scans` : the root is over these tables.
* `BuildM.scanStage_root` : after the scans, the root is the last of them.
-/

namespace QueryPlan

/-- The join graph of the conditions of a query. -/
def Query.graph (catalog : Catalog) (q : Query) : JoinGraph :=
  (JoinGraph.ofConditions (Condition.classify (q.conditions catalog)).2).toOption.getD {}

/-- The tables under the root of a plan when all conditions of a query are taken into it. -/
def Query.rootTables (catalog : Catalog) (q : Query) : List String :=
  match (q.graph catalog).edges.getLast?.bind Pair.split? with
  | some (left, _) => (((q.graph catalog).components q.tables).find? (left ∈ ·)).getD []
  | none =>
    match (q.conditions catalog).getLast?.bind (·.lhs.owner?) with
    | some table => [table]
    | none => q.tables.getLast?.toList

/-- The columns of some tables, one table after the other. -/
def Catalog.schemaOf (catalog : Catalog) (tables : List String) : Schema :=
  .concat (tables.filterMap fun t => (catalog.loadSchema t).toOption)

/-- The columns of the tables under the root. -/
def Query.rootSchema (catalog : Catalog) (q : Query) : Schema :=
  catalog.schemaOf (q.rootTables catalog)

variable {catalog : Catalog} {tables : List String} {a : Attribute}

/-- A column is one of some tables if it is one of one of them. -/
theorem Catalog.contains_schemaOf_iff :
    (catalog.schemaOf tables).contains a = true ↔ ∃ t ∈ tables, (catalog.column? a t).isSome := by
  have hcolumn (t : String) : (catalog.column? a t).isSome ↔
      ∃ schema, catalog.loadSchema t = .ok schema ∧ schema.contains a = true := by
    unfold column?
    cases catalog.loadSchema t with
    | ok schema => simp [Schema.contains]
    | error => simp
  simp only [hcolumn, schemaOf, Schema.concat, Schema.contains, Schema.resolve?,
    List.find?_isSome, List.mem_flatMap, List.mem_filterMap, toOption_eq_some_iff]
  constructor
  · rintro ⟨b, ⟨schema, ⟨t, ht, hload⟩, hb⟩, hmeans⟩
    exact ⟨t, ht, schema, hload, b, hb, hmeans⟩
  · rintro ⟨t, ht, schema, hload, b, hb, hmeans⟩
    exact ⟨b, ⟨schema, ⟨t, ht, hload⟩, hb⟩, hmeans⟩

/-- The schema of a bare plan has the columns of its scans, left to right. -/
theorem Plan.Bare.schema_eq_schemaOf {p : Plan} (hp : p.Bare catalog) :
    p.schema = catalog.schemaOf p.scannedTables := by
  obtain ⟨schemas, hload, hschema⟩ := hp.schema_eq_concat
  have hloaded : schemas = p.scannedTables.filterMap fun t => (catalog.loadSchema t).toOption := by
    clear hschema
    generalize p.scannedTables = ts at hload
    induction hload with
    | nil => rfl
    | cons hload _ ih => rw [List.filterMap_cons, toOption_eq_some_iff.2 hload, ← ih]
  rw [hschema, hloaded]
  rfl

/-- Whether a bare plan has a column does not depend on the order of its scans. -/
theorem Plan.Bare.contains_iff {p : Plan} (hp : p.Bare catalog)
    (hperm : p.scannedTables.Perm tables) :
    p.schema.contains a = true ↔ (catalog.schemaOf tables).contains a = true := by
  rw [hp.schema_eq_schemaOf, Catalog.contains_schemaOf_iff, Catalog.contains_schemaOf_iff]
  simp only [hperm.mem_iff]

/-- Where there is nothing to join, all conditions are applied to single tables. -/
theorem Condition.classify_fst_of_snd_eq_nil {cs : List Condition} (h : (classify cs).2 = []) :
    (classify cs).1 = cs.map ({ · with kind := .select }) := by
  have hnone : ∀ c ∈ cs, (!c.relatesTables) = true := by simpa [classify] using h
  rw [classify, List.filter_eq_self.2 hnone]

namespace JoinGraph

variable {graph : JoinGraph} {k : List String} {left : String}

/-- The component of a table is the one that is found first. -/
theorem find?_components (hk : k ∈ graph.components tables) (hleft : left ∈ k) :
    (graph.components tables).find? (left ∈ ·) = some k := by
  have hdisjoint : (graph.components tables).Pairwise List.Disjoint :=
    (graph.tracks_components tables).groups_classes.2.1
  obtain ⟨before, after, hsplit⟩ := List.append_of_mem hk
  rw [hsplit] at hdisjoint ⊢
  have hbefore := (List.pairwise_append.1 hdisjoint).2.2
  refine List.find?_eq_some_iff_append.2
    ⟨by simpa using hleft, before, after, rfl, fun k' hk' => ?_⟩
  simpa using fun hleft' => hbefore k' hk' k List.mem_cons_self hleft' hleft

end JoinGraph

namespace BuildState

open JoinGraph

variable {s t u : BuildState} {c : Condition} {cs : List Condition} {p : Plan} {q : Query}

/-- After selections, the root is over the table of the last one, or what it was before. -/
theorem root_of_selects (hsu : Steps Selects cs s u) :
    match cs.getLast? with
    | none => u.root = s.root
    | some c => ∀ table, c.lhs.owner? = some table → ∃ p, u.root = some p ∧ u.Top table p := by
  refine hsu.induction (P := fun done v => match done.getLast? with
    | none => v.root = s.root
    | some c => ∀ table, c.lhs.owner? = some table → ∃ p, v.root = some p ∧ v.Top table p)
    rfl fun done c v w _ _ hvw => ?_
  rw [List.getLast?_concat]
  intro table htable
  obtain ⟨howner, hr, hp, hraises, hroot⟩ := hvw
  obtain rfl := howner table htable
  exact ⟨_, hroot, _, (hraises.groups.ledBy_iff _ _).2 hr, hraises.get?_iff.2 (.inl ⟨rfl, rfl⟩)⟩

/-- The root is over the tables that the query determines, as long as it was the scan of the last
table before any condition was taken into the plan. -/
theorem ConditionsTaken.root_scans (hs : s.Scanned catalog q.tables)
    (hlast : ∃ t p, q.tables.getLast? = some t ∧ s.root = some p ∧ s.Top t p)
    (hcs : ∀ c ∈ q.conditions catalog, c.Qualified)
    (hu : s.ConditionsTaken (q.conditions catalog) u) :
    ∃ p, u.root = some p ∧ p.scannedTables.Perm (q.rootTables catalog) := by
  obtain ⟨t, hselects, hjoins⟩ := hu
  have ht := hs.of_steps_selects hselects
  have hchained := hs.chained_of_classify hcs hselects
  cases hjoins with
  | without hnil hu =>
    subst hu
    -- the root is over a single table, as no tables are joined
    have hsingle {table p} (hroot : u.root = some p) (htop : u.Top table p) :
        p.scannedTables = [table] := by
      obtain ⟨r, hr, hp⟩ := htop
      obtain ⟨x, -, hx⟩ := hs.scannedTables_of_steps hselects hroot
      have hmem := (ht.mem_scannedTables_iff hp table).2 hr
      rw [hx, List.mem_singleton] at hmem
      rw [hx, hmem]
    have hall : (Condition.classify (q.conditions catalog)).1 =
        (q.conditions catalog).map ({ · with kind := .select }) :=
      Condition.classify_fst_of_snd_eq_nil hnil
    have hgraph : q.graph catalog = {} := by
      rw [Query.graph, hnil]
      rfl
    have hroot := root_of_selects hselects
    rw [hall] at hselects hroot
    rw [List.getLast?_map] at hroot
    rw [Query.rootTables, hgraph]
    simp only [edges_empty, List.getLast?_nil, Option.bind_none]
    cases hlastc : (q.conditions catalog).getLast? with
    | none =>
      rw [List.getLast?_eq_none_iff.1 hlastc] at hselects
      cases hselects
      obtain ⟨table, p, hlast, hroot, htop⟩ := hlast
      refine ⟨p, hroot, .of_eq ?_⟩
      rw [hlast]
      exact hsingle hroot htop
    | some c =>
      obtain ⟨table, howner⟩ := (hcs c (List.mem_of_getLast? hlastc)).lhs
      rw [hlastc] at hroot
      obtain ⟨p, hroot, htop⟩ := hroot table howner
      refine ⟨p, hroot, .of_eq ?_⟩
      rw [Option.bind_some, howner]
      exact hsingle hroot htop
  | @edges graph w edge left right p _ hgraph hsteps hgetLast hsplit htop hsame hroot =>
    obtain ⟨hfrontier, -, hjoined⟩ := ht.of_steps hchained hsteps
    obtain ⟨k, hk, hleft, -, hperm, -⟩ :=
      hjoined.exists_component_of_edge hfrontier (List.mem_of_getLast? hgetLast) hsplit htop
    refine ⟨p, hroot, ?_⟩
    have hq : q.graph catalog = graph := by rw [Query.graph, hgraph]; rfl
    rw [Query.rootTables, hq, hgetLast, Option.bind_some, hsplit]
    simp only [find?_components hk hleft]
    exact hperm

end BuildState

namespace BuildM

open Program BuildState

variable {s u : BuildState}

/-- The scan of the last table is the root. -/
theorem createScans_root (tables : List String) :
    (createScans catalog tables).Meets (fun _ => True) s fun _ u =>
      tables = [] ∧ u.root = s.root ∨ ∃ t schema, tables.getLast? = some t ∧
        catalog.loadSchema t = .ok schema ∧ u.root = some (.scan t schema) := by
  induction tables generalizing s with
  | nil => exact .pure (.inl ⟨rfl, rfl⟩)
  | cons table tables ih =>
    refine .bind (Q := fun schema t => catalog.loadSchema table = .ok schema ∧ t = s)
      (.ofExcept fun schema hload => ⟨hload, rfl⟩) ?_
    rintro schema _ ⟨hload, rfl⟩
    refine .modify_bind trivial (.modify_bind trivial (.modify_bind trivial (ih.mono ?_)))
    rintro _ u (⟨rfl, hroot⟩ | ⟨t, schema, hlast, h⟩)
    · exact .inr ⟨table, schema, rfl, hload, hroot⟩
    · exact .inr ⟨t, schema, by rw [List.getLast?_cons, hlast]; rfl, h⟩

/-- After the scans, the root is the operator over the last table. -/
theorem scanStage_root (htables : tables ≠ [])
    (hrun : (scanStage catalog tables).run s = (.ok ⟨⟩, u)) :
    ∃ t p, tables.getLast? = some t ∧ u.root = some p ∧ u.Top t p := by
  have hmeets : (scanStage catalog tables).Meets (fun _ => True) s _ :=
    .modify_bind trivial (createScans_root tables)
  obtain ⟨hnil, -⟩ | ⟨t, schema, hlast, hload, hroot⟩ := hmeets.returns hrun
  · exact absurd hnil htables
  · refine ⟨t, _, hlast, hroot, (scanStage_returns hrun).top_iff.2 ?_⟩
    exact ⟨List.mem_of_getLast? hlast, schema, hload, rfl⟩

end BuildM

end QueryPlan
