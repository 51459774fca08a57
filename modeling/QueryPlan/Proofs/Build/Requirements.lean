import Mathlib
import QueryPlan.Proofs.Build.Success

/-!
# What a plan requires

A construction returns a plan exactly if five things hold. There is a table; the schemas of all
tables can be loaded; a column of a condition that names no table is in exactly one of them; the
tables that columns of conditions name are listed; and the root has the columns of the projection.
The last one is a question about the catalog and the query as well, as these determine the tables
under the root.

In all other cases the construction fails. If a schema cannot be loaded, then the failure is that of
the first one. Otherwise the query is refused as invalid.

## Main results

* `BuildState.ConditionsTaken.tables_subset` : conditions that are taken into a plan name listed
  tables only.
* `BuildM.build_returns_iff` : when a plan is returned, and which failure there is otherwise.
-/

namespace QueryPlan

variable {catalog : Catalog} {tables : List String}

/-- The plan over the conditions can be finished if its root has the columns of the projection. -/
theorem Query.exists_finish_iff {settings : Settings} {q : Query} {core : Plan} :
    (∃ p, q.finish settings core = .ok p) ↔
      ∀ a ∈ q.projection, core.schema.contains a = true := by
  rw [← Schema.exists_resolveAll_iff, finish]
  cases core.schema.resolveAll q.projection <;> simp

namespace BuildState

variable {s u : BuildState} {cs : List Condition}

/-- The selections that are taken into a plan compare columns of listed tables. -/
theorem Frontier.mem_of_steps_selects (hs : s.Frontier catalog tables)
    (hsu : Steps Selects cs s u) : ∀ c ∈ cs, ∀ t, c.lhs.owner? = some t → t ∈ tables := by
  refine (hsu.induction (P := fun done v => v.Frontier catalog tables ∧
    ∀ c ∈ done, ∀ t, c.lhs.owner? = some t → t ∈ tables) ⟨hs, nofun⟩ ?_).2
  rintro done c v w - ⟨hv, hdone⟩ hvw
  refine ⟨hv.of_selects hvw, fun d hd t ht => ?_⟩
  obtain hd | hd := List.mem_append.1 hd
  · exact hdone d hd t ht
  · obtain rfl := List.mem_singleton.1 hd
    obtain ⟨howner, hr, -, -, -⟩ := hvw
    exact howner t ht ▸ hv.mem_of_ledBy hr

/-- Conditions that are taken into a plan name listed tables only. -/
theorem ConditionsTaken.tables_subset (hs : s.Scanned catalog tables)
    (hnames : ∀ t ∈ tables, '|' ∉ t.toList) (hcs : ∀ c ∈ cs, c.Qualified)
    (hu : s.ConditionsTaken cs u) : ∀ c ∈ cs, c.tables ⊆ tables := by
  have hfrontier := hs.of_conditionsTaken hu
  obtain ⟨t, hselects, hjoins⟩ := hu
  have ht := hs.of_steps_selects hselects
  have hchained := hs.chained_of_classify hcs hselects
  obtain ⟨-, -, hplaces⟩ := hjoins.places ht hchained.conserves hnames
  intro c hc
  cases hpair : c.pair? with
  | none =>
    obtain ⟨x, hx⟩ := (hcs c hc).lhs
    have hselect : { c with kind := .select } ∈ (Condition.classify cs).1 := by
      refine List.mem_map.2 ⟨c, List.mem_filter.2 ⟨hc, ?_⟩, rfl⟩
      rw [Condition.relatesTables_eq, hpair]
      rfl
    rw [(hcs c hc).tables_eq_singleton_iff.2 ⟨hpair, hx⟩]
    simpa using hs.mem_of_steps_selects hselects _ hselect x hx
  | some p =>
    obtain ⟨a, b⟩ := p
    obtain ⟨d, hd, hdab⟩ := Condition.exists_mem_classify_snd hc hpair
    obtain ⟨r, q, hq, hqab⟩ := hplaces d hd a b hdab
    have hmem {x} (hx : x ∈ q.scannedTables) : x ∈ tables :=
      hfrontier.mem_of_ledBy ((hfrontier.mem_scannedTables_iff hq x).1 hx)
    have ha := hmem hqab.mem_scannedTables.1
    have hb := hmem hqab.mem_scannedTables.2
    obtain htables | htables := Condition.tables_of_pair? hpair <;> simp [htables, ha, hb]

end BuildState

namespace BuildM

open Program BuildState

variable {settings : Settings} {q : Query} {p : Plan} {s u : BuildState} {f : Failure}

/-! ### What a returned plan tells -/

theorem tables_ne_nil_of_build (hrun : (build catalog settings q).run s = (.ok p, u)) :
    q.tables ≠ [] := by
  intro hnil
  rw [build, if_pos (by simp [hnil])] at hrun
  cases hrun

theorem loads_of_build (hrun : (build catalog settings q).run s = (.ok p, u)) :
    ∀ t ∈ q.tables, ∃ schema, catalog.loadSchema t = .ok schema := by
  obtain ⟨t, v, w, ht, -⟩ := stages_of_build hrun
  intro x hx
  obtain ⟨schema, hload, -⟩ := ht.run_topOf hx
  exact ⟨schema, hload⟩

/-- The tables of all columns of the conditions were found. -/
theorem located_of_build (hnames : ∀ t ∈ q.tables, t ≠ "" ∧ '|' ∉ t.toList)
    (hrun : (build catalog settings q).run s = (.ok p, u)) :
    ∀ c ∈ q.joins ++ q.selections, ∀ a ∈ c.columns, a.Located catalog q.tables := by
  obtain ⟨t, cs, v, ht, htaken, -, -, hcs⟩ := build_returns hrun
  obtain ⟨rfl, hqualified⟩ := hcs fun t ht => (hnames t ht).1
  have hsubset := htaken.tables_subset ht (fun t ht => (hnames t ht).2) hqualified
  intro c hc a ha
  refine ⟨resolves_of_build hrun hc ha, fun x hx => ?_⟩
  have hnamed : x ∈ c.tables := Condition.mem_tables_iff.2 ⟨a, ha, hx⟩
  exact hsubset _ (List.mem_map_of_mem hc) (c.tables_subset_qualifiedIn hnamed)

/-! ### How a construction fails -/

/-- A construction fails because of the first schema that cannot be loaded. If there is none, then
the query is refused as invalid. -/
theorem failure_of_build (hs : s.draws.InRange)
    (hfail : ((build catalog settings q).run s).1 = .error f) :
    catalog.FailsFirst q.tables f ∨
      (∀ t ∈ q.tables, ∃ schema, catalog.loadSchema t = .ok schema) ∧ f.kind = .invalid := by
  rw [build] at hfail
  split at hfail
  · rename_i hnil
    obtain rfl := Except.error.inj hfail
    rw [List.isEmpty_iff.1 hnil]
    exact .inr ⟨by simp, rfl⟩
  · have hends := scanStage_ends catalog q.tables s
    rw [run_bind] at hfail
    rcases hscan : (scanStage catalog q.tables).run s with ⟨e | ⟨⟩, t⟩
    · rw [hscan] at hfail
      obtain rfl := Except.error.inj hfail
      exact .inl (hends.fails (congrArg Prod.fst hscan))
    · rw [hscan] at hfail
      obtain ⟨_, _, hdraws⟩ := hends.state_of_run hscan
      have ht := scanStage_returns hscan
      refine .inr ⟨fun x hx => ?_, (planScanned_ends hs (ht.tallied hdraws) settings q).fails hfail⟩
      obtain ⟨schema, hload, -⟩ := ht.run_topOf hx
      exact ⟨schema, hload⟩

/-! ### When a plan is returned -/

/-- A plan is returned exactly if there is a table, the schemas of all tables can be loaded, every
column of a condition that names no table is in exactly one of them, every table that a column of a
condition names is listed, and the tables under the root have all columns of the projection. The
tables under the root are those that the query determines. Otherwise the construction fails with the
failure of the first schema that cannot be loaded, or refuses the query as invalid if all can. -/
theorem build_returns_iff (catalog : Catalog) (settings : Settings) (hs : s.draws.InRange)
    (hnames : ∀ t ∈ q.tables, t ≠ "" ∧ '|' ∉ t.toList) :
    ((∃ p, ((build catalog settings q).run s).1 = .ok p) ↔
      q.tables ≠ [] ∧
      (∀ t ∈ q.tables, ∃ schema, catalog.loadSchema t = .ok schema) ∧
      (∀ c ∈ q.joins ++ q.selections, ∀ a ∈ c.columns, a.owner? = none →
        catalog.Resolves q.tables a) ∧
      (∀ c ∈ q.joins ++ q.selections, ∀ a ∈ c.columns, ∀ t, a.owner? = some t → t ∈ q.tables) ∧
      ∀ a ∈ q.projection, (q.rootSchema catalog).contains a = true) ∧
    (∀ p, ((build catalog settings q.bare).run s).1 = .ok p →
      p.scannedTables.Perm (q.rootTables catalog)) ∧
    ∀ f, ((build catalog settings q).run s).1 = .error f →
      catalog.FailsFirst q.tables f ∨
        (∀ t ∈ q.tables, ∃ schema, catalog.loadSchema t = .ok schema) ∧ f.kind = .invalid := by
  have hfinish {core : Plan} (hbare : core.Bare catalog)
      (hperm : core.scannedTables.Perm (q.rootTables catalog)) :
      (∃ p, q.finish settings core = .ok p) ↔
        ∀ a ∈ q.projection, (q.rootSchema catalog).contains a = true := by
    rw [Query.exists_finish_iff]
    exact forall₂_congr fun a _ => hbare.contains_iff hperm
  refine ⟨⟨?_, ?_⟩, fun p hp => ?_, fun f => failure_of_build hs⟩
  · rintro ⟨p, hp⟩
    have hrun : (build catalog settings q).run s = (.ok p, _) := Prod.ext hp rfl
    have htables := tables_ne_nil_of_build hrun
    have hloads := loads_of_build hrun
    have hlocated := located_of_build hnames hrun
    obtain ⟨core, hbare, hperm, hcore⟩ :=
      run_build_of_located settings hs htables hnames hloads hlocated
    exact ⟨htables, hloads, fun c hc a ha => (hlocated c hc a ha).resolves,
      fun c hc a ha => (hlocated c hc a ha).listed, (hfinish hbare hperm).1 ⟨p, hcore ▸ hp⟩⟩
  · rintro ⟨htables, hloads, hresolves, hlisted, hprojection⟩
    obtain ⟨core, hbare, hperm, hcore⟩ := run_build_of_located settings hs htables hnames hloads
      fun c hc a ha => ⟨hresolves c hc a ha, hlisted c hc a ha⟩
    rw [hcore]
    exact (hfinish hbare hperm).2 hprojection
  · have hrun : (build catalog settings q.bare).run s = (.ok p, _) := Prod.ext hp rfl
    obtain ⟨core, -, hperm, hcore⟩ := run_build_of_located settings hs
      (tables_ne_nil_of_build hrun) hnames (loads_of_build hrun) (located_of_build hnames hrun)
    obtain rfl : core = p := Except.ok.inj (hcore.symm.trans hp)
    exact hperm

/-- The query of three tables has a plan, and so all that it asks for is there. The query that
projects two tables to a column of neither has none. -/
theorem build_returns_iff_sample :
    Sample.start.draws.InRange ∧ (∀ t ∈ Sample.query.tables, t ≠ "" ∧ '|' ∉ t.toList) ∧
      (∀ t ∈ Sample.strayQuery.tables, t ≠ "" ∧ '|' ∉ t.toList) ∧
      (∀ c ∈ Sample.query.joins ++ Sample.query.selections, ∀ a ∈ c.columns, a.owner? = none →
        Sample.catalog.Resolves Sample.query.tables a) ∧
      (∀ a ∈ Sample.query.projection,
        (Sample.query.rootSchema Sample.catalog).contains a = true) ∧
      ∃ f, ((build Sample.catalog default Sample.strayQuery).run Sample.start).1 = .error f ∧
        f.kind = .invalid := by
  have hs : Sample.start.draws.InRange := Draws.inRange_cycle (by decide)
  have hnames : ∀ t ∈ Sample.query.tables, t ≠ "" ∧ '|' ∉ t.toList := by decide +kernel
  have hstray : ∀ t ∈ Sample.strayQuery.tables, t ≠ "" ∧ '|' ∉ t.toList := by decide +kernel
  obtain ⟨⟨hreturns, -⟩, -, -⟩ :=
    build_returns_iff Sample.catalog default hs hnames
  obtain ⟨-, -, hresolves, -, hprojection⟩ :=
    hreturns ⟨Sample.plan, congrArg Prod.fst Sample.run_start⟩
  obtain ⟨⟨hneeds, -⟩, -, hfails⟩ :=
    build_returns_iff Sample.catalog default hs hstray
  refine ⟨hs, hnames, hstray, hresolves, hprojection, ?_⟩
  cases hrun : ((build Sample.catalog default Sample.strayQuery).run Sample.start).1 with
  | ok p =>
    obtain ⟨-, -, -, -, hcontains⟩ := hneeds ⟨p, hrun⟩
    have hmissing : (Sample.strayQuery.rootSchema Sample.catalog).contains
        { table := none, name := "v" } = false := by decide +kernel
    rw [hcontains _ List.mem_cons_self] at hmissing
    cases hmissing
  | error f =>
    refine ⟨f, rfl, ?_⟩
    obtain hfirst | ⟨-, hkind⟩ := hfails f hrun
    · obtain ⟨t, ht, hload⟩ := hfirst.exists_table
      have hloaded : ∀ t ∈ Sample.strayQuery.tables,
          (Sample.catalog.loadSchema t).isOk = true := by decide +kernel
      have hok := hloaded t ht
      simp [hload, Except.isOk, Except.toBool] at hok
    · exact hkind

end BuildM

end QueryPlan
