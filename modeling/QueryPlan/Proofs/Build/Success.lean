import Mathlib
import QueryPlan.Proofs.Build.Clauses
import QueryPlan.Proofs.Build.Roots

/-!
# When a plan is returned

A construction asks for five things: that there is a table, that the schemas of all tables can be
loaded, that the columns of the conditions are found in them, that the tables which columns name are
listed, and that the root has the columns of the projection. Nothing else can fail. Once the
columns of the conditions are found, every operator that a later step looks up is there, every edge
of the join graph is read as two listed tables, and every code is that of an algorithm.

## Main definitions

* `Program.Succeeds` : a run returns a value.
* `Attribute.Located` : the table of a column is found.

## Main results

* `BuildM.conditionStage_succeeds` : all conditions are taken into the plan if their columns are
  located.
* `BuildM.run_build_of_located` : what is left to ask for then are the columns of the projection.
-/

namespace QueryPlan

namespace Program

variable {σ ε α : Type} {I : σ → Prop} {m : Program σ ε α} {s : σ}

/-- A run from `s` returns a value and ends in a state with the property `I`. -/
abbrev Succeeds (I : σ → Prop) (m : Program σ ε α) (s : σ) : Prop := m.Ends I (fun _ => False) s

theorem Succeeds.exists_run (hm : m.Succeeds I s) : ∃ a t, m.run s = (.ok a, t) ∧ I t := by
  rcases hrun : m.run s with ⟨e | a, t⟩
  · exact (hm.fails (congrArg Prod.fst hrun)).elim
  · exact ⟨a, t, rfl, hm.state_of_run hrun⟩

end Program

/-! ### Columns whose tables are found -/

variable {catalog : Catalog} {tables : List String} {a : Attribute} {c d : Condition}

/-- The table of a column is found: the column names a listed table, or names none and is in exactly
one of them. -/
structure Attribute.Located (catalog : Catalog) (tables : List String) (a : Attribute) : Prop where
  resolves : a.owner? = none → catalog.Resolves tables a
  listed : ∀ t, a.owner? = some t → t ∈ tables

/-- A column that is located names a listed table once it is qualified. -/
theorem Attribute.Located.owner?_qualifiedIn (ha : a.Located catalog tables)
    (hnames : ∀ t ∈ tables, t ≠ "") :
    ∃ t ∈ tables, (a.qualifiedIn catalog tables).owner? = some t := by
  cases howner : a.owner? with
  | some t =>
    refine ⟨t, ha.listed t howner, ?_⟩
    rw [qualifiedIn, howner]
    exact howner
  | none =>
    obtain ⟨t, ⟨ht, hcolumn⟩, -⟩ := ha.resolves howner
    obtain ⟨b, hb⟩ : ∃ b, tables.findSome? (catalog.column? a) = some b :=
      Option.isSome_iff_exists.1 (List.findSome?_isSome_iff.2 ⟨t, ht, hcolumn⟩)
    obtain ⟨x, hx, hcolumn⟩ := List.exists_of_findSome?_eq_some hb
    refine ⟨x, hx, ?_⟩
    rw [qualifiedIn, howner, hb]
    simp [owner?, Catalog.table_of_column? hcolumn, hnames x hx]

namespace Condition

theorem mem_tables_iff {t : String} : t ∈ c.tables ↔ ∃ a ∈ c.columns, a.owner? = some t := by
  have hcolumns : (∃ a ∈ c.columns, a.owner? = some t) ↔
      c.lhs.owner? = some t ∨ c.rhs.column?.bind Attribute.owner? = some t := by
    cases hr : c.rhs.column? <;> simp [columns, hr]
  rw [hcolumns, tables]
  cases c.lhs.owner? with
  | none => cases c.rhs.column?.bind Attribute.owner? <;> simp [eq_comm]
  | some s =>
    cases c.rhs.column?.bind Attribute.owner? with
    | none => simp [eq_comm]
    | some r => by_cases hsr : s = r <;> simp [hsr, eq_comm]

theorem columns_qualifiedIn (c : Condition) : (c.qualifiedIn catalog tables).columns =
    c.columns.map (Attribute.qualifiedIn catalog tables) := by
  cases hr : c.rhs <;> simp [columns, qualifiedIn, Operand.qualifiedIn, Operand.column?, hr]

/-- A condition whose columns are located is qualified by listed tables. -/
theorem tables_qualifiedIn_subset (hc : ∀ a ∈ c.columns, a.Located catalog tables)
    (hnames : ∀ t ∈ tables, t ≠ "") : (c.qualifiedIn catalog tables).tables ⊆ tables := by
  intro t ht
  obtain ⟨b, hb, hbt⟩ := mem_tables_iff.1 ht
  rw [columns_qualifiedIn] at hb
  obtain ⟨a, ha, rfl⟩ := List.mem_map.1 hb
  obtain ⟨x, hx, hax⟩ := (hc a ha).owner?_qualifiedIn hnames
  exact Option.some.inj (hax.symm.trans hbt) ▸ hx

/-- The tables that a condition names are named still after it is qualified. -/
theorem tables_subset_qualifiedIn (c : Condition) :
    c.tables ⊆ (c.qualifiedIn catalog tables).tables := by
  intro t ht
  obtain ⟨a, ha, hat⟩ := mem_tables_iff.1 ht
  refine mem_tables_iff.2 ⟨a.qualifiedIn catalog tables, ?_, ?_⟩
  · rw [columns_qualifiedIn]
    exact List.mem_map_of_mem ha
  · rw [Attribute.qualifiedIn, hat]
    exact hat

end Condition

namespace BuildState

open BuildM Program

variable {s : BuildState} {cs : List Condition}

theorem Scanned.column_of_located (hs : s.Scanned catalog tables)
    (ha : a.Located catalog tables) : ∃ b, s.column a = .ok b := by
  cases howner : a.owner? with
  | some t => exact ⟨a, column_of_owner? howner⟩
  | none =>
    obtain ⟨t, ⟨ht, hcolumn⟩, honly⟩ := ha.resolves howner
    obtain ⟨b, hb⟩ := Option.isSome_iff_exists.1 hcolumn
    exact ⟨b, hs.column_of_unique howner ht hb fun x hx hxa => honly x ⟨hx, hxa⟩⟩

theorem Scanned.qualified_of_located (hs : s.Scanned catalog tables)
    (hc : ∀ a ∈ c.columns, a.Located catalog tables) : ∃ d, s.qualified c = .ok d := by
  obtain ⟨lhs, hlhs⟩ := hs.column_of_located (hc c.lhs List.mem_cons_self)
  obtain ⟨rhs, hrhs⟩ : ∃ o, s.operand c.rhs = .ok o := by
    cases hr : c.rhs with
    | column r =>
      have hmem : r ∈ c.columns := by simp [Condition.columns, hr, Operand.column?]
      obtain ⟨b, hb⟩ := hs.column_of_located (hc r hmem)
      exact ⟨.column b, map_eq_ok_iff.2 ⟨b, hb, rfl⟩⟩
    | integer | real | text => exact ⟨_, rfl⟩
  exact ⟨_, (qualified_eq_ok_iff hs).2 ⟨lhs, rhs, hlhs, hrhs, rfl⟩⟩

theorem Scanned.mapM_qualified_of_located (hs : s.Scanned catalog tables)
    (hcs : ∀ c ∈ cs, ∀ a ∈ c.columns, a.Located catalog tables) :
    ∃ ds, cs.mapM s.qualified = .ok ds := by
  induction cs with
  | nil => exact ⟨[], rfl⟩
  | cons c cs ih =>
    obtain ⟨hc, hcs⟩ := List.forall_mem_cons.1 hcs
    obtain ⟨d, hd⟩ := hs.qualified_of_located hc
    obtain ⟨ds, hds⟩ := ih hcs
    exact ⟨d :: ds, by rw [List.mapM_cons, hd, hds]; rfl⟩

end BuildState

/-! ### Steps that return -/

namespace BuildM

open Program BuildState

variable {d : Draws} {s : BuildState} {q : Query}

/-- All conditions of a query are taken into the plan if their columns are located. -/
theorem conditionStage_succeeds (hd : d.InRange) (hs : s.Scanned catalog q.tables)
    (hdraws : s.draws = d) (hnames : ∀ t ∈ q.tables, t ≠ "" ∧ '|' ∉ t.toList)
    (hq : ∀ c ∈ q.joins ++ q.selections, ∀ a ∈ c.columns, a.Located catalog q.tables) :
    (conditionStage q).Succeeds (Tallied catalog q.tables d) s := by
  have hnonempty : ∀ t ∈ q.tables, t ≠ "" := fun t ht => (hnames t ht).1
  obtain ⟨ds, hds⟩ := hs.mapM_qualified_of_located hq
  have hqualify : (qualifyAll (q.joins ++ q.selections)).run s = (.ok ds, s) := by
    rw [run_qualifyAll hs, hds]
  obtain ⟨hconditions, hqualified⟩ := ((qualifyAll_meets hs _).returns hqualify).2 hnonempty
  have htables : ∀ c ∈ ds, c.tables ⊆ q.tables := by
    intro c' hc'
    rw [hconditions] at hc'
    obtain ⟨c, hc, rfl⟩ := List.mem_map.1 hc'
    exact Condition.tables_qualifiedIn_subset (hq c hc) hnonempty
  refine Ends.bind (.of_run hqualify (hs.tallied hdraws)) fun cs t hrun ht => ?_
  obtain ⟨rfl, rfl⟩ : ds = cs ∧ s = t := by simpa [hqualify] using hrun
  refine (createSelects_ends ht (.inl fun c' hc' => ?_)).bind fun _ u _ hu => ?_
  · obtain ⟨c, hmem, rfl⟩ := List.mem_map.1 hc'
    have hc := List.mem_of_mem_filter hmem
    obtain ⟨t, ht⟩ := (hqualified c hc).lhs
    exact ⟨t, htables c hc (Condition.mem_tables_iff.2 ⟨_, List.mem_cons_self, ht⟩), ht⟩
  · obtain ⟨graph, hgraph, -⟩ := JoinGraph.ofConditions_classify ds
    refine joinStage_ends hd hu q.tables hgraph (.inl fun edge hedge => ?_)
    have hholds := JoinGraph.holds_ofConditions hgraph
    obtain ⟨c', hc', hname⟩ := (hholds.mem_edges_iff edge).1 hedge
    obtain ⟨⟨a, b⟩, hpair, rfl⟩ := Option.map_eq_some_iff.1 hname
    obtain ⟨ha, hb⟩ := Condition.mem_tables_of_pair? hpair
    obtain ⟨c, hmem, rfl⟩ := List.mem_map.1 hc'
    have hlisted := htables c (List.mem_of_mem_filter hmem)
    have hread := Condition.split?_of_tables (fun t ht => (hnames t (hlisted ht)).2) hpair
    exact ⟨a, b, hread, hlisted ha, hlisted hb⟩

/-- The state once the scans of the tables have been reported. -/
def scansReported (tables : List String) (s : BuildState) : BuildState :=
  { s with events := s.events ++ [.scansCreated tables.length] }

theorem unchanged_scansReported (s : BuildState) : s.Unchanged (scansReported tables s) :=
  ⟨⟨.refl _, rfl, rfl⟩, rfl⟩

/-- Once the conditions are taken into the plan, all that is left is to finish the root. -/
theorem run_build_of_stages (settings : Settings) {t v : BuildState} (htables : q.tables ≠ [])
    (hscan : (scanStage catalog q.tables).run s = (.ok ⟨⟩, t))
    (hconditions : (conditionStage q).run (scansReported q.tables t) = (.ok ⟨⟩, v)) :
    ((build catalog settings q).run s).1 = (theRoot.run v).1 >>= q.finish settings := by
  have hrecord : (record (.scansCreated q.tables.length)).run t =
      (.ok ⟨⟩, scansReported q.tables t) := rfl
  rw [← run_wrapStage_theRoot, build, if_neg (by simpa using htables), run_bind, hscan]
  simp only [planScanned]
  rw [run_bind, hrecord]
  simp only
  rw [run_bind, hconditions]

/-- If there are tables, their schemas can be loaded and the columns of the conditions are located,
then the conditions have a plan, over the tables that the query determines, and all that is left is
to finish it. -/
theorem run_build_of_located (settings : Settings) (hd : s.draws.InRange)
    (htables : q.tables ≠ []) (hnames : ∀ t ∈ q.tables, t ≠ "" ∧ '|' ∉ t.toList)
    (hloads : ∀ t ∈ q.tables, ∃ schema, catalog.loadSchema t = .ok schema)
    (hq : ∀ c ∈ q.joins ++ q.selections, ∀ a ∈ c.columns, a.Located catalog q.tables) :
    ∃ core : Plan, core.Bare catalog ∧ core.scannedTables.Perm (q.rootTables catalog) ∧
      ((build catalog settings q).run s).1 = q.finish settings core := by
  have hscans : (scanStage catalog q.tables).Succeeds (fun u => u.draws = s.draws) s := by
    refine (scanStage_ends catalog q.tables s).mono (fun u ⟨_, _, hu⟩ => hu) fun e he => ?_
    obtain ⟨t, ht, he⟩ := he.exists_table
    obtain ⟨schema, hload⟩ := hloads t ht
    rw [hload] at he
    cases he
  obtain ⟨⟨⟩, t, hscan, hdraws⟩ := hscans.exists_run
  have hreported : t.Unchanged (scansReported q.tables t) := unchanged_scansReported t
  have ht := (scanStage_returns hscan).of_unchanged hreported
  obtain ⟨⟨⟩, v, hconditions, -⟩ :=
    (conditionStage_succeeds hd ht hdraws hnames hq).exists_run
  obtain ⟨w, cs, hw, htaken, hcs⟩ := (conditionStage_meets ht q).returns hconditions
  obtain ⟨rfl, hqualified⟩ := hcs fun t ht => (hnames t ht).1
  -- the root after the scans is the one that the conditions are taken into
  have hsw := ht.of_unchanged hw
  have htw := hreported.trans hw
  obtain ⟨table, p, hlast, hroot, htop⟩ := scanStage_root htables hscan
  obtain ⟨core, hcore, hperm⟩ := htaken.root_scans hsw
    ⟨table, p, hlast, htw.root.trans hroot, htw.toSameFrontier.top_iff.2 htop⟩ hqualified
  obtain ⟨r, hr⟩ := htaken.root_top hsw.root hcore
  refine ⟨core, (hsw.of_conditionsTaken htaken).bare hr, hperm, ?_⟩
  have htheRoot : (theRoot.run v).1 = .ok core := by
    rw [theRoot, run_bind, run_get]
    simp only [hcore, run_pure]
  rw [run_build_of_stages settings htables hscan hconditions, htheRoot]
  rfl

end BuildM

end QueryPlan
