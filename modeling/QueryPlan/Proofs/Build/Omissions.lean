import Mathlib
import QueryPlan.Proofs.Build.Lookups
import QueryPlan.Proofs.Build.Stages
import QueryPlan.Proofs.Build.Wrapping

/-!
# Tables that a plan leaves out

A plan has one root, and a table of the query that is not scanned under it plays no part in the
result. When pairs of tables are joined, the tables that are left out are looked for and reported.
All other steps of a construction are quiet: what they record is of use for debugging only.

If no condition joins two tables, the root is over a single table. No report is made then, however
many tables the query has.

## Main definitions

* `BuildState.Reports` : what a construction reports on the way from a state to another.
* `BuildM.Quiet` : a step that reports nothing.
* `Plan.Declares` : a report names the tables that a plan leaves out.

## Main results

* `BuildM.run_checkConnected` : what the search for left out tables does.
* `BuildM.build_declares` : the report on a plan that is returned.
* `BuildM.build_conceals` : a plan that leaves out a table without a report.
-/

namespace QueryPlan

/-! ### Sorted names -/

theorem eraseDups_sublist {α : Type} [BEq α] : (l : List α) → l.eraseDups.Sublist l
  | [] => by simp
  | a :: l => by
    rw [List.eraseDups_cons]
    exact ((eraseDups_sublist _).trans List.filter_sublist).cons_cons a
  termination_by l => l.length
  decreasing_by exact Nat.lt_succ_of_le (List.length_filter_le _ _)

theorem nodup_eraseDups {α : Type} [BEq α] [LawfulBEq α] : (l : List α) → l.eraseDups.Nodup
  | [] => by simp
  | a :: l => by
    rw [List.eraseDups_cons, List.nodup_cons, List.mem_eraseDups]
    exact ⟨by simp, nodup_eraseDups _⟩
  termination_by l => l.length
  decreasing_by exact Nat.lt_succ_of_le (List.length_filter_le _ _)

namespace BuildM

theorem mem_sortedNames {names : List String} {t : String} :
    t ∈ sortedNames names ↔ t ∈ names := by
  rw [sortedNames, List.mem_eraseDups, List.mem_mergeSort]

/-- The names are in the order of their code points, each once. -/
theorem pairwise_sortedNames (names : List String) : (sortedNames names).Pairwise (· < ·) := by
  have hsorted : (sortedNames names).Pairwise (· ≤ ·) :=
    (List.pairwise_mergeSort' (· ≤ ·) names).sublist (eraseDups_sublist _)
  exact hsorted.imp₂ (fun _ _ hle hne => lt_of_le_of_ne hle hne) (nodup_eraseDups _)

end BuildM

/-! ### Reports -/

namespace BuildState

variable {s t u : BuildState} {report : List Event}

/-- Between two states of a construction, the events of a report were recorded and none besides
them that is of more use than for debugging. -/
def Reports (s t : BuildState) (report : List Event) : Prop :=
  ∃ events, t.events = s.events ++ events ∧ Event.atLeast .info events = report

theorem reports_of_events_eq (h : t.events = s.events) : s.Reports t [] :=
  ⟨[], by rw [h, List.append_nil], rfl⟩

theorem Reports.trans {later : List Event} (hst : s.Reports t report) (htu : t.Reports u later) :
    s.Reports u (report ++ later) := by
  obtain ⟨es, hes, rfl⟩ := hst
  obtain ⟨fs, hfs, rfl⟩ := htu
  exact ⟨es ++ fs, by rw [hfs, hes, List.append_assoc], List.filter_append ..⟩

/-- What is reported between two states is determined by them. -/
theorem Reports.unique {report' : List Event} (h : s.Reports t report) (h' : s.Reports t report') :
    report = report' := by
  obtain ⟨es, hes, rfl⟩ := h
  obtain ⟨fs, hfs, rfl⟩ := h'
  rw [List.append_cancel_left (hes.symm.trans hfs)]

end BuildState

/-- The report names the listed tables that a plan does not scan, in the order of their code points
and each once. There is a report only if there is such a table. -/
def Plan.Declares (p : Plan) (tables : List String) (report : List Event) : Prop :=
  ∃ missing : List String, missing.Pairwise (· < ·) ∧
    (∀ t, t ∈ missing ↔ t ∈ tables ∧ t ∉ p.scannedTables) ∧
    if missing = [] then report = [] else ∃ groups, report = [.disconnected groups missing]

/-- A plan that declares no table as left out scans all of them. -/
theorem Plan.declares_nil_iff {p : Plan} {tables : List String} :
    p.Declares tables [] ↔ tables ⊆ p.scannedTables := by
  constructor
  · rintro ⟨missing, -, hmem, hreport⟩ t ht
    split at hreport
    · rename_i hnil
      subst hnil
      by_contra hscanned
      cases (hmem t).2 ⟨ht, hscanned⟩
    · obtain ⟨groups, hgroups⟩ := hreport
      cases hgroups
  · intro h
    refine ⟨[], .nil, fun t => ?_, rfl⟩
    simp only [List.not_mem_nil, false_iff, not_and, not_not]
    exact fun ht => h ht

namespace BuildM

open Program BuildState

variable {α β : Type} {m : BuildM α} {f : α → BuildM β}

/-! ### Quiet steps -/

/-- A step that reports nothing, whether it returns or fails. -/
def Quiet (m : BuildM α) : Prop := ∀ s : BuildState, s.Reports (m.run s).2 []

theorem Quiet.reports {s t : BuildState} {a : α} (hm : Quiet m) (hrun : m.run s = (.ok a, t)) :
    s.Reports t [] := by
  have h := hm s
  rwa [hrun] at h

theorem Quiet.bind (hm : Quiet m) (hf : ∀ a, Quiet (f a)) : Quiet (m >>= f) := by
  intro s
  have h := hm s
  rw [run_bind]
  rcases hrun : m.run s with ⟨e | a, t⟩ <;> rw [hrun] at h
  · exact h
  · exact h.trans (hf a t)

theorem quiet_pure (a : α) : Quiet (pure a : BuildM α) := fun _ => reports_of_events_eq rfl

theorem quiet_fail (e : Failure) : Quiet (fail e : BuildM α) := fun _ => reports_of_events_eq rfl

theorem quiet_ofExcept (result : Except Failure α) : Quiet (ofExcept result : BuildM α) :=
  fun _ => reports_of_events_eq rfl

theorem quiet_get : Quiet (get : BuildM BuildState) := fun _ => reports_of_events_eq rfl

/-- Changes of a state that leave the events alone. -/
theorem quiet_modify {f : BuildState → BuildState} (hf : ∀ s, (f s).events = s.events) :
    Quiet (modify f : BuildM PUnit) :=
  fun s => reports_of_events_eq (hf s)

theorem quiet_record {e : Event} (he : e.level = .debug) : Quiet (record e) := by
  intro s
  refine ⟨[e], rfl, ?_⟩
  simp [Event.atLeast, he, Level.rank]

theorem quiet_leaderOf (table : String) : Quiet (leaderOf table) := by
  refine quiet_get.bind fun s => ?_
  split
  · exact .bind (quiet_modify fun _ => rfl) fun _ => quiet_pure _
  · exact quiet_fail _

theorem quiet_topOf (table : String) : Quiet (topOf table) := by
  refine (quiet_leaderOf table).bind fun leader => quiet_get.bind fun s => ?_
  split
  · exact quiet_pure _
  · exact quiet_fail _

theorem quiet_setTop (table : String) (p : Plan) : Quiet (setTop table p) :=
  (quiet_leaderOf table).bind fun _ => quiet_modify fun _ => rfl

theorem quiet_setRoot (p : Plan) : Quiet (setRoot p) := quiet_modify fun _ => rfl

theorem quiet_merge (left right : String) (p : Plan) : Quiet (merge left right p) :=
  (quiet_leaderOf left).bind fun _ => (quiet_leaderOf right).bind fun _ =>
    quiet_modify fun _ => rfl

theorem quiet_tablesWith (a : Attribute) (tables : List String) :
    Quiet (tablesWith a tables) := by
  induction tables with
  | nil => exact quiet_pure _
  | cons table tables ih =>
    exact (quiet_topOf table).bind fun _ => ih.bind fun _ => quiet_pure _

theorem quiet_ownerOf (a : Attribute) : Quiet (ownerOf a) := by
  unfold ownerOf
  split
  · exact quiet_pure _
  · refine quiet_get.bind fun s => (quiet_tablesWith a _).bind fun tables => ?_
    split
    · exact quiet_pure _
    · exact quiet_fail _
    · exact quiet_fail _

theorem quiet_scanStage (catalog : Catalog) (tables : List String) :
    Quiet (scanStage catalog tables) := by
  refine .bind (quiet_modify fun _ => rfl) fun _ => ?_
  induction tables with
  | nil => exact quiet_pure _
  | cons table tables ih =>
    exact (quiet_ofExcept _).bind fun _ => .bind (quiet_record rfl) fun _ =>
      .bind (quiet_modify fun _ => rfl) fun _ => (quiet_setRoot _).bind fun _ => ih

theorem quiet_createSelects (cs : List Condition) : Quiet (createSelects cs) := by
  induction cs with
  | nil => exact quiet_pure _
  | cons c cs ih =>
    have hselect : Quiet (createSelect c) :=
      (quiet_ownerOf c.lhs).bind fun table => (quiet_topOf table).bind fun _ =>
        (quiet_setTop table _).bind fun _ => quiet_setRoot _
    exact hselect.bind fun _ => ih

theorem quiet_drawAlgorithm : Quiet drawAlgorithm := by
  refine quiet_get.bind fun s => .bind (quiet_modify fun _ => rfl) fun _ => ?_
  split
  · exact quiet_pure _
  · exact quiet_fail _

theorem quiet_createEdge (left right : String) (cs : List Condition) :
    Quiet (createEdge left right cs) := by
  refine (quiet_leaderOf left).bind fun l => (quiet_leaderOf right).bind fun r => ?_
  split
  · exact (quiet_topOf left).bind fun _ => (quiet_setTop left _).bind fun _ => quiet_record rfl
  · exact (quiet_topOf left).bind fun _ => (quiet_topOf right).bind fun _ =>
      quiet_drawAlgorithm.bind fun _ => quiet_get.bind fun _ =>
        (quiet_merge left right _).bind fun _ => .bind (quiet_modify fun _ => rfl) fun _ =>
          quiet_record rfl

theorem quiet_createEdges (graph : JoinGraph) (edges : List String) (last : Option String) :
    Quiet (createEdges graph edges last) := by
  induction edges generalizing last with
  | nil => exact quiet_pure _
  | cons edge edges ih =>
    unfold createEdges
    split
    · exact quiet_fail _
    · exact (quiet_createEdge _ _ _).bind fun _ => ih _

theorem quiet_createJoins (cs : List Condition) : Quiet (createJoins cs) := by
  refine (quiet_ofExcept _).bind fun graph => (quiet_createEdges graph _ _).bind fun last => ?_
  split
  · exact (quiet_topOf _).bind fun p => (quiet_setRoot p).bind fun _ => quiet_pure _
  · exact quiet_pure _

theorem quiet_wrapRoot (wrap : Plan → Except Failure Plan) : Quiet (wrapRoot wrap) := by
  refine quiet_get.bind fun s => ?_
  split
  · exact quiet_fail _
  · exact (quiet_ofExcept _).bind fun p => quiet_setRoot p

theorem quiet_stage {columns : List Attribute} {create : List Attribute → BuildM Unit}
    (hcreate : Quiet (create columns)) : Quiet (stage columns create) := by
  unfold stage
  split
  · exact quiet_pure _
  · exact hcreate

theorem quiet_wrapStage (settings : Settings) (q : Query) : Quiet (wrapStage settings q) := by
  refine (quiet_stage (quiet_wrapRoot _)).bind fun _ => (quiet_stage (quiet_wrapRoot _)).bind
    fun _ => (quiet_stage (quiet_wrapRoot _)).bind fun _ => ?_
  split
  · exact quiet_wrapRoot _
  · exact quiet_pure _

theorem quiet_theRoot : Quiet theRoot := by
  refine quiet_get.bind fun s => ?_
  split
  · exact quiet_pure _
  · exact quiet_fail _

/-! ### The search for left out tables -/

variable {catalog : Catalog} {settings : Settings} {q : Query} {p : Plan} {s t u v : BuildState}

/-- The listed tables that are not under the root are reported, if there are any. -/
theorem run_checkConnected {tables : List String} {graph : JoinGraph} (hroot : s.root = some p)
    (hrun : (checkConnected tables graph).run s = (.ok ⟨⟩, u)) :
    u.root = s.root ∧ ∃ report, s.Reports u report ∧ p.Declares tables report := by
  rw [checkConnected, run_bind, run_get] at hrun
  simp only [hroot, Option.map_some, Option.getD_some] at hrun
  have hmem (t : String) : t ∈ sortedNames (tables.filter (!p.scannedTables.contains ·)) ↔
      t ∈ tables ∧ t ∉ p.scannedTables := by
    rw [mem_sortedNames, List.mem_filter]
    simp
  have hsorted := pairwise_sortedNames (tables.filter (!p.scannedTables.contains ·))
  split at hrun
  · rename_i hmissing
    obtain ⟨-, rfl⟩ := Prod.mk.inj hrun
    refine ⟨rfl, _, ⟨_, rfl, rfl⟩, _, hsorted, hmem, ?_⟩
    rw [if_neg (by simpa using hmissing)]
    exact ⟨_, rfl⟩
  · rename_i hmissing
    obtain ⟨-, rfl⟩ := Prod.mk.inj hrun
    refine ⟨rfl, [], reports_of_events_eq rfl, _, hsorted, hmem, ?_⟩
    rw [if_pos (by simpa using hmissing)]

end BuildM

namespace BuildState

variable {catalog : Catalog} {tables : List String} {s u : BuildState} {cs : List Condition}
  {p : Plan}

/-- As long as no pair is joined, the root is over a single table. -/
theorem Scanned.scannedTables_of_steps (hs : s.Scanned catalog tables)
    (hsu : Steps Selects cs s u) (hroot : u.root = some p) :
    ∃ t ∈ tables, p.scannedTables = [t] := by
  have halone : ∀ {t r}, u.groups.LedBy t r → r = t :=
    hsu.induction (P := fun _ v => ∀ {t r}, v.groups.LedBy t r → r = t) hs.alone
      fun _ _ _ _ _ ht ⟨_, _, _, hraises, _⟩ => fun htr =>
        ht ((hraises.groups.ledBy_iff _ _).1 htr)
  have hu := hs.of_steps_selects hsu
  obtain ⟨r, hr⟩ := root_top_of_selects hsu hs.root hroot
  have hmem := hu.mem_scannedTables_iff hr
  have hself : u.groups.LedBy r r := (hu.mem_keys_iff r).1 (OrderedMap.mem_keys_iff.2 ⟨p, hr⟩)
  refine ⟨r, hu.mem_of_ledBy hself, ?_⟩
  exact List.perm_singleton.1 ((List.perm_ext_iff_of_nodup (hu.nodup_scannedTables hr)
    (List.nodup_singleton r)).2 fun t => by
      rw [hmem, List.mem_singleton]
      exact ⟨fun ht => (halone ht).symm, fun ht => ht ▸ hself⟩)

end BuildState

namespace BuildM

open Program BuildState

variable {catalog : Catalog} {settings : Settings} {q : Query} {p : Plan} {s t u v : BuildState}
  {cs : List Condition} {tables : List String}

/-- If there are conditions that join two tables, the tables that the root is not over are
reported. -/
theorem declares_of_joinStage (hs : s.Frontier catalog q.tables) (hcs : cs ≠ [])
    (hrun : (joinStage q.tables cs).run s = (.ok ⟨⟩, u)) (hroot : u.root = some p) :
    ∃ report, s.Reports u report ∧ p.Declares q.tables report := by
  rw [joinStage, if_neg (by simpa using hcs)] at hrun
  obtain ⟨graph, t, hjoins, hcheck⟩ := run_bind_eq_ok.1 hrun
  have hquiet := (quiet_createJoins cs).reports hjoins
  cases (createJoins_meets hs hcs).returns hjoins with
  | without hnil => exact absurd hnil hcs
  | edges _ _ _ _ _ _ _ htroot =>
    obtain ⟨hsame, report, hreport, hdeclares⟩ := run_checkConnected htroot hcheck
    obtain rfl := Option.some.inj (htroot.symm.trans (hsame.symm.trans hroot))
    exact ⟨report, hquiet.trans hreport, hdeclares⟩

/-- Conditions that are qualified relate the tables that the schemas of the catalog give their
columns. -/
theorem map_pair?_of_qualified (hs : s.Scanned catalog tables) {ds : List Condition}
    (h : cs.mapM s.qualified = .ok ds) :
    ds.map Condition.pair? = cs.map fun c => (c.qualifiedIn catalog tables).pair? := by
  induction cs generalizing ds with
  | nil =>
    obtain rfl := Except.ok.inj h
    rfl
  | cons c cs ih =>
    rw [List.mapM_cons] at h
    obtain ⟨d, hd, h⟩ := bind_eq_ok_iff.1 h
    obtain ⟨ds, hds, h⟩ := bind_eq_ok_iff.1 h
    obtain rfl := Except.ok.inj h
    rw [List.map_cons, List.map_cons, hs.pair?_qualified hd, ih hds]

/-- There is nothing to join exactly if no condition of the query joins two tables. -/
theorem classify_qualified_snd_eq_nil_iff (hs : s.Scanned catalog q.tables)
    (h : (q.joins ++ q.selections).mapM s.qualified = .ok cs) :
    (Condition.classify cs).2 = [] ↔ ∀ c ∈ q.conditions catalog, c.relatesTables = false := by
  have hnone (l : List Condition) :
      (∀ c ∈ l, c.relatesTables = false) ↔ ∀ p ∈ l.map Condition.pair?, p = none := by
    simp [Condition.relatesTables_eq]
  have hclassify : (Condition.classify cs).2 = [] ↔ ∀ c ∈ cs, c.relatesTables = false := by
    simp [Condition.classify]
  have hpairs : (q.conditions catalog).map Condition.pair? = cs.map Condition.pair? := by
    rw [map_pair?_of_qualified hs h, Query.conditions, List.map_map]
    rfl
  rw [hclassify, hnone, hnone, hpairs]

/-- The report on a plan that is returned. If a condition joins two tables, the report names the
tables of the query that the plan leaves out, and there is none if it leaves out none. Otherwise
the plan is over a single table and there is no report, so that all other tables are left out
without one. Nothing else that is recorded is of more use than for debugging. -/
theorem build_declares (hrun : (build catalog settings q).run s = (.ok p, u)) :
    ∃ report, s.Reports u report ∧
      ((∃ c ∈ q.conditions catalog, c.relatesTables = true) → p.Declares q.tables report) ∧
      ((∀ c ∈ q.conditions catalog, c.relatesTables = false) →
        report = [] ∧ ∃ t ∈ q.tables, p.scannedTables = [t]) := by
  unfold build at hrun
  split at hrun
  · cases hrun
  obtain ⟨⟨⟩, t, hscan, hrun⟩ := run_bind_eq_ok.1 hrun
  obtain ⟨⟨⟩, t₁, hrecord, hrun⟩ := run_bind_eq_ok.1 hrun
  obtain ⟨⟨⟩, v, hconditions, hrun⟩ := run_bind_eq_ok.1 hrun
  obtain ⟨⟨⟩, w, hwrap, hroot⟩ := run_bind_eq_ok.1 hrun
  have ht := scanStage_returns hscan
  have hs := ht.of_unchanged ((record_meets ht.toFrontier _).returns hrecord)
  -- the steps before and after the conditions are quiet
  have hbefore : s.Reports t₁ [] :=
    ((quiet_scanStage catalog q.tables).reports hscan).trans
      ((quiet_record rfl).reports hrecord)
  have hafter : v.Reports u [] :=
    ((quiet_wrapStage settings q).reports hwrap).trans (quiet_theRoot.reports hroot)
  obtain ⟨cs, t₂, hqualify, hconditions⟩ := run_bind_eq_ok.1 hconditions
  rw [run_qualifyAll hs] at hqualify
  obtain ⟨hcs, rfl⟩ := Prod.mk.inj hqualify
  obtain ⟨⟨⟩, t₃, hselects, hjoins⟩ := run_bind_eq_ok.1 hconditions
  have hsteps := (createSelects_meets hs.toFrontier _).returns hselects
  have hquiet := hbefore.trans ((quiet_createSelects _).reports hselects)
  obtain ⟨core, hcore, rfl⟩ := eq_wrap_of_theRoot hwrap hroot
  simp only [Plan.Declares, Query.scannedTables_wrap]
  have hjoin := classify_qualified_snd_eq_nil_iff hs hcs
  by_cases hnil : (Condition.classify cs).2 = []
  · have hnone := hjoin.1 hnil
    rw [hnil] at hjoins
    obtain ⟨-, rfl⟩ := Prod.mk.inj hjoins
    refine ⟨[], hquiet.trans hafter, ?_, fun _ => ⟨rfl, hs.scannedTables_of_steps hsteps hcore⟩⟩
    rintro ⟨c, hc, hrelates⟩
    rw [hnone c hc] at hrelates
    cases hrelates
  · obtain ⟨report, hreport, hdeclares⟩ :=
      declares_of_joinStage (hs.of_steps_selects hsteps) hnil hjoins hcore
    refine ⟨report, ?_, fun _ => hdeclares, fun hnone => absurd (hjoin.2 hnone) hnil⟩
    simpa using (hquiet.trans hreport).trans hafter

end BuildM

namespace Sample

open BuildM

/-- A query over three tables of which two are joined. -/
def pairing : Query where
  tables := ["C", "A", "B"]
  joins := [{ lhs := column "B" "x", rhs := .column (column "A" "x") }]

/-- The plan of this query, which leaves out the first table. -/
def paired : Plan :=
  .join (.scan "A" (schema "A" "x" "w")) (.scan "B" (schema "B" "x" "y"))
    [{ lhs := column "A" "x", rhs := .column (column "B" "x"), kind := .join }] 1 0

/-- The state after this plan is built. -/
def pairFinish : BuildState := ((build catalog default pairing).run start).2

theorem run_pairing : (build catalog default pairing).run start = (.ok paired, pairFinish) :=
  Prod.ext (by decide +kernel) rfl

end Sample

namespace BuildM

open BuildState

theorem build_declares_sample :
    (build Sample.catalog default Sample.pairing).run Sample.start =
        (.ok Sample.paired, Sample.pairFinish) ∧
      "C" ∉ Sample.paired.scannedTables ∧
      ∃ report, Sample.start.Reports Sample.pairFinish report ∧
        Sample.paired.Declares ["C", "A", "B"] report := by
  obtain ⟨report, hreport, hdeclares, -⟩ := build_declares Sample.run_pairing
  exact ⟨Sample.run_pairing, by decide +kernel, report, hreport, hdeclares (by decide +kernel)⟩

/-- A query over two tables without conditions gets a plan that leaves out the first of them
without any report. -/
theorem build_conceals :
    ∃ p u, (build Sample.catalog default { tables := ["A", "B"] }).run Sample.start = (.ok p, u) ∧
      p.scannedTables = ["B"] ∧ Sample.start.Reports u [] ∧
      ∀ report, Sample.start.Reports u report → ¬ p.Declares ["A", "B"] report := by
  refine ⟨.scan "B" (Sample.schema "B" "x" "y"), _, Prod.ext (by decide +kernel) rfl,
    by decide +kernel, ?_, fun report hreport hdeclares => ?_⟩
  · exact ⟨_, rfl, by decide +kernel⟩
  · have hnil : report = [] := hreport.unique ⟨_, rfl, by decide +kernel⟩
    subst hnil
    have hmem := Plan.declares_nil_iff.1 hdeclares (show "A" ∈ ["A", "B"] by simp)
    revert hmem
    decide +kernel

end BuildM

end QueryPlan
