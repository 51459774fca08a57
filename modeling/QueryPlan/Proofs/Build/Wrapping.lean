import Mathlib
import QueryPlan.Proofs.Build.Stages

/-!
# The operators above the conditions

Above the plan of its conditions, a query is grouped, ordered and projected, and its duplicates are
removed, as far as it asks for that. The columns of the projection have to be those of the root; the
others are taken as they are. So the result of a construction is made from that of the conditions
alone.

## Main definitions

* `Query.wrap` : the operators that group, order and project a plan, and remove its duplicates.
* `Query.finish` : the plan with these operators, if the columns of its projection are there.
* `BuildM.Wraps` : a step that puts operators above the root.

## Main results

* `BuildM.wraps_wrapStage` : the last stage puts the operators there that the query asks for.
* `BuildM.build_wraps` : a plan that is returned is a bare one below these operators.
* `BuildM.run_build` : the result of a construction is made from that of the conditions alone.
-/

namespace QueryPlan

/-- The plan under an operator that sorts it for a task, if there are columns to sort by. -/
def Plan.sortedBy (settings : Settings) (columns : List Attribute) (task : SortTask) (p : Plan) :
    Plan :=
  if columns.isEmpty then p else .sorting p task settings.numBuffers

/-- A plan that is grouped, ordered and projected, as far as a query asks for it. -/
def Query.arrange (settings : Settings) (q : Query) (p : Plan) : Plan :=
  let sorted := (p.sortedBy settings q.groupBy (.groupBy q.groupBy)).sortedBy settings q.orderBy
    (.orderBy q.orderBy q.ascending)
  if q.projection.isEmpty then sorted else .project sorted q.projection

/-- A plan that is arranged as a query asks for it, and without its duplicates if it does that. -/
def Query.wrap (settings : Settings) (q : Query) (p : Plan) : Plan :=
  if q.distinct then
    .sorting (q.arrange settings p)
      (.distinct (if q.projection.isEmpty then none else some q.projection)) settings.numBuffers
  else q.arrange settings p

/-- The query that keeps only the tables and the conditions. -/
def Query.bare (q : Query) : Query where
  tables := q.tables
  selections := q.selections
  joins := q.joins

/-- The plan over the conditions of a query, wrapped as the query asks for it if the columns of its
projection are there. -/
def Query.finish (settings : Settings) (q : Query) (core : Plan) : Except Failure Plan :=
  match core.schema.resolveAll q.projection with
  | .ok _ => .ok (q.wrap settings core)
  | .error a => .error (.attributeNotFound a)

@[simp] theorem Plan.schema_sortedBy {settings : Settings} {p : Plan} (columns : List Attribute)
    (task : SortTask) : (p.sortedBy settings columns task).schema = p.schema := by
  unfold sortedBy
  split <;> rfl

@[simp] theorem Query.scannedTables_wrap (settings : Settings) (q : Query) (p : Plan) :
    (q.wrap settings p).scannedTables = p.scannedTables := by
  unfold wrap arrange Plan.sortedBy
  split <;> dsimp only <;> repeat' split
  all_goals simp

theorem Query.eq_wrap_of_finish {settings : Settings} {q : Query} {core p : Plan}
    (h : q.finish settings core = .ok p) : p = q.wrap settings core := by
  unfold finish at h
  split at h
  · exact (Except.ok.inj h).symm
  · cases h

namespace BuildM

open Program BuildState

variable {catalog : Catalog} {settings : Settings} {q : Query} {p : Plan} {s u : BuildState}

/-- A step puts the operators of `f` above the root, and fails if they cannot be put there. Without
a root, it does nothing or fails for that reason. -/
structure Wraps (m : BuildM Unit) (f : Plan → Except Failure Plan) : Prop where
  returns : ∀ {s p q}, s.root = some p → f p = .ok q →
    m.run s = (.ok ⟨⟩, { s with root := some q })
  fails : ∀ {s p e}, s.root = some p → f p = .error e → (m.run s).1 = .error e
  rootless : ∀ {s}, s.root = none → m.run s = (.ok ⟨⟩, s) ∨ (m.run s).1 = .error .noTables

theorem Wraps.congr {m : BuildM Unit} {f g : Plan → Except Failure Plan} (hm : Wraps m f)
    (hfg : ∀ p, f p = g p) : Wraps m g :=
  funext hfg ▸ hm

theorem Wraps.bind {m m' : BuildM Unit} {f f' : Plan → Except Failure Plan} (hm : Wraps m f)
    (hm' : Wraps m' f') : Wraps (m >>= fun _ => m') (fun p => f p >>= f') where
  returns {s p q} hroot hq := by
    obtain ⟨r, hr, hq⟩ := bind_eq_ok_iff.1 hq
    rw [run_bind, hm.returns hroot hr]
    exact hm'.returns rfl hq
  fails {s p e} hroot he := by
    cases hr : f p with
    | error e' =>
      obtain rfl : e' = e := by simpa [hr, Bind.bind, Except.bind] using he
      have hfail := hm.fails hroot hr
      rw [run_bind]
      rcases hrun : m.run s with ⟨_ | _, t⟩ <;> simp_all
    | ok r =>
      rw [hr] at he
      rw [run_bind, hm.returns hroot hr]
      exact hm'.fails rfl he
  rootless {s} hroot := by
    rw [run_bind]
    obtain hrun | hfail := hm.rootless hroot
    · rw [hrun]
      exact hm'.rootless hroot
    · rcases hrun : m.run s with ⟨_ | _, t⟩ <;> simp_all

theorem wraps_pure : Wraps (pure ⟨⟩) .ok where
  returns {s p q} hroot hq := by
    obtain rfl := Except.ok.inj hq
    rw [← hroot]
    rfl
  fails _ := nofun
  rootless _ := .inl rfl

theorem wraps_wrapRoot (wrap : Plan → Except Failure Plan) : Wraps (wrapRoot wrap) wrap where
  returns {s p q} hroot hq := by
    rw [wrapRoot, run_bind, run_get]
    simp only [hroot, hq]
    rfl
  fails {s p e} hroot he := by
    rw [wrapRoot, run_bind, run_get]
    simp only [hroot, he]
    rfl
  rootless {s} hroot := by
    rw [wrapRoot, run_bind, run_get]
    simp only [hroot]
    exact .inr rfl

theorem wraps_stage {columns : List Attribute} {create : List Attribute → BuildM Unit}
    {f : Plan → Except Failure Plan} (hcreate : Wraps (create columns) f) :
    Wraps (stage columns create) fun p => if columns.isEmpty then .ok p else f p := by
  unfold stage
  split
  · exact wraps_pure
  · exact hcreate

theorem wraps_createSorting (settings : Settings) (task : SortTask) :
    Wraps (createSorting settings task) fun p => .ok (.sorting p task settings.numBuffers) :=
  wraps_wrapRoot _

/-- Columns to sort by are taken as they are. -/
theorem wraps_stage_createSorting (settings : Settings) (columns : List Attribute)
    (task : List Attribute → SortTask) :
    Wraps (stage columns fun columns => createSorting settings (task columns)) fun p =>
      .ok (p.sortedBy settings columns (task columns)) :=
  (wraps_stage (wraps_createSorting settings (task columns))).congr fun p => by
    unfold Plan.sortedBy
    split <;> rfl

/-- The columns of a projection have to be those of the root. -/
theorem wraps_createProject (columns : List Attribute) :
    Wraps (createProject columns) fun p =>
      match p.schema.resolveAll columns with
      | .ok _ => .ok (.project p columns)
      | .error a => .error (.attributeNotFound a) :=
  (wraps_wrapRoot _).congr fun p => by
    rw [Plan.projectTo]
    cases p.schema.resolveAll columns <;> rfl

/-- The operators above the conditions are those that the query asks for. -/
theorem wraps_wrapStage (settings : Settings) (q : Query) :
    Wraps (wrapStage settings q) (q.finish settings) := by
  have hdistinct : Wraps (if q.distinct then createSorting settings
      (.distinct (if q.projection.isEmpty then none else some q.projection)) else pure ⟨⟩)
      fun p => .ok (if q.distinct then .sorting p
        (.distinct (if q.projection.isEmpty then none else some q.projection))
        settings.numBuffers else p) := by
    split
    · exact wraps_createSorting settings _
    · exact wraps_pure
  refine ((wraps_stage_createSorting settings q.groupBy .groupBy).bind
    ((wraps_stage_createSorting settings q.orderBy (.orderBy · q.ascending)).bind
      ((wraps_stage (wraps_createProject q.projection)).bind hdistinct))).congr fun p => ?_
  cases hprojection : q.projection with
  | nil =>
    simp [Query.finish, Query.wrap, Query.arrange, hprojection, Schema.resolveAll, Bind.bind,
      Except.bind]
  | cons column columns =>
    simp only [Query.finish, Query.wrap, Query.arrange, hprojection, Bind.bind, Except.bind,
      List.isEmpty_cons, Plan.schema_sortedBy]
    cases p.schema.resolveAll (column :: columns) <;> rfl

/-- When the operators are above the root, they are above what was the root before. -/
theorem root_of_wrapStage (hrun : (wrapStage settings q).run s = (.ok ⟨⟩, u)) :
    u.root = s.root.map (q.wrap settings) := by
  have hwraps := wraps_wrapStage settings q
  cases hroot : s.root with
  | none =>
    obtain hreturns | hfails := hwraps.rootless hroot
    · obtain rfl : s = u := (Prod.mk.inj (hreturns.symm.trans hrun)).2
      exact hroot
    · rw [hrun] at hfails
      cases hfails
  | some p =>
    cases hfinish : q.finish settings p with
    | error e =>
      have hfails := hwraps.fails hroot hfinish
      rw [hrun] at hfails
      cases hfails
    | ok r =>
      obtain rfl := (Prod.mk.inj ((hwraps.returns hroot hfinish).symm.trans hrun)).2
      exact congrArg some (Query.eq_wrap_of_finish hfinish)

/-- The plan that is returned when the operators are above the root. -/
theorem eq_wrap_of_theRoot {v w : BuildState} (hwrap : (wrapStage settings q).run v = (.ok ⟨⟩, w))
    (hrun : theRoot.run w = (.ok p, u)) :
    ∃ core, v.root = some core ∧ p = q.wrap settings core := by
  obtain ⟨_, _, ⟨⟩, hrun⟩ := run_bind_eq_ok.1 hrun
  have hroot := root_of_wrapStage hwrap
  cases hcore : v.root with
  | none =>
    rw [hroot, hcore] at hrun
    cases hrun
  | some core =>
    rw [hroot, hcore] at hrun
    cases hrun
    exact ⟨core, rfl, rfl⟩

/-- A plan that is returned consists of selections and joins over scans, below the operators that
group, order and project them and remove duplicates. -/
theorem build_wraps (hrun : (build catalog settings q).run s = (.ok p, u)) :
    ∃ core : Plan, core.Bare catalog ∧ p = q.wrap settings core := by
  obtain ⟨t, v, w, ht, hconditions, hwrap, hrun⟩ := stages_of_build hrun
  obtain ⟨t₁, cs, ht₁, htaken, -⟩ := (conditionStage_meets ht q).returns hconditions
  have hst := ht.of_unchanged ht₁
  have hv := hst.of_conditionsTaken htaken
  obtain ⟨core, hcore, rfl⟩ := eq_wrap_of_theRoot hwrap hrun
  obtain ⟨r, hr⟩ := htaken.root_top hst.root hcore
  exact ⟨core, hv.bare hr, rfl⟩

/-- The plan that is left when the root is wrapped is what the query makes of the root. -/
theorem run_wrapStage_theRoot (settings : Settings) (q : Query) (s : BuildState) :
    ((wrapStage settings q >>= fun _ => theRoot).run s).1 =
      (theRoot.run s).1 >>= q.finish settings := by
  have htheRoot (t : BuildState) : (theRoot.run t).1 = t.root.elim (.error .noTables) .ok := by
    rw [theRoot, run_bind, run_get]
    cases hroot : t.root <;> simp [hroot]
  have hwraps := wraps_wrapStage settings q
  rw [htheRoot, run_bind]
  cases hroot : s.root with
  | none =>
    obtain hrun | hfail := hwraps.rootless hroot
    · rw [hrun]
      exact (htheRoot s).trans (by rw [hroot]; rfl)
    · rcases hrun : (wrapStage settings q).run s with ⟨_ | _, t⟩ <;>
        simp_all [Bind.bind, Except.bind]
  | some p =>
    cases hfinish : q.finish settings p with
    | error e =>
      have hfail := hwraps.fails hroot hfinish
      rcases hrun : (wrapStage settings q).run s with ⟨_ | _, t⟩ <;>
        simp_all [Bind.bind, Except.bind]
    | ok r =>
      rw [hwraps.returns hroot hfinish]
      simp [htheRoot, hfinish, Bind.bind, Except.bind]

/-- When two steps go on from the same first part, and the result of one rest is made by `h` from
that of the other, the same is true of the whole steps. -/
theorem run_bind_fst_congr {α β : Type} {m : BuildM α} {f g : α → BuildM β}
    {h : β → Except Failure β} (hfg : ∀ a t, ((f a).run t).1 = ((g a).run t).1 >>= h)
    (s : BuildState) : ((m >>= f).run s).1 = ((m >>= g).run s).1 >>= h := by
  rw [run_bind, run_bind]
  rcases m.run s with ⟨_ | a, t⟩
  · rfl
  · exact hfg a t

/-- What is built is made from the plan of the conditions alone: the projection is resolved against
its columns, and those that it is grouped and ordered by are not looked up. -/
theorem run_build (catalog : Catalog) (settings : Settings) (q : Query) (s : BuildState) :
    ((build catalog settings q).run s).1 =
      ((build catalog settings q.bare).run s).1 >>= q.finish settings := by
  have hwrap (t : BuildState) : ((wrapStage settings q >>= fun _ => theRoot).run t).1 =
      ((wrapStage settings q.bare >>= fun _ => theRoot).run t).1 >>= q.finish settings := by
    have hbare (p : Plan) : q.bare.finish settings p = .ok p := rfl
    rw [run_wrapStage_theRoot, run_wrapStage_theRoot, funext hbare]
    cases (theRoot.run t).1 <;> rfl
  unfold build
  cases hempty : q.tables.isEmpty with
  | true => simp [Query.bare, hempty, Bind.bind, Except.bind]
  | false =>
    simp only [Query.bare, hempty]
    exact run_bind_fst_congr
      (fun _ => run_bind_fst_congr fun _ => run_bind_fst_congr fun _ => hwrap) s

end BuildM

end QueryPlan
