import Mathlib
import QueryPlan.Proofs.Build.Disguises
import QueryPlan.Proofs.Build.Lookups

/-!
# Queries that are planned alike

Two queries that differ in their conditions alone are planned from the same state of the scans. What
becomes of them follows from what their conditions are qualified to there: when these are the same
filters and the same links, up to the types and sizes of columns, both constructions have the same
result, and the same state at their end.

## Main definitions

* `Query.on` : a query with conditions that are sorted by what they are used for.
* `Condition.inOrder` : conditions in the order in which they are taken into the plan.
* `Condition.Alike` : lists of conditions that a construction does not tell apart.
* `BuildM.planQualified` : the construction once the conditions are qualified.

## Main results

* `BuildM.build_filed` : every construction of a family goes on from the same state of the scans.
* `BuildM.image_planQualified` : conditions that are alike have the same plan.
-/

namespace QueryPlan

variable {φ : Attribute → Attribute} {catalog : Catalog} {settings : Settings} {q : Query}

/-- A list is gone through up to one of its elements, then this one and then the others. -/
theorem mapM_append_cons {ε α β : Type} (f : α → Except ε β) (before : List α) (x : α)
    (after : List α) : (before ++ x :: after).mapM f = (do
      let as ← before.mapM f
      let b ← f x
      let bs ← after.mapM f
      return as ++ b :: bs) := by
  simp [List.mapM_append, List.mapM_cons]

theorem mapM_eq_self {ε α : Type} {f : α → Except ε α} {l : List α} (h : ∀ x ∈ l, f x = .ok x) :
    l.mapM f = .ok l := by
  induction l with
  | nil => rfl
  | cons x l ih =>
    rw [List.forall_mem_cons] at h
    rw [List.mapM_cons, h.1, ih h.2]
    rfl

/-- A query with the given conditions, sorted by what they are used for. -/
def Query.on (q : Query) (cs : List Condition) : Query :=
  { q with selections := (Condition.classify cs).1, joins := (Condition.classify cs).2 }

namespace Condition

/-- Conditions in the order in which they are taken into the plan: first those that join two tables
as they are written. -/
def inOrder (cs : List Condition) : List Condition := (classify cs).2 ++ (classify cs).1

/-- Up to the columns that `φ` replaces, the lists have the same filters in the same order, and the
same links for every key, where the keys have the same order. -/
structure Alike (φ : Attribute → Attribute) (cs cs' : List Condition) : Prop where
  filters : (cs'.map (mapColumns φ)).filterMap filter? = (cs.map (mapColumns φ)).filterMap filter?
  links : JoinGraph.collect ((cs'.map (mapColumns φ)).filterMap link?) =
    JoinGraph.collect ((cs.map (mapColumns φ)).filterMap link?)

/-- Lists are alike when a condition that joins two tables is taken before others of other pairs,
and no new pair of tables comes before another one. -/
theorem alike_of_passed (after : List Condition) (hφ : ∀ a, (φ a).key = a.key)
    {before passed : List Condition} {c d : Condition} {edge : String}
    (hlink : (c.mapColumns φ).link? = (d.mapColumns φ).link?)
    (hedge : d.edge? = some edge) (hne : edge ∉ passed.filterMap edge?)
    (hmem : edge ∈ before.filterMap edge? ∨ passed.filterMap edge? ⊆ before.filterMap edge?) :
    Alike φ (before ++ passed ++ c :: after) (before ++ d :: passed ++ after) := by
  have hd : (d.mapColumns φ).link? = some (edge, (d.mapColumns φ).placed) := by
    rw [link?, edge?_mapColumns hφ, hedge]
    rfl
  rw [hd] at hlink
  rw [← map_fst_links_mapColumns hφ before, ← map_fst_links_mapColumns hφ passed] at hmem
  rw [← map_fst_links_mapColumns hφ passed] at hne
  constructor
  · simp [filter?_of_link? hlink, filter?_of_link? hd]
  · have hcollect := JoinGraph.collect_append_cons (n := (edge, (d.mapColumns φ).placed)) hne hmem
    simpa [hlink, hd] using
      (hcollect ((after.map (mapColumns φ)).filterMap link?)).symm

/-- A condition that joins two tables as it is written is taken before all those that do not. -/
theorem inOrder_of_relatesTables (earlier later : List Condition) {c : Condition}
    (hc : c.relatesTables = true) : inOrder (earlier ++ c :: later) =
      (classify earlier).2 ++ { c with kind := .join } ::
        ((classify later).2 ++ (classify (earlier ++ later)).1) := by
  simp [inOrder, classify, hc]

/-- Any other condition is taken after all those that do. -/
theorem inOrder_of_not_relatesTables (earlier later : List Condition) {c : Condition}
    (hc : c.relatesTables = false) : inOrder (earlier ++ c :: later) =
      (classify (earlier ++ later)).2 ++ (classify earlier).1 ++ { c with kind := .select } ::
        (classify later).1 := by
  simp [inOrder, classify, hc]

/-- Two conditions that are sorted in the same way stand in the same place. -/
theorem exists_inOrder_eq (earlier later : List Condition) (b : Bool) :
    ∃ before kind after, ∀ c : Condition, c.relatesTables = b →
      inOrder (earlier ++ c :: later) = before ++ { c with kind := kind } :: after := by
  cases b with
  | true => exact ⟨_, _, _, fun _ => inOrder_of_relatesTables earlier later⟩
  | false => exact ⟨_, _, _, fun _ => inOrder_of_not_relatesTables earlier later⟩

/-- Conditions that are alike, or the same failure. -/
inductive AlikeResults (φ : Attribute → Attribute) :
    Except Failure (List Condition) → Except Failure (List Condition) → Prop
  | ok {cs cs' : List Condition} (h : Alike φ cs cs') : AlikeResults φ (.ok cs) (.ok cs')
  | error (e : Failure) : AlikeResults φ (.error e) (.error e)

end Condition

namespace BuildM

open Program BuildState

/-- The construction of a query after its conditions are qualified. -/
def planQualified (settings : Settings) (q : Query) (cs : List Condition) : BuildM Plan := do
  (createSelects (Condition.classify cs).1 >>= fun _ =>
    joinStage q.tables (Condition.classify cs).2)
  wrapStage settings q
  theRoot

/-- The result of a construction and the state at its end, with replaced columns. -/
def image (φ : Attribute → Attribute) (r : Except Failure Plan × BuildState) :
    Except Failure Plan × BuildState :=
  ((r.1.mapError (Failure.mapColumns φ)).map (Plan.mapColumns φ), r.2.mapColumns φ)

@[simp] theorem image_id (r : Except Failure Plan × BuildState) : image id r = r := by
  obtain ⟨result, s⟩ := r
  cases result <;> simp [image, Except.map, Except.mapError]

/-- Constructions of queries that differ in their conditions alone come to the same state of the
scans, and go on from what the conditions are qualified to there, or they fail before. -/
theorem build_filed (catalog : Catalog) (settings : Settings) (q : Query) (start : BuildState) :
    (∃ e u, ∀ selections joins, (build catalog settings
        { q with selections := selections, joins := joins }).run start = (.error e, u)) ∨
      ∃ s : BuildState, s.Scanned catalog q.tables ∧
        ∀ selections joins, (build catalog settings
            { q with selections := selections, joins := joins }).run start =
          (Program.ofExcept ((joins ++ selections).mapM s.qualified) >>=
            planQualified settings q).run s := by
  by_cases hempty : q.tables.isEmpty = true
  · exact .inl ⟨.noTables, start, fun _ _ => by rw [build, if_pos hempty, run_fail]⟩
  have hbuild (selections joins : List Condition) :
      (build catalog settings { q with selections := selections, joins := joins }).run start =
        (scanStage catalog q.tables >>= fun _ => planScanned settings
          { q with selections := selections, joins := joins }).run start := by
    rw [build, if_neg hempty]
  rcases hscan : (scanStage catalog q.tables).run start with ⟨_ | _, t⟩
  · rename_i e
    exact .inl ⟨e, t, fun _ _ => by rw [hbuild, run_bind, hscan]⟩
  · have ht := scanStage_returns hscan
    rcases hrecord : (record (.scansCreated q.tables.length)).run t with ⟨result, s⟩
    obtain rfl : .ok ⟨⟩ = result := congrArg Prod.fst hrecord
    have hs := ht.of_unchanged ((record_meets ht.toFrontier _).returns hrecord)
    refine .inr ⟨s, hs, fun selections joins => ?_⟩
    rw [hbuild, run_bind, hscan]
    change (record (.scansCreated q.tables.length) >>= _).run t = _
    rw [run_bind, hrecord]
    change (conditionStage { q with selections := selections, joins := joins } >>= _).run s = _
    rw [run_bind, conditionStage, run_bind, run_qualifyAll hs, run_bind, run_ofExcept]
    cases (joins ++ selections).mapM s.qualified with
    | error e => rfl
    | ok ds => exact (run_bind _ _ s).symm

/-- Conditions that are sorted by what they are used for are qualified in the order in which they
are taken into the plan. -/
theorem build_on (catalog : Catalog) (settings : Settings) (q : Query) (start : BuildState) :
    (∃ e u, ∀ cs, (build catalog settings (q.on cs)).run start = (.error e, u)) ∨
      ∃ s : BuildState, s.Scanned catalog q.tables ∧
        ∀ cs, (build catalog settings (q.on cs)).run start =
          (Program.ofExcept ((Condition.inOrder cs).mapM s.qualified) >>=
            planQualified settings q).run s := by
  obtain ⟨e, u, hfail⟩ | ⟨s, hs, hplan⟩ := build_filed catalog settings q start
  · exact .inl ⟨e, u, fun cs => hfail _ _⟩
  · exact .inr ⟨s, hs, fun cs => hplan _ _⟩

/-- Conditions that are alike have the same plan, up to the columns that are replaced. -/
theorem image_planQualified (hφ : ∀ a, (φ a).key = a.key) {cs cs' : List Condition}
    (halike : Condition.Alike φ cs cs') (settings : Settings) (q : Query) (s : BuildState) :
    image φ ((planQualified settings q cs').run s) =
      image φ ((planQualified settings q cs).run s) := by
  have follows {ds : List Condition}
      (hfilters : (cs.map (Condition.mapColumns φ)).filterMap Condition.filter? =
        (ds.map (Condition.mapColumns φ)).filterMap Condition.filter?)
      (hlinks : JoinGraph.collect ((cs.map (Condition.mapColumns φ)).filterMap Condition.link?) =
        JoinGraph.collect ((ds.map (Condition.mapColumns φ)).filterMap Condition.link?)) :
      (planQualified settings q (cs.map (Condition.mapColumns φ))).run (s.mapColumns φ) =
        image φ ((planQualified settings q ds).run s) := by
    have hfollows : Follows (.ofColumns φ hφ) (Disguise.ofColumns φ hφ).plan
        (planQualified settings q ds)
        (planQualified settings q (cs.map (Condition.mapColumns φ))) s :=
      (follows_conditions Disguise.takes_ofColumns trivial q.tables hfilters hlinks).bind fun _ t =>
        (follows_wrapStage settings q).bind fun _ u => follows_theRoot
    rwa [Follows, Disguise.state_ofColumns, Disguise.state_ofColumns,
      Disguise.plan_ofColumns] at hfollows
  exact (follows halike.filters.symm halike.links.symm).symm.trans (follows rfl rfl)

theorem run_planQualified_of_alike {cs cs' : List Condition} (halike : Condition.Alike id cs cs')
    (settings : Settings) (q : Query) (s : BuildState) :
    (planQualified settings q cs').run s = (planQualified settings q cs).run s := by
  have hid (a : Attribute) : (id a).key = a.key := rfl
  simpa using image_planQualified hid halike settings q s

/-- Queries have the same plan, up to the columns that are replaced, when their conditions are alike
once they are qualified. -/
theorem image_build_on (hφ : ∀ a, (φ a).key = a.key) {cs cs' : List Condition}
    (halike : ∀ s : BuildState, s.Scanned catalog q.tables → Condition.AlikeResults φ
      ((Condition.inOrder cs).mapM s.qualified) ((Condition.inOrder cs').mapM s.qualified))
    (start : BuildState) :
    image φ ((build catalog settings (q.on cs')).run start) =
      image φ ((build catalog settings (q.on cs)).run start) := by
  obtain ⟨e, u, hfail⟩ | ⟨s, hs, hplan⟩ := build_on catalog settings q start
  · rw [hfail, hfail]
  · rw [hplan, hplan, run_bind, run_bind, run_ofExcept, run_ofExcept]
    have hresults := halike s hs
    generalize (Condition.inOrder cs).mapM s.qualified = result at hresults ⊢
    generalize (Condition.inOrder cs').mapM s.qualified = result' at hresults ⊢
    cases hresults with
    | ok h => exact image_planQualified hφ h settings q s
    | error e => rfl

end BuildM

end QueryPlan
