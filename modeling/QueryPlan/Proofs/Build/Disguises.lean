import Mathlib
import QueryPlan.Proofs.Build.Recolumning

/-!
# Constructions in disguise

A construction reads the table and the name of a column that a condition compares, and never its
type or its size. It writes the algorithm of a join into the plan and into the record of events, and
never reads it again. So when columns are replaced by others of the same table and name, and
algorithms by others, it takes the same steps, and its state changes by that replacement alone.

The source of codes is replaced along with the algorithms. The two sources have to fit wherever a
code is drawn: the one has to give the code of an algorithm exactly when the other does, and that of
its replacement.

## Main definitions

* `Disguise` : columns, algorithms and sources of codes are replaced.
* `Disguise.plan`, `Disguise.event`, `Disguise.state` : what this makes of a plan, of an event and
  of a state.
* `BuildM.Follows` : a program does in disguise what another one does.
* `Disguise.Takes` : edges can be taken into a plan in disguise.

## Main results

* `BuildM.follows_conditions` : conditions are taken into the plan in disguise.
* `BuildM.follows_wrapStage`, `BuildM.follows_theRoot` : so are the operators above them.
* `BuildM.follows_planScanned` : a query is planned in disguise when its columns are not replaced.
-/

namespace QueryPlan

/-- Columns are replaced by others of the same table and name, the algorithm of the join at a place
and its code by others, and a source of codes by another one. Events that were recorded before come
first. -/
structure Disguise where
  column : Attribute → Attribute := id
  algorithm : ℤ → JoinAlgorithm → JoinAlgorithm := fun _ a => a
  code : ℤ → ℤ → ℤ := fun _ c => c
  draws : Draws → Draws := id
  before : List Event := []
  key_column : ∀ a, (column a).key = a.key := by exact fun _ => rfl
  code_algorithm : ∀ place a, code place a.code = (algorithm place a).code := by
    exact fun _ _ => rfl

namespace Disguise

variable {D : Disguise}

/-- A plan in disguise. -/
def plan (D : Disguise) : Plan → Plan
  | .scan table output => .scan table output
  | .select base c => .select (D.plan base) (c.mapColumns D.column)
  | .project base columns => .project (D.plan base) columns
  | .join left right cs code place =>
    .join (D.plan left) (D.plan right) (cs.map (Condition.mapColumns D.column))
      (D.code place code) place
  | .sorting base task buffers => .sorting (D.plan base) task buffers
  | .foreign base name output => .foreign (D.plan base) name output
  | .foreignLeaf name output => .foreignLeaf name output

/-- An event in disguise. -/
def event (D : Disguise) : Event → Event
  | .joined place left right a => .joined place left right (D.algorithm place a)
  | e => e

/-- A failure in disguise. -/
def failure (D : Disguise) (f : Failure) : Failure := f.mapColumns D.column

/-- A state in disguise. -/
def state (D : Disguise) (s : BuildState) : BuildState where
  root := s.root.map D.plan
  joinCount := s.joinCount
  groups := s.groups
  tops := s.tops.mapValues D.plan
  draws := D.draws s.draws
  events := D.before ++ s.events.map D.event

/-- Where the next join has the given place, the source and its replacement give codes of
algorithms, or both give the same code, which is none. -/
structure Fits (D : Disguise) (place : ℕ) (d : Draws) : Prop where
  algorithm : JoinAlgorithm.ofCode? (D.draws d).next.1 =
    (JoinAlgorithm.ofCode? d.next.1).map (D.algorithm place)
  code : JoinAlgorithm.ofCode? d.next.1 = none → (D.draws d).next.1 = d.next.1
  next : (D.draws d).next.2 = D.draws d.next.2

/-- In states with the property `P` the sources of codes fit, and the steps that take conditions
into the plan lead from such states to such states again. -/
structure Takes (D : Disguise) (P : BuildState → Prop) : Prop where
  fits : ∀ {s}, P s → D.Fits s.joinCount s.draws
  record : ∀ {s u e}, P s → (BuildM.record e).run s = (.ok ⟨⟩, u) → P u
  qualify : ∀ {s u cs ds}, P s → (BuildM.qualifyAll cs).run s = (.ok ds, u) → P u
  select : ∀ {s u cs}, P s → (BuildM.createSelects cs).run s = (.ok ⟨⟩, u) → P u
  edge : ∀ {s u left right cs}, P s → (BuildM.createEdge left right cs).run s = (.ok ⟨⟩, u) → P u

@[simp] theorem schema_plan (p : Plan) : (D.plan p).schema = p.schema := by
  induction p <;> simp_all [plan, Plan.schema]

@[simp] theorem scannedTables_plan (p : Plan) : (D.plan p).scannedTables = p.scannedTables := by
  induction p with
  | foreign base name output ih =>
    simpa [plan, Plan.scannedTables, Plan.walk_eq_preorder, Plan.preorder] using ih
  | foreignLeaf name output => rfl
  | _ => simp_all [plan]

theorem plan_foldl_select (cs : List Condition) (p : Plan) :
    D.plan (cs.foldl Plan.select p) =
      (cs.map (Condition.mapColumns D.column)).foldl Plan.select (D.plan p) := by
  induction cs generalizing p with
  | nil => rfl
  | cons c cs ih => exact ih (.select p c)

/-! ### Disguises of columns alone -/

/-- Columns are replaced, and nothing else. -/
def ofColumns (φ : Attribute → Attribute) (hφ : ∀ a, (φ a).key = a.key) : Disguise where
  column := φ
  key_column := hφ

variable {φ : Attribute → Attribute} {hφ : ∀ a, (φ a).key = a.key}

theorem plan_ofColumns : (ofColumns φ hφ).plan = Plan.mapColumns φ := by
  funext p
  induction p <;> simp_all [plan, Plan.mapColumns, ofColumns]

theorem state_ofColumns (s : BuildState) : (ofColumns φ hφ).state s = s.mapColumns φ := by
  have hevent : (ofColumns φ hφ).event = id := by
    funext e
    cases e <;> rfl
  rw [state, plan_ofColumns, hevent, List.map_id]
  rfl

theorem takes_ofColumns : (ofColumns φ hφ).Takes fun _ => True where
  fits _ := ⟨by simp [ofColumns], fun _ => rfl, rfl⟩
  record _ _ := trivial
  qualify _ _ := trivial
  select _ _ := trivial
  edge _ _ := trivial

end Disguise

namespace BuildM

open Program

variable {α β γ δ : Type} {D : Disguise} {g : α → β} {h : γ → δ} {s t : BuildState}

/-- From a state in disguise, `m'` does what `m` does from the state, in the same disguise. -/
def Follows (D : Disguise) (g : α → β) (m : BuildM α) (m' : BuildM β) (s : BuildState) : Prop :=
  m'.run (D.state s) = (((m.run s).1.mapError D.failure).map g, D.state (m.run s).2)

theorem Follows.bind_of_run {m : BuildM α} {m' : BuildM β} {k : α → BuildM γ}
    {k' : β → BuildM δ} (hm : Follows D g m m' s)
    (hk : ∀ a t, m.run s = (.ok a, t) → Follows D h (k a) (k' (g a)) t) :
    Follows D h (m >>= k) (m' >>= k') s := by
  unfold Follows at hm
  rw [Follows, run_bind, run_bind, hm]
  rcases hrun : m.run s with ⟨_ | a, t⟩
  · rfl
  · exact hk a t hrun

theorem Follows.bind {m : BuildM α} {m' : BuildM β} {k : α → BuildM γ} {k' : β → BuildM δ}
    (hm : Follows D g m m' s) (hk : ∀ a t, Follows D h (k a) (k' (g a)) t) :
    Follows D h (m >>= k) (m' >>= k') s :=
  hm.bind_of_run fun a t _ => hk a t

theorem follows_pure (a : α) : Follows D g (pure a) (pure (g a)) s := rfl

theorem follows_fail {e e' : Failure} (he : D.failure e = e') :
    Follows D g (fail e : BuildM α) (fail e' : BuildM β) s := by
  subst he
  rfl

theorem follows_modify {f f' : BuildState → BuildState} (hf : f' (D.state s) = D.state (f s)) :
    Follows D id (modify f : BuildM PUnit) (modify f') s := by
  rw [Follows, run_modify, run_modify, hf]
  rfl

theorem follows_modify_bind {f f' : BuildState → BuildState} {k : PUnit → BuildM γ}
    {k' : PUnit → BuildM δ} (hf : f' (D.state s) = D.state (f s))
    (hk : Follows D h (k ⟨⟩) (k' ⟨⟩) (f s)) :
    Follows D h (modify f >>= k) (modify f' >>= k') s :=
  (follows_modify hf).bind_of_run fun _ t hrun => by
    obtain rfl : f s = t := congrArg Prod.snd hrun
    exact hk

theorem follows_get_bind {k k' : BuildState → BuildM α} {g : α → α}
    (hk : Follows D g (k s) (k' (D.state s)) s) :
    Follows D g ((get : BuildM BuildState) >>= k) ((get : BuildM BuildState) >>= k') s := hk

/-! ### Steps on the frontier -/

/-- An event that does not name an algorithm is recorded as it is. -/
theorem follows_record {e e' : Event} (he : D.event e = e') :
    Follows D id (record e) (record e') s := by
  subst he
  refine follows_modify ?_
  simp [Disguise.state]

theorem follows_setRoot (p : Plan) : Follows D id (setRoot p) (setRoot (D.plan p)) s :=
  follows_modify rfl

theorem follows_leaderOf (table : String) :
    Follows D id (leaderOf table) (leaderOf table) s := by
  refine follows_get_bind ?_
  dsimp only [Disguise.state]
  cases s.groups.find table with
  | none => exact follows_fail rfl
  | some found => exact follows_modify_bind rfl (follows_pure found.1)

theorem follows_topOf (table : String) : Follows D D.plan (topOf table) (topOf table) s := by
  refine (follows_leaderOf table).bind fun leader t => follows_get_bind ?_
  dsimp only [Disguise.state, id]
  rw [OrderedMap.get?_mapValues]
  cases t.tops.get? leader with
  | none => exact follows_fail rfl
  | some p => exact follows_pure p

theorem follows_setTop (table : String) (p : Plan) :
    Follows D id (setTop table p) (setTop table (D.plan p)) s := by
  refine (follows_leaderOf table).bind fun leader t => follows_modify ?_
  simp [Disguise.state, OrderedMap.mapValues_insert]

theorem follows_merge (left right : String) (p : Plan) :
    Follows D id (merge left right p) (merge left right (D.plan p)) s := by
  refine (follows_leaderOf left).bind fun kept t => ?_
  refine (follows_leaderOf right).bind fun absorbed u => follows_modify ?_
  simp [Disguise.state, OrderedMap.mapValues_insert, OrderedMap.mapValues_erase]

theorem follows_addScan (table : String) (p : Plan) :
    Follows D id (addScan table p) (addScan table (D.plan p)) s := by
  refine follows_modify ?_
  simp [Disguise.state, OrderedMap.mapValues_insert]

theorem follows_tablesWith (a : Attribute) (tables : List String) :
    Follows D id (tablesWith a tables) (tablesWith (D.column a) tables) s := by
  induction tables generalizing s with
  | nil => exact follows_pure []
  | cons table tables ih =>
    refine (follows_topOf table).bind fun top t => ih.bind fun others u => ?_
    rw [Disguise.schema_plan, Schema.contains_map D.key_column]
    exact follows_pure _

theorem follows_ownerOf (a : Attribute) :
    Follows D id (ownerOf a) (ownerOf (D.column a)) s := by
  unfold ownerOf
  rw [Attribute.owner?_map D.key_column]
  split
  · exact follows_pure _
  · refine follows_get_bind ((follows_tablesWith a _).bind fun found t => ?_)
    match found with
    | [] => exact follows_fail rfl
    | [table] => exact follows_pure table
    | first :: second :: rest => exact follows_fail rfl

/-! ### Taking conditions into the plan -/

theorem follows_createSelect (c : Condition) :
    Follows D id (createSelect c) (createSelect (c.mapColumns D.column)) s := by
  refine (follows_ownerOf c.lhs).bind fun table t => ?_
  refine (follows_topOf table).bind fun top u => ?_
  exact (follows_setTop table (.select top c)).bind fun _ v => follows_setRoot (.select top c)

theorem follows_createSelects (cs : List Condition) :
    Follows D id (createSelects cs)
      (createSelects (cs.map (Condition.mapColumns D.column))) s := by
  induction cs generalizing s with
  | nil => exact follows_pure PUnit.unit
  | cons c cs ih => exact (follows_createSelect c).bind fun _ t => ih

/-- Looking a leader up leaves the source and the number of joins alone. -/
theorem fits_of_leaderOf {table leader : String} (hfits : D.Fits s.joinCount s.draws)
    (hrun : (leaderOf table).run s = (.ok leader, t)) : D.Fits t.joinCount t.draws := by
  rw [leaderOf, run_bind, run_get] at hrun
  dsimp only at hrun
  split at hrun
  · obtain rfl := congrArg Prod.snd hrun
    exact hfits
  · cases hrun

theorem fits_of_topOf {table : String} {p : Plan} (hfits : D.Fits s.joinCount s.draws)
    (hrun : (topOf table).run s = (.ok p, t)) : D.Fits t.joinCount t.draws := by
  obtain ⟨leader, u, hleader, hrun⟩ := run_bind_eq_ok.1 hrun
  rw [run_bind, run_get] at hrun
  dsimp only at hrun
  split at hrun
  · obtain rfl := congrArg Prod.snd hrun
    exact fits_of_leaderOf hfits hleader
  · cases hrun

theorem follows_drawAlgorithm (hfits : D.Fits s.joinCount s.draws) :
    Follows D (D.algorithm s.joinCount) drawAlgorithm drawAlgorithm s := by
  refine follows_get_bind ?_
  dsimp only [Disguise.state]
  refine follows_modify_bind (congrArg (fun d => { D.state s with draws := d }) hfits.next) ?_
  rw [hfits.algorithm]
  cases hcode : JoinAlgorithm.ofCode? s.draws.next.1 with
  | none =>
    rw [hfits.code hcode]
    exact follows_fail rfl
  | some a => exact follows_pure a

/-- The place of the join that is made is the one that its code was drawn for. -/
theorem joinCount_of_drawAlgorithm {a : JoinAlgorithm}
    (hrun : drawAlgorithm.run s = (.ok a, t)) : t.joinCount = s.joinCount := by
  rw [drawAlgorithm, run_bind, run_get] at hrun
  obtain ⟨_, u, hu, hrun⟩ := run_bind_eq_ok.1 hrun
  obtain rfl := congrArg Prod.snd hu
  split at hrun
  · obtain rfl := congrArg Prod.snd hrun
    rfl
  · cases hrun

theorem follows_createJoin (hfits : D.Fits s.joinCount s.draws) (left right : String)
    (cs : List Condition) :
    Follows D id (createJoin left right cs)
      (createJoin left right (cs.map (Condition.mapColumns D.column))) s := by
  refine (follows_topOf left).bind_of_run fun l t ht => ?_
  refine (follows_topOf right).bind_of_run fun r u hu => ?_
  have hfits := fits_of_topOf (fits_of_topOf hfits ht) hu
  refine (follows_drawAlgorithm hfits).bind_of_run fun a v hv => follows_get_bind ?_
  have hplan : D.plan (.join l r cs a.code v.joinCount) =
      .join (D.plan l) (D.plan r) (cs.map (Condition.mapColumns D.column))
        (D.algorithm u.joinCount a).code v.joinCount := by
    rw [Disguise.plan, D.code_algorithm, joinCount_of_drawAlgorithm hv]
  have hmerge := follows_merge (D := D) (s := v) left right (.join l r cs a.code v.joinCount)
  rw [hplan] at hmerge
  refine hmerge.bind fun _ w => follows_modify_bind rfl (follows_record ?_)
  dsimp only [Disguise.event, Disguise.state]
  rw [joinCount_of_drawAlgorithm hv]

theorem follows_createChain (left right : String) (cs : List Condition) :
    Follows D id (createChain left right cs)
      (createChain left right (cs.map (Condition.mapColumns D.column))) s := by
  refine (follows_topOf left).bind fun top t => ?_
  rw [← Disguise.plan_foldl_select, List.length_map]
  exact (follows_setTop left _).bind fun _ u => follows_record rfl

theorem follows_createEdge (hfits : D.Fits s.joinCount s.draws) (left right : String)
    (cs : List Condition) :
    Follows D id (createEdge left right cs)
      (createEdge left right (cs.map (Condition.mapColumns D.column))) s := by
  refine (follows_leaderOf left).bind_of_run fun l t ht => ?_
  refine (follows_leaderOf right).bind_of_run fun r u hu => ?_
  dsimp only [id]
  split
  · exact follows_createChain left right cs
  · exact follows_createJoin (fits_of_leaderOf (fits_of_leaderOf hfits ht) hu) left right cs

section Edges

variable {P : BuildState → Prop} (hD : D.Takes P)

include hD

theorem follows_createEdges (hs : P s) {graph graph' : JoinGraph}
    (hgraph : ∀ edge, graph'.conditionsOf edge =
      (graph.conditionsOf edge).map (Condition.mapColumns D.column)) (edges : List String)
    (last : Option String) :
    Follows D id (createEdges graph edges last) (createEdges graph' edges last) s := by
  induction edges generalizing s last with
  | nil => exact follows_pure last
  | cons edge edges ih =>
    unfold createEdges
    split
    · exact follows_fail rfl
    · rw [hgraph]
      exact (follows_createEdge (hD.fits hs) _ _ _).bind_of_run fun _ t ht =>
        ih (hD.edge hs ht) _

omit hD in
theorem follows_checkConnected (tables : List String) {graph graph' : JoinGraph}
    (hedges : graph'.edges = graph.edges) :
    Follows D id (checkConnected tables graph) (checkConnected tables graph') s := by
  have hroot : (D.state s).root.map Plan.scannedTables = s.root.map Plan.scannedTables := by
    simp [Disguise.state, Function.comp_def]
  refine follows_get_bind ?_
  rw [hroot, JoinGraph.components, JoinGraph.components, hedges]
  dsimp only
  split
  · exact follows_record rfl
  · exact follows_pure PUnit.unit

variable {cs cs' : List Condition} {graph graph' : JoinGraph}
  (hgraph : JoinGraph.ofConditions cs = .ok graph)
  (hgraph' : JoinGraph.ofConditions cs' = .ok graph')
  (hconditions : graph'.conditions =
    graph.conditions.mapValues (List.map (Condition.mapColumns D.column)))

include hgraph

omit hD in
theorem eq_of_run_createJoins {a : JoinGraph} (hrun : (createJoins cs).run s = (.ok a, t)) :
    a = graph := by
  unfold createJoins at hrun
  rw [hgraph] at hrun
  obtain ⟨_, _, ⟨⟩, hrun⟩ := run_bind_eq_ok.1 hrun
  obtain ⟨last, u, -, hrun⟩ := run_bind_eq_ok.1 hrun
  cases last with
  | none => exact (Except.ok.inj (Prod.mk.inj hrun).1).symm
  | some table =>
    obtain ⟨_, v, -, hrun⟩ := run_bind_eq_ok.1 hrun
    obtain ⟨_, w, -, hrun⟩ := run_bind_eq_ok.1 hrun
    exact (Except.ok.inj (Prod.mk.inj hrun).1).symm

include hgraph' hconditions

theorem follows_createJoins (hs : P s) :
    Follows D (fun _ => graph') (createJoins cs) (createJoins cs') s := by
  have hconditionsOf (edge : String) : graph'.conditionsOf edge =
      (graph.conditionsOf edge).map (Condition.mapColumns D.column) := by
    rw [JoinGraph.conditionsOf, JoinGraph.conditionsOf, hconditions, OrderedMap.get?_mapValues]
    cases graph.conditions.get? edge <;> rfl
  unfold createJoins
  rw [hgraph, hgraph']
  change Follows D _ (createEdges graph graph.edges none >>= _)
    (createEdges graph' graph'.edges none >>= _) s
  rw [JoinGraph.edges_eq_of_mapValues hconditions]
  refine (follows_createEdges hD hs hconditionsOf graph.edges none).bind fun last t => ?_
  cases last with
  | none => exact follows_pure graph
  | some table =>
    refine (follows_topOf table).bind fun top u => ?_
    exact (follows_setRoot top).bind fun _ v => follows_pure graph

theorem follows_joinStage (hs : P s) (tables : List String) (hnil : cs' = [] ↔ cs = []) :
    Follows D id (joinStage tables cs) (joinStage tables cs') s := by
  simp only [joinStage, List.isEmpty_iff, hnil]
  split
  · exact follows_pure PUnit.unit
  · refine (follows_createJoins hD hgraph hgraph' hconditions hs).bind_of_run fun a t hrun => ?_
    obtain rfl := eq_of_run_createJoins hgraph hrun
    exact follows_checkConnected tables (JoinGraph.edges_eq_of_mapValues hconditions)

omit hgraph hgraph' hconditions

/-- Conditions are taken into the plan like others that are the same filters in the same order and
the same links for every key, with replaced columns, where the keys are in the same order. -/
theorem follows_conditions (hs : P s) (tables : List String) {cs cs' : List Condition}
    (hfilters : cs'.filterMap Condition.filter? =
      (cs.map (Condition.mapColumns D.column)).filterMap Condition.filter?)
    (hlinks : JoinGraph.collect (cs'.filterMap Condition.link?) =
      JoinGraph.collect ((cs.map (Condition.mapColumns D.column)).filterMap Condition.link?)) :
    Follows D id
      (createSelects (Condition.classify cs).1 >>= fun _ =>
        joinStage tables (Condition.classify cs).2)
      (createSelects (Condition.classify cs').1 >>= fun _ =>
        joinStage tables (Condition.classify cs').2) s := by
  have hselects : (Condition.classify cs').1 =
      (Condition.classify cs).1.map (Condition.mapColumns D.column) := by
    simp [Condition.classify_fst_eq_filterMap, hfilters, List.filterMap_map, List.map_filterMap,
      Condition.filter?_mapColumns D.key_column]
  have hcollect : JoinGraph.collect (cs'.filterMap Condition.link?) =
      (JoinGraph.collect (cs.filterMap Condition.link?)).mapValues
        (List.map (Condition.mapColumns D.column)) := by
    rw [hlinks, ← JoinGraph.collect_map]
    simp [List.filterMap_map, List.map_filterMap, Condition.link?_mapColumns D.key_column]
  obtain ⟨graph, hgraph, hconditions⟩ := JoinGraph.ofConditions_classify cs
  obtain ⟨graph', hgraph', hconditions'⟩ := JoinGraph.ofConditions_classify cs'
  have hnil : (Condition.classify cs').2 = [] ↔ (Condition.classify cs).2 = [] := by
    rw [Condition.classify_snd_eq_nil_iff, Condition.classify_snd_eq_nil_iff,
      ← JoinGraph.keys_collect_eq_nil_iff, ← JoinGraph.keys_collect_eq_nil_iff, hcollect,
      OrderedMap.keys_mapValues]
  rw [hselects]
  refine (follows_createSelects _).bind_of_run fun _ t ht => ?_
  exact follows_joinStage hD hgraph hgraph' (by rw [hconditions', hcollect, hconditions])
    (hD.select hs ht) tables hnil

end Edges

/-! ### The operators above the conditions -/

theorem follows_wrapRoot {wrap : Plan → Except Failure Plan}
    (hwrap : ∀ p, wrap (D.plan p) = ((wrap p).mapError D.failure).map D.plan) :
    Follows D id (wrapRoot wrap) (wrapRoot wrap) s := by
  refine follows_get_bind ?_
  dsimp only [Disguise.state]
  cases s.root with
  | none => exact follows_fail rfl
  | some p =>
    refine Follows.bind (g := D.plan) ?_ fun q t => follows_setRoot q
    rw [Follows, run_ofExcept, run_ofExcept]
    exact congrArg (·, D.state s) (hwrap p)

theorem follows_createSorting (settings : Settings) (task : SortTask) :
    Follows D id (createSorting settings task) (createSorting settings task) s :=
  follows_wrapRoot fun _ => rfl

theorem follows_createProject (columns : List Attribute) :
    Follows D id (createProject columns) (createProject columns) s := by
  refine follows_wrapRoot fun p => ?_
  rw [Plan.projectTo, Plan.projectTo, Disguise.schema_plan]
  cases p.schema.resolveAll columns <;> rfl

theorem follows_stage (columns : List Attribute) {create : List Attribute → BuildM Unit}
    (hcreate : Follows D id (create columns) (create columns) s) :
    Follows D id (stage columns create) (stage columns create) s := by
  unfold stage
  split
  · exact follows_pure PUnit.unit
  · exact hcreate

theorem follows_wrapStage (settings : Settings) (q : Query) :
    Follows D id (wrapStage settings q) (wrapStage settings q) s := by
  refine (follows_stage q.groupBy (follows_createSorting settings _)).bind fun _ t => ?_
  refine (follows_stage q.orderBy (follows_createSorting settings _)).bind fun _ u => ?_
  refine (follows_stage q.projection (follows_createProject _)).bind fun _ v => ?_
  split
  · exact follows_createSorting settings _
  · exact follows_pure PUnit.unit

theorem follows_theRoot : Follows D D.plan theRoot theRoot s := by
  refine follows_get_bind ?_
  dsimp only [Disguise.state]
  cases s.root with
  | none => exact follows_fail rfl
  | some p => exact follows_pure p

/-! ### Disguises of algorithms alone -/

section Columns

variable (hcolumn : ∀ a, D.column a = a)

include hcolumn

theorem failure_eq_self (e : Failure) : D.failure e = e := by
  rw [Disguise.failure, show D.column = id from funext hcolumn, Failure.mapColumns_id]

theorem map_mapColumns_eq_self (cs : List Condition) :
    cs.map (Condition.mapColumns D.column) = cs := by
  rw [show D.column = id from funext hcolumn, Condition.mapColumns_id, List.map_id]

theorem follows_ofExcept (result : Except Failure α) :
    Follows D id (ofExcept result) (ofExcept result) s := by
  cases result with
  | error e => exact follows_fail (failure_eq_self hcolumn e)
  | ok a => exact follows_pure a

theorem follows_qualify (a : Attribute) : Follows D id (qualify a) (qualify a) s := by
  have howner := follows_ownerOf (D := D) (s := s) a
  rw [hcolumn] at howner
  unfold qualify
  split
  · exact follows_pure a
  · refine howner.bind fun table t => (follows_topOf table).bind fun top u => ?_
    rw [Disguise.schema_plan]
    split
    · exact follows_pure _
    · exact follows_fail (failure_eq_self hcolumn _)

theorem follows_qualifyOperand (o : Operand) :
    Follows D id (qualifyOperand o) (qualifyOperand o) s := by
  cases o with
  | column a => exact (follows_qualify hcolumn a).bind fun b t => follows_pure _
  | integer | real | text => exact follows_pure _

theorem follows_qualifyCondition (c : Condition) :
    Follows D id (qualifyCondition c) (qualifyCondition c) s :=
  (follows_qualify hcolumn c.lhs).bind fun _ _ =>
    (follows_qualifyOperand hcolumn c.rhs).bind fun _ _ => follows_pure _

theorem follows_qualifyAll (cs : List Condition) :
    Follows D id (qualifyAll cs) (qualifyAll cs) s := by
  induction cs generalizing s with
  | nil => exact follows_pure _
  | cons c cs ih =>
    exact (follows_qualifyCondition hcolumn c).bind fun c' t => ih.bind fun others u =>
      follows_pure _

theorem follows_createScans (catalog : Catalog) (tables : List String) :
    Follows D id (createScans catalog tables) (createScans catalog tables) s := by
  induction tables generalizing s with
  | nil => exact follows_pure PUnit.unit
  | cons table tables ih =>
    refine (follows_ofExcept hcolumn _).bind fun schema t => ?_
    refine (follows_record rfl).bind fun _ u => ?_
    exact (follows_addScan table (.scan table schema)).bind fun _ v =>
      (follows_setRoot (.scan table schema)).bind fun _ w => ih

theorem follows_scanStage (catalog : Catalog) (tables : List String) :
    Follows D id (scanStage catalog tables) (scanStage catalog tables) s := by
  have hreset : Follows D id reset reset s := follows_modify rfl
  exact hreset.bind fun _ t => follows_createScans hcolumn catalog tables

variable {P : BuildState → Prop} (hD : D.Takes P)

include hD

theorem follows_conditionStage (hs : P s) (q : Query) :
    Follows D id (conditionStage q) (conditionStage q) s := by
  refine (follows_qualifyAll hcolumn _).bind_of_run fun cs t ht => ?_
  refine follows_conditions hD (hD.qualify hs ht) q.tables ?_ ?_
  · rw [map_mapColumns_eq_self hcolumn]
    rfl
  · rw [map_mapColumns_eq_self hcolumn]
    rfl

/-- A query whose tables are scanned is planned in disguise. -/
theorem follows_planScanned (hs : P s) (settings : Settings) (q : Query) :
    Follows D D.plan (planScanned settings q) (planScanned settings q) s := by
  refine (follows_record rfl).bind_of_run fun _ t ht => ?_
  refine (follows_conditionStage hcolumn hD (hD.record hs ht) q).bind fun _ u => ?_
  exact (follows_wrapStage settings q).bind fun _ v => follows_theRoot

end Columns

end BuildM

end QueryPlan
