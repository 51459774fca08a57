import Mathlib
import QueryPlan.Proofs.Build.Qualification
import QueryPlan.Proofs.Join.Edges

/-!
# The stages of a construction

After the scans, a construction takes one condition after the other into the plan and then one edge
of the join graph after the other. What a single one of these steps can do to the frontier is said
here once: a condition of one table raises the operator over it, and an edge either raises the
operator that its tables share or merges the operators over them. All that is known about built
plans is an invariant of these steps.

## Main definitions

* `BuildState.Selects` : a condition of one table is taken into the plan.
* `BuildState.TakesPair`, `BuildState.TakesEdge` : the conditions of two tables are taken into it.
* `BuildState.JoinsTaken`, `BuildState.ConditionsTaken` : all conditions are taken into it.

## Main results

* `BuildState.Frontier.of_selects`, `BuildState.Frontier.of_takesEdge` : every step keeps the
  invariant of the frontier.
* `BuildM.planScanned_meets` : the stages after the scans take the conditions into the plan, and
  pass only through states with the invariant.
* `BuildM.build_returns` : how a plan that is returned was built.
-/

namespace QueryPlan

namespace BuildState

/-- A selection is put above the operator over a table, the one that the left side of its condition
names if it names one. The selection is the root afterwards. -/
inductive Selects (c : Condition) (s u : BuildState) : Prop
  | above {table r : String} {p : Plan} (howner : ∀ t, c.lhs.owner? = some t → table = t)
      (hr : s.groups.LedBy table r) (hp : s.tops.get? r = some p)
      (hu : s.Raises r (.select p c) u) (hroot : u.root = some (.select p c))

/-- The conditions of two tables become a chain of selections above the operator that the tables
share, or the conditions of a join of the two operators over them. -/
inductive TakesPair (left right : String) (cs : List Condition) (s u : BuildState) : Prop
  | chain {r : String} {p : Plan} (hl : s.groups.LedBy left r) (hr : s.groups.LedBy right r)
      (hp : s.tops.get? r = some p) (hu : s.Raises r (cs.foldl Plan.select p) u)
  | join {l r : String} {pl pr : Plan} (hl : s.groups.LedBy left l) (hr : s.groups.LedBy right r)
      (hne : l ≠ r) (hpl : s.tops.get? l = some pl) (hpr : s.tops.get? r = some pr)
      (algorithm : JoinAlgorithm)
      (hu : s.Merges l r (.join pl pr cs algorithm.code s.joinCount) u)
      (hcount : u.joinCount = s.joinCount + 1)

/-- An edge of a join graph is taken into the plan. -/
def TakesEdge (graph : JoinGraph) (edge : String) (s u : BuildState) : Prop :=
  ∃ left right, Pair.split? edge = some (left, right) ∧
    s.TakesPair left right (graph.conditionsOf edge) u

/-- The conditions that join two tables are taken into the plan, edge after edge. If there are any,
the root is the operator over the tables of the last edge afterwards. -/
inductive JoinsTaken (cs : List Condition) (s u : BuildState) : Prop
  | without (hcs : cs = []) (hu : u = s)
  | edges {graph : JoinGraph} {t : BuildState} {edge left right : String} {p : Plan}
      (hcs : cs ≠ []) (hgraph : JoinGraph.ofConditions cs = .ok graph)
      (hsteps : Steps (TakesEdge graph) graph.edges s t)
      (hlast : graph.edges.getLast? = some edge) (hsplit : Pair.split? edge = some (left, right))
      (htop : t.Top left p) (hu : t.SameFrontier u) (hroot : u.root = some p)

/-- All conditions are taken into the plan, those of one table before those that join two. -/
def ConditionsTaken (cs : List Condition) (s u : BuildState) : Prop :=
  ∃ t, Steps Selects (Condition.classify cs).1 s t ∧ t.JoinsTaken (Condition.classify cs).2 u

variable {catalog : Catalog} {tables : List String} {s t u : BuildState} {c : Condition}
  {cs : List Condition} {graph : JoinGraph} {edge left right : String} {p : Plan}

/-- Taking a pair into the plan after a step that keeps the frontier is taking it before. -/
theorem SameFrontier.takesPair (hst : s.SameFrontier t) (htu : t.TakesPair left right cs u) :
    s.TakesPair left right cs u := by
  cases htu with
  | chain hl hr hp hu =>
    exact .chain ((hst.groups.ledBy_iff _ _).1 hl) ((hst.groups.ledBy_iff _ _).1 hr)
      (hst.tops ▸ hp) (hst.raises hu)
  | join hl hr hne hpl hpr algorithm hu hcount =>
    rw [hst.joinCount] at hu hcount
    exact .join ((hst.groups.ledBy_iff _ _).1 hl) ((hst.groups.ledBy_iff _ _).1 hr) hne
      (hst.tops ▸ hpl) (hst.tops ▸ hpr) algorithm (hst.merges hu) hcount

/-! ### Every step keeps the invariant -/

theorem Frontier.of_selects (hs : s.Frontier catalog tables) (hsu : s.Selects c u) :
    u.Frontier catalog tables := by
  obtain ⟨-, -, hp, hu, -⟩ := hsu
  exact hs.of_raises hu hp ((hs.bare hp).select c) (Plan.scannedTables_select _ _)

theorem Frontier.of_takesPair (hs : s.Frontier catalog tables)
    (hsu : s.TakesPair left right cs u) : u.Frontier catalog tables := by
  cases hsu with
  | chain _ _ hp hu =>
    exact hs.of_raises hu hp ((hs.bare hp).foldl_select cs) (Plan.scannedTables_foldl_select _ _)
  | join _ _ hne hpl hpr _ hu _ =>
    exact hs.of_merges hu hpl hpr hne ⟨hs.bare hpl, hs.bare hpr⟩ (Plan.scannedTables_join _ _ _ _ _)

theorem Frontier.of_takesEdge (hs : s.Frontier catalog tables) (hsu : s.TakesEdge graph edge u) :
    u.Frontier catalog tables := by
  obtain ⟨left, right, -, hpair⟩ := hsu
  exact hs.of_takesPair hpair

theorem Frontier.of_steps_selects (hs : s.Frontier catalog tables) (hsu : Steps Selects cs s u) :
    u.Frontier catalog tables :=
  hsu.induction (P := fun _ v => v.Frontier catalog tables) hs fun _ _ _ _ _ ht htv =>
    ht.of_selects htv

theorem Frontier.of_steps_takesEdge {edges : List String} (hs : s.Frontier catalog tables)
    (hsu : Steps (TakesEdge graph) edges s u) : u.Frontier catalog tables :=
  hsu.induction (P := fun _ v => v.Frontier catalog tables) hs fun _ _ _ _ _ ht htv =>
    ht.of_takesEdge htv

theorem Frontier.of_joinsTaken (hs : s.Frontier catalog tables) (hsu : s.JoinsTaken cs u) :
    u.Frontier catalog tables := by
  cases hsu with
  | without _ hu => exact hu ▸ hs
  | edges _ _ hsteps _ _ _ hu _ => exact (hs.of_steps_takesEdge hsteps).of_same hu

theorem Frontier.of_conditionsTaken (hs : s.Frontier catalog tables)
    (hsu : s.ConditionsTaken cs u) : u.Frontier catalog tables := by
  obtain ⟨t, hselects, hjoins⟩ := hsu
  exact (hs.of_steps_selects hselects).of_joinsTaken hjoins

/-- The conditions of an edge that is taken into the plan compare a column of the smaller table with
one of the larger table. -/
theorem Frontier.owners_of_takesPair (hs : s.Frontier catalog tables)
    (hnames : ∀ t ∈ tables, '|' ∉ t.toList) (hgraph : graph.Holds cs)
    (hsplit : Pair.split? edge = some (left, right))
    (hsu : s.TakesPair left right (graph.conditionsOf edge) u) :
    ∀ c ∈ graph.conditionsOf edge,
      c.lhs.owner? = some left ∧ ∃ x, c.rhs = .column x ∧ x.owner? = some right := by
  have hmem : left ∈ tables ∧ right ∈ tables := by
    cases hsu with
    | chain hl hr => exact ⟨hs.mem_of_ledBy hl, hs.mem_of_ledBy hr⟩
    | join hl hr => exact ⟨hs.mem_of_ledBy hl, hs.mem_of_ledBy hr⟩
  intro c hc
  rw [hgraph.conditionsOf] at hc
  obtain ⟨d, hd, rfl⟩ := List.mem_map.1 hc
  have hedge : d.edge? = some edge := by simpa using (List.mem_filter.1 hd).2
  exact Condition.oriented_owners (Condition.pair?_of_edge? hedge hsplit (hnames left hmem.1)
    (hnames right hmem.2))

/-- While selections are taken into the plan, its root is an operator at the top whenever it is
looked at. -/
theorem root_top_of_selects (hsu : Steps Selects cs s u)
    (hroot : ∀ {p}, s.root = some p → ∃ r, s.tops.get? r = some p) (hp : u.root = some p) :
    ∃ r, u.tops.get? r = some p := by
  refine hsu.induction (P := fun _ v => ∀ q, v.root = some q → ∃ r, v.tops.get? r = some q)
    (fun q hq => hroot hq) ?_ p hp
  rintro _ c v w _ _ ⟨-, -, -, hw, hr⟩ q hq
  obtain rfl := Option.some.inj (hr.symm.trans hq)
  exact ⟨_, hw.get?_iff.2 (.inl ⟨rfl, rfl⟩)⟩

/-- While conditions are taken into the plan, its root is an operator at the top whenever it is
looked at. -/
theorem ConditionsTaken.root_top (hsu : s.ConditionsTaken cs u)
    (hroot : ∀ {p}, s.root = some p → ∃ r, s.tops.get? r = some p) (hp : u.root = some p) :
    ∃ r, u.tops.get? r = some p := by
  obtain ⟨t, hselects, hjoins⟩ := hsu
  cases hjoins with
  | without _ hu =>
    subst hu
    exact root_top_of_selects hselects hroot hp
  | edges _ _ _ _ _ htop hu hup =>
    obtain rfl := Option.some.inj (hup.symm.trans hp)
    obtain ⟨r, -, hr⟩ := htop
    exact ⟨r, by rw [hu.tops, hr]⟩

end BuildState

/-! ### The stages -/

namespace BuildM

open Program BuildState

variable {catalog : Catalog} {tables : List String} {s : BuildState}

theorem createSelect_meets (hs : s.Frontier catalog tables) (c : Condition) :
    (createSelect c).Meets (Frontier catalog tables) s fun _ u => s.Selects c u := by
  refine (ownerOf_meets hs c.lhs).bind fun table s₁ ⟨h₁, howner, _⟩ => ?_
  have hs₁ := hs.of_same h₁.toSameFrontier
  refine (topOf_meets hs₁ table).bind fun p s₂ ⟨htop, h₂⟩ => ?_
  have hs₂ := hs₁.of_same h₂.toSameFrontier
  have h₁₂ := h₁.trans h₂
  obtain ⟨r, hr, hp⟩ := h₁.toSameFrontier.top_iff.1 htop
  have hp₂ : s₂.tops.get? r = some p := h₁₂.tops ▸ hp
  refine (setTop_meets hs₂ ((h₁₂.groups.ledBy_iff table r).2 hr) hp₂ (q := .select p c)
    ((hs₂.bare hp₂).select c) (Plan.scannedTables_select p c)).bind fun _ s₃ h₃ => ?_
  have hs₃ := hs₂.of_raises h₃ hp₂ ((hs₂.bare hp₂).select c) (Plan.scannedTables_select p c)
  refine (setRoot_meets hs₃ (.select p c)).mono fun _ u ⟨hu, hroot⟩ => ?_
  have hraises := h₁₂.raises h₃
  exact .above howner hr hp ⟨hraises.groups.trans hu.groups, hu.tops.trans hraises.tops,
    hu.joinCount.trans hraises.joinCount⟩ hroot

theorem createSelects_meets (hs : s.Frontier catalog tables) (cs : List Condition) :
    (createSelects cs).Meets (Frontier catalog tables) s fun _ u => Steps Selects cs s u := by
  induction cs generalizing s with
  | nil => exact .pure .nil
  | cons c cs ih =>
    refine (createSelect_meets hs c).bind fun _ t ht => ?_
    exact (ih (hs.of_selects ht)).mono fun _ u hu => .cons ht hu

theorem drawAlgorithm_meets (hs : s.Frontier catalog tables) :
    drawAlgorithm.Meets (Frontier catalog tables) s fun _ u => s.Unchanged u := by
  have hsame (draws : Draws) : s.Unchanged { s with draws := draws } := ⟨⟨.refl _, rfl, rfl⟩, rfl⟩
  refine .get_bind (.modify_bind (hs.of_same (hsame _).toSameFrontier) ?_)
  split
  · exact .pure (hsame _)
  · exact .fail _

theorem createJoin_meets (hs : s.Frontier catalog tables) {left right l r : String}
    (hl : s.groups.LedBy left l) (hr : s.groups.LedBy right r) (hne : l ≠ r)
    (cs : List Condition) :
    (createJoin left right cs).Meets (Frontier catalog tables) s fun _ u =>
      s.TakesPair left right cs u := by
  refine (topOf_meets hs left).bind fun pl s₁ ⟨htopl, h₁⟩ => ?_
  have hs₁ := hs.of_same h₁.toSameFrontier
  refine (topOf_meets hs₁ right).bind fun pr s₂ ⟨htopr, h₂⟩ => ?_
  have hs₂ := hs₁.of_same h₂.toSameFrontier
  refine (drawAlgorithm_meets hs₂).bind fun algorithm s₃ h₃ => .get_bind ?_
  have hs₃ := hs₂.of_same h₃.toSameFrontier
  have h := h₁.trans (h₂.trans h₃)
  obtain ⟨l', hl', hpl⟩ := htopl
  obtain ⟨r', hr', hpr⟩ := h₁.toSameFrontier.top_iff.1 htopr
  obtain rfl := hl.unique hl'
  obtain rfl := hr.unique hr'
  have hpl₃ : s₃.tops.get? l = some pl := h.tops ▸ hpl
  have hpr₃ : s₃.tops.get? r = some pr := h.tops ▸ hpr
  refine (merge_meets hs₃ ((h.groups.ledBy_iff left l).2 hl) ((h.groups.ledBy_iff right r).2 hr)
    hpl₃ hpr₃ hne (q := .join pl pr cs algorithm.code s₃.joinCount)
    ⟨hs₃.bare hpl₃, hs₃.bare hpr₃⟩ (Plan.scannedTables_join _ _ _ _ _)).bind
    fun _ s₄ ⟨h₄, hcount⟩ => ?_
  have hs₄ := hs₃.of_merges h₄ hpl₃ hpr₃ hne ⟨hs₃.bare hpl₃, hs₃.bare hpr₃⟩
    (Plan.scannedTables_join _ _ _ _ _)
  have hs₅ : Frontier catalog tables { s₄ with joinCount := s₄.joinCount + 1 } :=
    ⟨hs₄.rooted, hs₄.nodup_tables, hs₄.mem_tables_iff, hs₄.nodup_keys, hs₄.mem_keys_iff, hs₄.bare,
      hs₄.nodup_scannedTables, hs₄.mem_scannedTables_iff⟩
  rw [h.joinCount] at h₄
  refine .modify_bind hs₅ (.modify ?_ ?_)
  · exact hs₅.of_same ⟨.refl _, rfl, rfl⟩
  · exact .join hl hr hne hpl hpr algorithm
      ⟨(h.merges h₄).groups, (h.merges h₄).tops⟩ (by rw [← h.joinCount, ← hcount])

theorem createChain_meets (hs : s.Frontier catalog tables) {left right r : String}
    (hl : s.groups.LedBy left r) (hr : s.groups.LedBy right r) (cs : List Condition) :
    (createChain left right cs).Meets (Frontier catalog tables) s fun _ u =>
      s.TakesPair left right cs u := by
  refine (topOf_meets hs left).bind fun p s₁ ⟨htop, h₁⟩ => ?_
  have hs₁ := hs.of_same h₁.toSameFrontier
  obtain ⟨r', hr', hp⟩ := htop
  obtain rfl := hl.unique hr'
  have hp₁ : s₁.tops.get? r = some p := h₁.tops ▸ hp
  have hbare := (hs.bare hp).foldl_select cs
  have hscan := Plan.scannedTables_foldl_select cs p
  refine (setTop_meets hs₁ ((h₁.groups.ledBy_iff left r).2 hl) hp₁ hbare hscan).bind
    fun _ s₂ h₂ => ?_
  refine (record_meets (hs₁.of_raises h₂ hp₁ hbare hscan) _).mono fun _ u hu => ?_
  have hraises := h₁.raises h₂
  exact .chain hl hr hp ⟨hraises.groups.trans hu.groups, hu.tops.trans hraises.tops,
    hu.joinCount.trans hraises.joinCount⟩

theorem createEdge_meets (hs : s.Frontier catalog tables) (left right : String)
    (cs : List Condition) :
    (createEdge left right cs).Meets (Frontier catalog tables) s fun _ u =>
      s.TakesPair left right cs u := by
  refine (leaderOf_meets hs left).bind fun l s₁ ⟨hl, h₁⟩ => ?_
  have hs₁ := hs.of_same h₁.toSameFrontier
  refine (leaderOf_meets hs₁ right).bind fun r s₂ ⟨hr, h₂⟩ => ?_
  have hs₂ := hs₁.of_same h₂.toSameFrontier
  have h := h₁.trans h₂
  have hr := (h₁.groups.ledBy_iff right r).1 hr
  have hl₂ := (h.groups.ledBy_iff left l).2 hl
  have hr₂ := (h.groups.ledBy_iff right r).2 hr
  split
  · rename_i heq
    subst heq
    exact (createChain_meets hs₂ hl₂ hr₂ cs).mono fun _ u hu => h.toSameFrontier.takesPair hu
  · rename_i hne
    exact (createJoin_meets hs₂ hl₂ hr₂ hne cs).mono fun _ u hu => h.toSameFrontier.takesPair hu

/-- The edges of a list are taken one after the other; the result is the left table of the last
one. -/
theorem createEdges_meets (graph : JoinGraph) (edges : List String) {last : Option String}
    (hs : s.Frontier catalog tables) :
    (createEdges graph edges last).Meets (Frontier catalog tables) s fun result u =>
      Steps (TakesEdge graph) edges s u ∧
        (edges = [] ∧ result = last ∨ ∃ edge left right, edges.getLast? = some edge ∧
          Pair.split? edge = some (left, right) ∧ result = some left) := by
  induction edges generalizing s last with
  | nil => exact .pure ⟨.nil, .inl ⟨rfl, rfl⟩⟩
  | cons edge edges ih =>
    unfold createEdges
    split
    · exact .fail _
    · rename_i left right hsplit
      refine (createEdge_meets hs left right _).bind fun _ t ht => ?_
      have hedge : s.TakesEdge graph edge t := ⟨left, right, hsplit, ht⟩
      refine (ih (hs.of_takesPair ht)).mono fun result u ⟨hu, hresult⟩ => ⟨.cons hedge hu, .inr ?_⟩
      obtain ⟨rfl, rfl⟩ | ⟨edge', l, r, hlast, hsplit', rfl⟩ := hresult
      · exact ⟨edge, left, right, rfl, hsplit, rfl⟩
      · exact ⟨edge', l, r, by rw [List.getLast?_cons, hlast]; rfl, hsplit', rfl⟩

theorem checkConnected_meets (hs : s.Frontier catalog tables) (ts : List String)
    (graph : JoinGraph) :
    (checkConnected ts graph).Meets (Frontier catalog tables) s fun _ u => s.Unchanged u := by
  refine .get_bind ?_
  dsimp only
  split
  · exact record_meets hs _
  · exact .pure (.refl s)

/-- A graph of conditions has an edge as soon as there is a condition. -/
theorem createJoins_meets (hs : s.Frontier catalog tables) {cs : List Condition} (hcs : cs ≠ []) :
    (createJoins cs).Meets (Frontier catalog tables) s fun _ u => s.JoinsTaken cs u := by
  refine .bind (Q := fun graph t => JoinGraph.ofConditions cs = .ok graph ∧ t = s)
    (.ofExcept fun graph hgraph => ⟨hgraph, rfl⟩) ?_
  rintro graph _ ⟨hgraph, rfl⟩
  refine (createEdges_meets graph graph.edges hs).bind ?_
  rintro result t ⟨hsteps, hresult⟩
  have ht := hs.of_steps_takesEdge hsteps
  obtain ⟨hnil, -⟩ | ⟨edge, left, right, hlast, hsplit, rfl⟩ := hresult
  · have hholds := JoinGraph.holds_ofConditions hgraph
    obtain ⟨c, hc⟩ := List.exists_mem_of_ne_nil cs hcs
    obtain ⟨p, hp⟩ := hholds.pair c hc
    have hce : c.edge? = some (Pair.key p.1 p.2) := by rw [Condition.edge?, hp]; rfl
    have hedge := (hholds.mem_edges_iff _).2 ⟨c, hc, hce⟩
    rw [hnil] at hedge
    cases hedge
  · refine (topOf_meets ht left).bind ?_
    rintro p t₁ ⟨htop, h₁⟩
    refine (setRoot_meets (ht.of_same h₁.toSameFrontier) p).bind ?_
    rintro _ t₂ ⟨h₂, hroot⟩
    exact .pure (.edges hcs hgraph hsteps hlast hsplit htop (h₁.toSameFrontier.trans h₂) hroot)

theorem joinStage_meets (hs : s.Frontier catalog tables) (ts : List String)
    (cs : List Condition) :
    (joinStage ts cs).Meets (Frontier catalog tables) s fun _ u => s.JoinsTaken cs u := by
  unfold joinStage
  split
  · rename_i hcs
    exact .pure (.without (List.isEmpty_iff.1 hcs) rfl)
  · rename_i hcs
    rw [List.isEmpty_iff] at hcs
    refine (createJoins_meets hs hcs).bind fun graph t ht => ?_
    refine (checkConnected_meets (hs.of_joinsTaken ht) ts graph).mono fun _ u hu => ?_
    cases ht with
    | without hnil _ => exact absurd hnil hcs
    | edges hcs hgraph hsteps hlast hsplit htop ht hroot =>
      exact .edges hcs hgraph hsteps hlast hsplit htop (ht.trans hu.toSameFrontier)
        (hu.root.trans hroot)

/-- The conditions that are taken into the plan are those of the query, qualified. -/
theorem conditionStage_meets (hs : s.Scanned catalog tables) (q : Query) :
    (conditionStage q).Meets (Frontier catalog tables) s fun _ u =>
      ∃ t cs, s.Unchanged t ∧ t.ConditionsTaken cs u ∧ ((∀ t ∈ tables, t ≠ "") →
        cs = (q.joins ++ q.selections).map (Condition.qualifiedIn catalog tables) ∧
          ∀ c ∈ cs, c.Qualified) := by
  refine (qualifyAll_meets hs (q.joins ++ q.selections)).bind fun cs t ⟨ht, hcs⟩ => ?_
  have hs₁ := hs.of_same ht.toSameFrontier
  refine (createSelects_meets hs₁ (Condition.classify cs).1).bind fun _ t₁ h₁ => ?_
  refine (joinStage_meets (hs₁.of_steps_selects h₁) q.tables (Condition.classify cs).2).mono ?_
  exact fun _ u hu => ⟨t, cs, ht, ⟨t₁, h₁, hu⟩, hcs⟩

/-- An operator that keeps the core is put above the root. -/
theorem wrapRoot_meets (hs : s.Frontier catalog tables) {wrap : Plan → Except Failure Plan}
    (hwrap : ∀ p q, wrap p = .ok q → q.core = p.core) :
    (wrapRoot wrap).Meets (Frontier catalog tables) s fun _ u =>
      s.SameFrontier u ∧ u.root.map Plan.core = s.root.map Plan.core := by
  refine .get_bind ?_
  split
  · exact .fail _
  · rename_i p hp
    refine .bind (Q := fun q t => wrap p = .ok q ∧ t = s) (.ofExcept fun q hq => ⟨hq, rfl⟩) ?_
    rintro q _ ⟨hq, rfl⟩
    refine (setRoot_meets hs q).mono fun _ u ⟨hu, hroot⟩ => ⟨hu, ?_⟩
    rw [hroot, hp, Option.map_some, Option.map_some, hwrap p q hq]

theorem stage_meets (columns : List Attribute)
    {create : List Attribute → BuildM Unit}
    (hcreate : (create columns).Meets (Frontier catalog tables) s fun _ u =>
      s.SameFrontier u ∧ u.root.map Plan.core = s.root.map Plan.core) :
    (stage columns create).Meets (Frontier catalog tables) s fun _ u =>
      s.SameFrontier u ∧ u.root.map Plan.core = s.root.map Plan.core := by
  unfold stage
  split
  · exact .pure ⟨.refl s, rfl⟩
  · exact hcreate

theorem createSorting_meets (hs : s.Frontier catalog tables) (settings : Settings)
    (task : SortTask) :
    (createSorting settings task).Meets (Frontier catalog tables) s fun _ u =>
      s.SameFrontier u ∧ u.root.map Plan.core = s.root.map Plan.core :=
  wrapRoot_meets hs fun p q hq => by
    obtain rfl := Except.ok.inj hq
    rfl

theorem createProject_meets (hs : s.Frontier catalog tables) (columns : List Attribute) :
    (createProject columns).Meets (Frontier catalog tables) s fun _ u =>
      s.SameFrontier u ∧ u.root.map Plan.core = s.root.map Plan.core :=
  wrapRoot_meets hs fun p q hq => by
    split at hq
    · rename_i r hr
      obtain rfl := Except.ok.inj hq
      obtain ⟨-, -, rfl⟩ := map_eq_ok_iff.1 hr
      rfl
    · cases hq

theorem wrapStage_meets (hs : s.Frontier catalog tables) (settings : Settings) (q : Query) :
    (wrapStage settings q).Meets (Frontier catalog tables) s fun _ u =>
      s.SameFrontier u ∧ u.root.map Plan.core = s.root.map Plan.core := by
  refine (stage_meets q.groupBy (createSorting_meets hs settings _)).bind
    fun _ s₁ ⟨h₁, hroot₁⟩ => ?_
  have hs₁ := hs.of_same h₁
  refine (stage_meets q.orderBy (createSorting_meets hs₁ settings _)).bind
    fun _ s₂ ⟨h₂, hroot₂⟩ => ?_
  have hs₂ := hs₁.of_same h₂
  refine (stage_meets q.projection (createProject_meets hs₂ _)).bind
    fun _ s₃ ⟨h₃, hroot₃⟩ => ?_
  have hs₃ := hs₂.of_same h₃
  have h := h₁.trans (h₂.trans h₃)
  have hroot := hroot₃.trans (hroot₂.trans hroot₁)
  split
  · exact (createSorting_meets hs₃ settings _).mono fun _ u ⟨hu, hroot'⟩ =>
      ⟨h.trans hu, hroot'.trans hroot⟩
  · exact .pure ⟨h, hroot⟩

/-- The plan of a query whose tables are scanned is, below the operators that group, order and
project it, the operator that is the root when all conditions are taken into it. -/
theorem planScanned_meets (hs : s.Scanned catalog tables) (settings : Settings) (q : Query) :
    (planScanned settings q).Meets (Frontier catalog tables) s fun p u =>
      ∃ t cs v, s.Unchanged t ∧ t.ConditionsTaken cs v ∧ v.root = some p.core ∧ v.SameFrontier u ∧
        ((∀ t ∈ tables, t ≠ "") →
          cs = (q.joins ++ q.selections).map (Condition.qualifiedIn catalog tables) ∧
            ∀ c ∈ cs, c.Qualified) := by
  refine (record_meets hs.toFrontier _).bind fun _ s₁ h₁ => ?_
  have hs₁ := hs.of_unchanged h₁
  refine (conditionStage_meets hs₁ q).bind fun _ v ⟨t, cs, ht, htaken, hcs⟩ => ?_
  have hst := hs₁.of_unchanged ht
  have hv := hst.of_conditionsTaken htaken
  refine (wrapStage_meets hv settings q).bind fun _ w ⟨hw, hroot⟩ => .get_bind ?_
  split
  · rename_i p hp
    refine .pure ⟨t, cs, v, h₁.trans ht, htaken, ?_, hw, hcs⟩
    rw [hp, Option.map_some] at hroot
    obtain ⟨top, htop, hcore⟩ := Option.map_eq_some_iff.1 hroot.symm
    obtain ⟨r, hr⟩ := htaken.root_top hst.root htop
    rw [htop, ← hcore, (hv.bare hr).core_eq]
  · exact .fail _

/-- The stages that a construction went through when a plan is returned. -/
theorem stages_of_build {settings : Settings} {q : Query} {p : Plan} {u : BuildState}
    (hrun : (build catalog settings q).run s = (.ok p, u)) :
    ∃ t v w : BuildState, t.Scanned catalog q.tables ∧ (conditionStage q).run t = (.ok ⟨⟩, v) ∧
      (wrapStage settings q).run v = (.ok ⟨⟩, w) ∧ theRoot.run w = (.ok p, u) := by
  unfold build at hrun
  split at hrun
  · cases hrun
  obtain ⟨⟨⟩, t, hscan, hrun⟩ := run_bind_eq_ok.1 hrun
  have ht := scanStage_returns hscan
  obtain ⟨⟨⟩, t₁, hrecord, hrun⟩ := run_bind_eq_ok.1 hrun
  obtain ⟨⟨⟩, v, hconditions, hrun⟩ := run_bind_eq_ok.1 hrun
  obtain ⟨⟨⟩, w, hwrap, hroot⟩ := run_bind_eq_ok.1 hrun
  exact ⟨t₁, v, w, ht.of_unchanged ((record_meets ht.toFrontier _).returns hrecord), hconditions,
    hwrap, hroot⟩

/-- How a plan that is returned was built. -/
theorem build_returns {settings : Settings} {q : Query} {p : Plan} {u : BuildState}
    (hrun : (build catalog settings q).run s = (.ok p, u)) :
    ∃ (t : BuildState) (cs : List Condition) (v : BuildState), t.Scanned catalog q.tables ∧
      t.ConditionsTaken cs v ∧ v.root = some p.core ∧ v.SameFrontier u ∧
      ((∀ t ∈ q.tables, t ≠ "") → cs = q.conditions catalog ∧ ∀ c ∈ cs, c.Qualified) := by
  unfold build at hrun
  split at hrun
  · cases hrun
  · obtain ⟨⟨⟩, t, hscan, hrun⟩ := run_bind_eq_ok.1 hrun
    have ht := scanStage_returns hscan
    obtain ⟨t', cs, v, htt', h⟩ := (planScanned_meets ht settings q).returns hrun
    exact ⟨t', cs, v, ht.of_unchanged htt', h⟩

end BuildM

/-! ### A plan over three tables

The conditions relate every two of the tables `A`, `B` and `C`, so the last pair is joined already
when it is taken into the plan. Two columns are named without their tables. -/

namespace Sample

open BuildM

/-- A catalog of three tables with two columns each. -/
def catalog : Catalog where
  files :=
    (((Files.put {} "A.schema.json"
      "\x7b\"attributes\": [\x7b\"name\": \"x\"\x7d, \x7b\"name\": \"w\"\x7d]\x7d".toUTF8).put
      "B.schema.json"
      "\x7b\"attributes\": [\x7b\"name\": \"x\"\x7d, \x7b\"name\": \"y\"\x7d]\x7d".toUTF8).put
      "C.schema.json"
      "\x7b\"attributes\": [\x7b\"name\": \"y\"\x7d, \x7b\"name\": \"z\"\x7d]\x7d".toUTF8)
  directory := ""

/-- A column of a table. -/
def column (table name : String) : Attribute := { table := some table, name := name }

/-- The schema of a table with two columns. -/
def schema (table first second : String) : Schema := ⟨[column table first, column table second], 8⟩

/-- A query that lists the table `A` twice. -/
def query : Query where
  tables := ["A", "B", "C", "A"]
  selections := [{ lhs := { table := none, name := "w" }, rhs := .integer 3, comparator := .less }]
  joins :=
    [{ lhs := column "B" "x", rhs := .column (column "A" "x") },
      { lhs := column "B" "y", rhs := .column (column "C" "y"), comparator := .lessEqual },
      { lhs := { table := none, name := "z" }, rhs := .column (column "A" "w"),
        comparator := .less }]
  projection := [column "A" "x"]

/-- A construction that is not begun yet. -/
def start : BuildState := { draws := Draws.cycle #[1] }

/-- The plan of the query. -/
def plan : Plan :=
  .project
    (.select
      (.join
        (.join
          (.select (.scan "A" (schema "A" "x" "w"))
            { lhs := column "A" "w", rhs := .integer 3, comparator := .less })
          (.scan "B" (schema "B" "x" "y"))
          [{ lhs := column "A" "x", rhs := .column (column "B" "x"), kind := .join }] 1 0)
        (.scan "C" (schema "C" "y" "z"))
        [{ lhs := column "B" "y", rhs := .column (column "C" "y"), comparator := .lessEqual,
           kind := .join }] 1 1)
      { lhs := column "A" "w", rhs := .column (column "C" "z"), comparator := .greater,
        kind := .join })
    [column "A" "x"]

/-- The state after the plan is built. -/
def finish : BuildState := ((build catalog default query).run start).2

theorem run_start : (build catalog default query).run start = (.ok plan, finish) :=
  Prod.ext (by decide +kernel) rfl

end Sample

end QueryPlan
