import Mathlib
import QueryPlan.Proofs.Build.Partition

/-!
# Where the conditions of a query go

Every operator at the top holds the conditions of the tables that it scans, as far as they are taken
into the plan, each as often as the query has it. What is put into an operator stays a part of it,
so the conditions of one table remain a chain of selections directly above its scan, and those of a
pair of tables remain together, in a join of the two or in a chain of selections above both.

## Main definitions

* `BuildState.Conserves` : the operators at the top hold the given conditions of their tables.
* `Plan.Places` : a plan holds conditions of two tables together.

## Main results

* `BuildM.build_places_conditions` : the conditions in a plan that is returned, and where they are.
-/

namespace QueryPlan

/-- A list without the elements of neither kind, where no element is of both kinds. -/
theorem filter_or_perm {α : Type} {l : List α} {p q : α → Bool}
    (h : ∀ x ∈ l, p x = true → q x = false) :
    (l.filter fun x => p x || q x).Perm (l.filter p ++ l.filter q) := by
  induction l with
  | nil => exact .nil
  | cons x l ih =>
    have ih := ih fun y hy => h y (List.mem_cons_of_mem x hy)
    cases hp : p x with
    | true => simpa [hp, h x List.mem_cons_self hp] using ih
    | false =>
      cases hq : q x with
      | true => simpa [hp, hq] using (ih.cons x).trans List.perm_middle.symm
      | false => simpa [hp, hq] using ih

/-- The elements of a list, collected by keys that are different from each other. -/
theorem flatMap_filter_perm {α κ : Type} [DecidableEq κ] {keys : List κ} (hkeys : keys.Nodup)
    (l : List α) (f : α → Option κ) :
    (keys.flatMap fun k => l.filter fun x => f x = some k).Perm
      (l.filter fun x => (f x).any (keys.contains ·)) := by
  induction keys with
  | nil => simp
  | cons k keys ih =>
    obtain ⟨hk, hkeys⟩ := List.nodup_cons.1 hkeys
    rw [List.flatMap_cons]
    refine ((ih hkeys).append_left _).trans (((filter_or_perm fun x _ hx => ?_).symm).trans ?_)
    · obtain hx : f x = some k := by simpa using hx
      simpa [hx] using hk
    · refine .of_eq (List.filter_congr fun x _ => ?_)
      cases f x with
      | none => rfl
      | some j => simp [Bool.decide_or]

namespace Condition

variable {c : Condition} {cs : List Condition} {a b : String}

/-- A condition whose columns all name their tables is one of a single table or joins two. -/
theorem Qualified.tables_eq_singleton_iff (hc : c.Qualified) :
    c.tables = [a] ↔ c.pair? = none ∧ c.lhs.owner? = some a := by
  obtain ⟨s, hs⟩ := hc.lhs
  unfold tables pair?
  cases hr : c.rhs.column?.bind Attribute.owner? with
  | none => simp [hs]
  | some t => by_cases hst : s = t <;> simp [hs, hst]

theorem tables_of_pair? (h : c.pair? = some (a, b)) : c.tables = [a, b] ∨ c.tables = [b, a] := by
  obtain ⟨s, t, x, hs, hx, ht, hst, hordered⟩ := pair?_eq_some h
  have htables : c.tables = [s, t] := by simp [tables, hs, hx, ht, Operand.column?, hst]
  unfold Pair.ordered at hordered
  split at hordered <;> obtain ⟨rfl, rfl⟩ := Prod.mk.inj hordered
  · exact .inr htables
  · exact .inl htables

/-- The selections over a table are the conditions of this table alone. -/
theorem filter_classify_fst (hcs : ∀ c ∈ cs, c.Qualified) :
    ((classify cs).1.filter fun c => c.lhs.owner? = some a) =
      (cs.filter fun c => c.tables = [a]).map placed := by
  rw [classify_fst, List.filter_map, List.filter_filter]
  refine congrArg _ (List.filter_congr fun c hc => ?_)
  cases hpair : c.pair? with
  | none => simp [(hcs c hc).tables_eq_singleton_iff, hpair, placed_of_pair?_eq_none]
  | some p => simp [(hcs c hc).tables_eq_singleton_iff, hpair]

/-- The conditions of a join of two tables are those of this pair. -/
theorem filter_classify_snd (a b : String) :
    ((classify cs).2.filter fun c => c.pair? = some (a, b)).map oriented =
      (cs.filter fun c => c.pair? = some (a, b)).map placed := by
  have hfilter : (cs.filter fun c => decide (c.pair? = some (a, b)) && c.relatesTables) =
      cs.filter fun c => c.pair? = some (a, b) := by
    refine List.filter_congr fun c _ => ?_
    cases hpair : c.pair? <;> simp [relatesTables_eq, hpair]
  rw [classify, List.filter_map, List.filter_filter, List.map_map]
  refine (congrArg _ hfilter).trans (List.map_congr_left fun c hc => ?_)
  have hpair : c.pair? = some (a, b) := by simpa using (List.mem_filter.1 hc).2
  exact (placed_of_pair? hpair).symm

theorem exists_mem_classify_snd (hc : c ∈ cs) (hab : c.pair? = some (a, b)) :
    ∃ d ∈ (classify cs).2, d.pair? = some (a, b) := by
  refine ⟨{ c with kind := .join }, List.mem_map.2 ⟨c, List.mem_filter.2 ⟨hc, ?_⟩, rfl⟩, hab⟩
  rw [relatesTables_eq, hab]
  rfl

end Condition

namespace Plan

variable {p q : Plan} {a b : String} {cs : List Condition}

/-- Whether the left side of a condition is a column of a table that a plan scans. -/
def ownsLeft (p : Plan) (c : Condition) : Bool := c.lhs.owner?.any (p.scannedTables.contains ·)

theorem ownsLeft_iff {c : Condition} {t : String} (ht : c.lhs.owner? = some t) :
    p.ownsLeft c = true ↔ t ∈ p.scannedTables := by
  simp [ownsLeft, ht]

/-- More conditions of a table that a plan does not scan are none of its own. -/
theorem filter_ownsLeft_append_of_notMem {taken : List Condition} {t : String}
    (hcs : ∀ c ∈ cs, c.lhs.owner? = some t) (ht : t ∉ p.scannedTables) :
    (taken ++ cs).filter p.ownsLeft = taken.filter p.ownsLeft := by
  have hnil : cs.filter p.ownsLeft = [] :=
    List.filter_eq_nil_iff.2 fun c hc => by rwa [ownsLeft_iff (hcs c hc)]
  rw [List.filter_append, hnil, List.append_nil]

theorem filter_ownsLeft_append_of_mem {taken : List Condition} {t : String}
    (hcs : ∀ c ∈ cs, c.lhs.owner? = some t) (ht : t ∈ p.scannedTables) :
    (taken ++ cs).filter p.ownsLeft = taken.filter p.ownsLeft ++ cs := by
  have hself : cs.filter p.ownsLeft = cs :=
    List.filter_eq_self.2 fun c hc => by rwa [ownsLeft_iff (hcs c hc)]
  rw [List.filter_append, hself]

/-- The conditions of two tables stand together in a plan: as those of a join with one table on
either side, or as a chain of selections above both. -/
inductive Places (p : Plan) (a b : String) (cs : List Condition) : Prop
  | join {left right : Plan} {code place : ℤ} (hpart : (join left right cs code place).IsPart p)
      (ha : a ∈ left.scannedTables) (hb : b ∈ right.scannedTables)
  | chain {base : Plan} (hpart : (cs.foldl select base).IsPart p) (ha : a ∈ base.scannedTables)
      (hb : b ∈ base.scannedTables)

theorem Places.of_isPart (hp : p.Places a b cs) (hpq : p.IsPart q) : q.Places a b cs := by
  cases hp with
  | join hpart ha hb => exact .join (hpart.trans hpq) ha hb
  | chain hpart ha hb => exact .chain (hpart.trans hpq) ha hb

theorem Places.mem_scannedTables (hp : p.Places a b cs) :
    a ∈ p.scannedTables ∧ b ∈ p.scannedTables := by
  cases hp with
  | join hpart ha hb =>
    have hsub := hpart.scannedTables_subset
    rw [scannedTables_join] at hsub
    exact ⟨hsub (List.mem_append_left _ ha), hsub (List.mem_append_right _ hb)⟩
  | chain hpart ha hb =>
    have hsub := hpart.scannedTables_subset
    rw [scannedTables_foldl_select] at hsub
    exact ⟨hsub ha, hsub hb⟩

end Plan

namespace BuildState

variable {catalog : Catalog} {tables : List String} {s t u : BuildState} {c : Condition}
  {cs taken : List Condition} {graph : JoinGraph} {edge left right table l r : String}
  {p q pl pr : Plan}

/-- Every operator at the top holds those of the given conditions whose left side is a column of a
table that it scans. -/
def Conserves (taken : List Condition) (s : BuildState) : Prop :=
  ∀ r p, s.tops.get? r = some p → p.conditions.Perm (taken.filter p.ownsLeft)

/-- Every operator at the top remains a part of one. -/
def Grows (s u : BuildState) : Prop :=
  ∀ r p, s.tops.get? r = some p → ∃ r' q, u.tops.get? r' = some q ∧ p.IsPart q

theorem Grows.refl (s : BuildState) : s.Grows s := fun r p hp => ⟨r, p, hp, .refl p⟩

theorem Grows.trans (hst : s.Grows t) (htu : t.Grows u) : s.Grows u := by
  intro r p hp
  obtain ⟨r', q, hq, hpq⟩ := hst r p hp
  obtain ⟨r'', q', hq', hqq'⟩ := htu r' q hq
  exact ⟨r'', q', hq', hpq.trans hqq'⟩

/-! ### One step -/

/-- Conditions of a table are put above the operator over it. -/
theorem Conserves.of_raises (hs : s.Frontier catalog tables) (htaken : s.Conserves taken)
    (hr : s.groups.LedBy table r) (hp : s.tops.get? r = some p)
    (hcs : ∀ c ∈ cs, c.lhs.owner? = some table)
    (hu : s.Raises r (cs.foldl Plan.select p) u) : u.Conserves (taken ++ cs) := by
  intro j k hk
  obtain ⟨rfl, rfl⟩ | ⟨hj, hk⟩ := hu.get?_iff.1 hk
  · have hmem : table ∈ (cs.foldl Plan.select p).scannedTables := by
      rw [Plan.scannedTables_foldl_select]
      exact (hs.mem_scannedTables_iff hp table).2 hr
    have howns : (cs.foldl Plan.select p).ownsLeft = p.ownsLeft := by
      funext c
      rw [Plan.ownsLeft, Plan.scannedTables_foldl_select]
      rfl
    rw [Plan.filter_ownsLeft_append_of_mem hcs hmem, Plan.conditions_foldl_select, howns]
    exact (List.reverse_perm cs).append (htaken _ _ hp) |>.trans List.perm_append_comm
  · rw [Plan.filter_ownsLeft_append_of_notMem hcs fun hmem => hj ?_]
    · exact htaken _ _ hk
    · exact ((hs.mem_scannedTables_iff hk table).1 hmem).unique hr

/-- Two operators are joined on conditions of a table that one of them scans. -/
theorem Conserves.of_merges (hs : s.Frontier catalog tables) (htaken : s.Conserves taken)
    (hl : s.groups.LedBy table l) (hpl : s.tops.get? l = some pl) (hpr : s.tops.get? r = some pr)
    (hne : l ≠ r) (hcs : ∀ c ∈ cs, c.lhs.owner? = some table) {code place : ℤ}
    (hu : s.Merges l r (.join pl pr cs code place) u) : u.Conserves (taken ++ cs) := by
  intro j k hk
  obtain ⟨rfl, rfl⟩ | ⟨hj, -, hk⟩ := hu.get?_iff.1 hk
  · have hmem : table ∈ (Plan.join pl pr cs code place).scannedTables := by
      rw [Plan.scannedTables_join]
      exact List.mem_append_left _ ((hs.mem_scannedTables_iff hpl table).2 hl)
    have howns : (Plan.join pl pr cs code place).ownsLeft =
        fun c => pl.ownsLeft c || pr.ownsLeft c := by
      funext c
      cases hc : c.lhs.owner? <;> simp [Plan.ownsLeft, hc]
    have hboth : ∀ c ∈ taken, pl.ownsLeft c = true → pr.ownsLeft c = false := by
      intro c _ hcl
      obtain ⟨t, ht⟩ : ∃ t, c.lhs.owner? = some t := by
        cases hc : c.lhs.owner? with
        | none => simp [Plan.ownsLeft, hc] at hcl
        | some t => exact ⟨t, rfl⟩
      rw [Plan.ownsLeft_iff ht] at hcl
      refine Bool.eq_false_iff.2 fun hcr => hne ?_
      rw [Plan.ownsLeft_iff ht] at hcr
      exact ((hs.mem_scannedTables_iff hpl t).1 hcl).unique
        ((hs.mem_scannedTables_iff hpr t).1 hcr)
    rw [Plan.filter_ownsLeft_append_of_mem hcs hmem, Plan.conditions_join, howns]
    refine List.perm_append_comm.trans (List.Perm.append_right cs ?_)
    exact ((htaken _ _ hpl).append (htaken _ _ hpr)).trans (filter_or_perm hboth).symm
  · rw [Plan.filter_ownsLeft_append_of_notMem hcs fun hmem => hj ?_]
    · exact htaken _ _ hk
    · exact ((hs.mem_scannedTables_iff hk table).1 hmem).unique hl

theorem Conserves.of_takesPair (hs : s.Frontier catalog tables) (htaken : s.Conserves taken)
    (hcs : ∀ c ∈ cs, c.lhs.owner? = some left) (hu : s.TakesPair left right cs u) :
    u.Conserves (taken ++ cs) := by
  cases hu with
  | chain hl _ hp hu => exact htaken.of_raises hs hl hp hcs hu
  | join hl _ hne hpl hpr _ hu _ => exact htaken.of_merges hs hl hpl hpr hne hcs hu

theorem TakesPair.grows (hu : s.TakesPair left right cs u) : s.Grows u := by
  intro j k hk
  cases hu with
  | @chain r p hl hr hp hu =>
    by_cases hj : j = r
    · subst hj
      obtain rfl := Option.some.inj (hp.symm.trans hk)
      exact ⟨j, _, hu.get?_iff.2 (.inl ⟨rfl, rfl⟩), Plan.isPart_foldl_select cs p⟩
    · exact ⟨j, k, hu.get?_iff.2 (.inr ⟨hj, hk⟩), .refl k⟩
  | @join l r pl pr hl hr hne hpl hpr algorithm hu hcount =>
    have htop := hu.get?_iff.2 (.inl ⟨rfl, rfl⟩)
    by_cases hj : j = l
    · subst hj
      obtain rfl := Option.some.inj (hpl.symm.trans hk)
      exact ⟨j, _, htop, (Plan.IsPart.refl pl).child (by simp [Plan.children])⟩
    · by_cases hj' : j = r
      · subst hj'
        obtain rfl := Option.some.inj (hpr.symm.trans hk)
        exact ⟨l, _, htop, (Plan.IsPart.refl pr).child (by simp [Plan.children])⟩
      · exact ⟨j, k, hu.get?_iff.2 (.inr ⟨hj, hj', hk⟩), .refl k⟩

/-- The conditions of two tables are put together. -/
theorem TakesPair.places (hs : s.Frontier catalog tables) (hu : s.TakesPair left right cs u) :
    ∃ r p, u.tops.get? r = some p ∧ p.Places left right cs := by
  cases hu with
  | @chain r p hl hr hp hu =>
    exact ⟨r, _, hu.get?_iff.2 (.inl ⟨rfl, rfl⟩), .chain (.refl _)
      ((hs.mem_scannedTables_iff hp left).2 hl) ((hs.mem_scannedTables_iff hp right).2 hr)⟩
  | @join l r pl pr hl hr hne hpl hpr algorithm hu hcount =>
    exact ⟨l, _, hu.get?_iff.2 (.inl ⟨rfl, rfl⟩), .join (.refl _)
      ((hs.mem_scannedTables_iff hpl left).2 hl) ((hs.mem_scannedTables_iff hpr right).2 hr)⟩

/-! ### All steps -/

/-- After the conditions of one table are taken into the plan, the operator over a table is the
chain of its conditions above its scan. -/
structure Chained (catalog : Catalog) (taken : List Condition) (s : BuildState) : Prop where
  alone : ∀ {t r}, s.groups.LedBy t r → r = t
  chain : ∀ {r p}, s.tops.get? r = some p → ∃ schema, catalog.loadSchema r = .ok schema ∧
    p = (taken.filter fun c => c.lhs.owner? = some r).foldl Plan.select (.scan r schema)
  joinCount : s.joinCount = 0

theorem Scanned.chained (hs : s.Scanned catalog tables) : s.Chained catalog [] where
  alone := hs.alone
  chain := hs.scan
  joinCount := hs.joinCount

theorem Chained.of_selects (hs : s.Chained catalog taken) (hc : ∃ t, c.lhs.owner? = some t)
    (hu : s.Selects c u) : u.Chained catalog (taken ++ [c]) := by
  obtain ⟨t, ht⟩ := hc
  obtain ⟨howner, hr, hp, hu, -⟩ := hu
  obtain rfl := howner t ht
  obtain rfl := hs.alone hr
  refine ⟨fun htr => hs.alone ((hu.groups.ledBy_iff _ _).1 htr), fun {j k} hk => ?_,
    hu.joinCount.trans hs.joinCount⟩
  rw [List.filter_append]
  obtain ⟨rfl, rfl⟩ | ⟨hj, hk⟩ := hu.get?_iff.1 hk
  · obtain ⟨schema, hload, rfl⟩ := hs.chain hp
    exact ⟨schema, hload, by simp [ht]⟩
  · obtain ⟨schema, hload, rfl⟩ := hs.chain hk
    exact ⟨schema, hload, by simp [ht, Ne.symm hj]⟩

theorem Scanned.chained_of_steps (hs : s.Scanned catalog tables) (hsu : Steps Selects cs s u)
    (hcs : ∀ c ∈ cs, ∃ t, c.lhs.owner? = some t) : u.Chained catalog cs :=
  hsu.induction (P := Chained catalog) hs.chained fun _ c _ _ hpre ht htv =>
    ht.of_selects (hcs c (hpre.subset (by simp))) htv

/-- The conditions of one table that a query has are those that are taken into the plan first. -/
theorem Scanned.chained_of_classify (hs : s.Scanned catalog tables)
    (hcs : ∀ c ∈ cs, c.Qualified) (hsu : Steps Selects (Condition.classify cs).1 s u) :
    u.Chained catalog (Condition.classify cs).1 := by
  refine hs.chained_of_steps hsu fun c hc => ?_
  obtain ⟨d, hd, rfl⟩ := List.mem_map.1 hc
  exact (hcs d (List.mem_of_mem_filter hd)).lhs

theorem Chained.conserves (hs : s.Chained catalog taken) : s.Conserves taken := by
  intro r p hp
  obtain ⟨schema, -, rfl⟩ := hs.chain hp
  have howns : Plan.ownsLeft ((taken.filter fun c => c.lhs.owner? = some r).foldl Plan.select
      (.scan r schema)) = fun c => decide (c.lhs.owner? = some r) := by
    funext c
    rw [Plan.ownsLeft, Plan.scannedTables_foldl_select, Plan.scannedTables_scan]
    cases c.lhs.owner? <;> simp
  rw [howns, Plan.conditions_foldl_select, Plan.conditions_scan, List.append_nil]
  exact List.reverse_perm _

/-- What holds after some edges of a graph are taken into the plan. -/
structure EdgesTaken (catalog : Catalog) (tables : List String) (graph : JoinGraph)
    (taken : List Condition) (s : BuildState) (edges : List String) (u : BuildState) : Prop where
  frontier : u.Frontier catalog tables
  conserves : u.Conserves (taken ++ edges.flatMap graph.conditionsOf)
  grows : s.Grows u
  places : ∀ edge ∈ edges, ∃ left right, Pair.split? edge = some (left, right) ∧
    ∃ r p, u.tops.get? r = some p ∧ p.Places left right (graph.conditionsOf edge)

theorem EdgesTaken.of_takesEdge {edges : List String}
    (ht : s.EdgesTaken catalog tables graph taken edges t)
    (hnames : ∀ t ∈ tables, '|' ∉ t.toList) (hgraph : graph.Holds cs)
    (hu : t.TakesEdge graph edge u) :
    s.EdgesTaken catalog tables graph taken (edges ++ [edge]) u := by
  obtain ⟨left, right, hsplit, hpair⟩ := hu
  have hcs := fun c hc =>
    (ht.frontier.owners_of_takesPair hnames hgraph hsplit hpair c hc).1
  refine ⟨ht.frontier.of_takesPair hpair, ?_, ht.grows.trans hpair.grows, fun e he => ?_⟩
  · rw [List.flatMap_append, List.flatMap_singleton, ← List.append_assoc]
    exact ht.conserves.of_takesPair ht.frontier hcs hpair
  · obtain he | he := List.mem_append.1 he
    · obtain ⟨a, b, hab, r, p, hp, hplaces⟩ := ht.places e he
      obtain ⟨r', q, hq, hpq⟩ := hpair.grows r p hp
      exact ⟨a, b, hab, r', q, hq, hplaces.of_isPart hpq⟩
    · obtain rfl := List.mem_singleton.1 he
      exact ⟨left, right, hsplit, hpair.places ht.frontier⟩

theorem Frontier.edgesTaken (hs : s.Frontier catalog tables) (htaken : s.Conserves taken)
    (hnames : ∀ t ∈ tables, '|' ∉ t.toList) (hgraph : graph.Holds cs) {edges : List String}
    (hu : Steps (TakesEdge graph) edges s u) :
    s.EdgesTaken catalog tables graph taken edges u :=
  hu.induction (P := s.EdgesTaken catalog tables graph taken)
    ⟨hs, by simpa using htaken, .refl s, nofun⟩ fun _ _ _ _ _ ht htv =>
    ht.of_takesEdge hnames hgraph htv

theorem Conserves.of_perm (hs : s.Conserves taken) (hperm : taken.Perm cs) : s.Conserves cs :=
  fun r p hp => (hs r p hp).trans (hperm.filter _)

theorem Conserves.of_same (hs : s.Conserves taken) (hsu : s.SameFrontier u) :
    u.Conserves taken := fun r p hp => hs r p (hsu.tops ▸ hp)

theorem Grows.of_same (hs : s.Grows t) (htu : t.SameFrontier u) : s.Grows u := by
  intro r p hp
  rw [htu.tops]
  exact hs r p hp

/-- The edges of a graph hold every condition once. -/
theorem conditionsOf_perm (hgraph : graph.Holds cs) :
    (graph.edges.flatMap graph.conditionsOf).Perm (cs.map Condition.oriented) := by
  have hconditions : graph.edges.flatMap graph.conditionsOf = (graph.edges.flatMap fun edge =>
      cs.filter fun c => c.edge? = some edge).map Condition.oriented := by
    rw [List.map_flatMap]
    exact List.flatMap_congr fun edge _ => hgraph.conditionsOf edge
  have hall : (cs.filter fun c => c.edge?.any (graph.edges.contains ·)) = cs := by
    refine List.filter_eq_self.2 fun c hc => ?_
    obtain ⟨p, hp⟩ := hgraph.pair c hc
    have hedge : c.edge? = some (Pair.key p.1 p.2) := by rw [Condition.edge?, hp]; rfl
    simpa [hedge] using (hgraph.mem_edges_iff _).2 ⟨c, hc, hedge⟩
  rw [hconditions]
  exact ((flatMap_filter_perm hgraph.nodup_edges cs Condition.edge?).trans (.of_eq hall)).map _

/-- Among the conditions of a graph, those of an edge are those of a pair of tables. -/
theorem conditionsOf_eq (hgraph : graph.Holds cs) (hedge : c.edge? = some edge)
    (hsplit : Pair.split? edge = some (left, right)) (hleft : '|' ∉ left.toList)
    (hright : '|' ∉ right.toList) :
    graph.conditionsOf edge =
      (cs.filter fun d => d.pair? = some (left, right)).map Condition.oriented := by
  rw [hgraph.conditionsOf]
  refine congrArg _ (List.filter_congr fun d _ => decide_eq_decide.2 ⟨fun hd => ?_, fun hd => ?_⟩)
  · exact Condition.pair?_of_edge? hd hsplit hleft hright
  · have hpair := Condition.pair?_of_edge? hedge hsplit hleft hright
    rw [← hedge, Condition.edge?, Condition.edge?, hd, hpair]

/-- What holds after the conditions that join two tables are taken into the plan. -/
theorem JoinsTaken.places (ht : s.Frontier catalog tables) (htaken : s.Conserves taken)
    (hnames : ∀ t ∈ tables, '|' ∉ t.toList) (hu : s.JoinsTaken cs u) :
    u.Conserves (taken ++ cs.map Condition.oriented) ∧ s.Grows u ∧
      ∀ c ∈ cs, ∀ a b, c.pair? = some (a, b) → ∃ r p, u.tops.get? r = some p ∧
        p.Places a b ((cs.filter fun d => d.pair? = some (a, b)).map Condition.oriented) := by
  cases hu with
  | without hcs hu =>
    subst hcs hu
    exact ⟨by simpa using htaken, .refl u, nofun⟩
  | @edges graph t edge left right p hcs hgraph hsteps hlast hsplit htop hu hroot =>
    have hholds := JoinGraph.holds_ofConditions hgraph
    have hedges := ht.edgesTaken htaken hnames hholds hsteps
    refine ⟨?_, hedges.grows.of_same hu, fun c hc a b hab => ?_⟩
    · exact (hedges.conserves.of_perm ((conditionsOf_perm hholds).append_left taken)).of_same hu
    · have hedge : c.edge? = some (Pair.key a b) := by rw [Condition.edge?, hab]; rfl
      obtain ⟨l, r, hlr, j, k, hk, hplaces⟩ :=
        hedges.places _ ((hholds.mem_edges_iff _).2 ⟨c, hc, hedge⟩)
      have hname {x} (hx : x ∈ k.scannedTables) : '|' ∉ x.toList :=
        hnames x (hedges.frontier.mem_of_ledBy ((hedges.frontier.mem_scannedTables_iff hk x).1 hx))
      have hl := hname hplaces.mem_scannedTables.1
      have hr := hname hplaces.mem_scannedTables.2
      obtain ⟨rfl, rfl⟩ : l = a ∧ r = b := by
        have hpair := Condition.pair?_of_edge? hedge hlr hl hr
        simpa [hab, eq_comm] using hpair
      rw [conditionsOf_eq hholds hedge hlr hl hr] at hplaces
      exact ⟨j, k, hu.tops ▸ hk, hplaces⟩

/-- The conditions are where they belong in the operators at the top. -/
structure Arranges (catalog : Catalog) (cs : List Condition) (s : BuildState) : Prop where
  conditions : s.Conserves (cs.map Condition.placed)
  chain : ∀ {r p}, s.tops.get? r = some p → ∀ {t}, t ∈ p.scannedTables →
    ∃ schema, catalog.loadSchema t = .ok schema ∧
      (((cs.filter fun c => c.tables = [t]).map Condition.placed).foldl Plan.select
        (.scan t schema)).IsPart p
  together : ∀ {r p}, s.tops.get? r = some p → ∀ {c a b}, c ∈ cs → c.pair? = some (a, b) →
    (a ∈ p.scannedTables ↔ b ∈ p.scannedTables)
  places : ∀ {r p}, s.tops.get? r = some p → ∀ {a b}, a ∈ p.scannedTables → b ∈ p.scannedTables →
    p.Places a b ((cs.filter fun c => c.pair? = some (a, b)).map Condition.placed)

theorem ConditionsTaken.arranges (hs : s.Scanned catalog tables)
    (hnames : ∀ t ∈ tables, '|' ∉ t.toList) (hcs : ∀ c ∈ cs, c.Qualified)
    (hu : s.ConditionsTaken cs u) : u.Arranges catalog cs := by
  have hfrontier := hs.of_conditionsTaken hu
  obtain ⟨t, hselects, hjoins⟩ := hu
  have ht := hs.of_steps_selects hselects
  have hchained := hs.chained_of_classify hcs hselects
  obtain ⟨hconserves, hgrows, hplaces⟩ := hjoins.places ht hchained.conserves hnames
  -- a part of one operator at the top that scans a table of another one is a part of that one
  have same {r r' p q x} (hp : u.tops.get? r = some p) (hq : u.tops.get? r' = some q)
      (hxp : x ∈ p.scannedTables) (hxq : x ∈ q.scannedTables) : q = p :=
    Frontier.top_unique (hfrontier.top_iff.2 ⟨hxq, r', hq⟩) (hfrontier.top_iff.2 ⟨hxp, r, hp⟩)
  refine ⟨hconserves.of_perm ?_, ?_, ?_, ?_⟩
  · rw [Condition.map_oriented_classify, Condition.classify_fst, ← List.map_append]
    refine List.Perm.map _ ?_
    simpa using List.filter_append_perm (fun c => c.pair?.isNone) cs
  · intro r p hp x hx
    have hxr := (hfrontier.mem_scannedTables_iff hp x).1 hx
    obtain ⟨k, j, hj, hk⟩ := ht.exists_top (hfrontier.mem_of_ledBy hxr)
    obtain rfl := hchained.alone hj
    obtain ⟨schema, hload, rfl⟩ := hchained.chain hk
    obtain ⟨r', q, hq, hpart⟩ := hgrows j _ hk
    rw [Condition.filter_classify_fst hcs] at hpart
    have hxq := hpart.scannedTables_subset (by simp : j ∈ _)
    exact ⟨schema, hload, same hp hq hx hxq ▸ hpart⟩
  · intro r p hp c a b hc hab
    obtain ⟨d, hd, hdab⟩ := Condition.exists_mem_classify_snd hc hab
    obtain ⟨r', q, hq, hqab⟩ := hplaces d hd a b hdab
    obtain ⟨haq, hbq⟩ := hqab.mem_scannedTables
    exact ⟨fun ha => same hp hq ha haq ▸ hbq, fun hb => same hp hq hb hbq ▸ haq⟩
  · intro r p hp a b ha hb
    by_cases hany : ∃ c ∈ cs, c.pair? = some (a, b)
    · obtain ⟨c, hc, hab⟩ := hany
      obtain ⟨d, hd, hdab⟩ := Condition.exists_mem_classify_snd hc hab
      obtain ⟨r', q, hq, hqab⟩ := hplaces d hd a b hdab
      rw [Condition.filter_classify_snd] at hqab
      exact same hp hq ha hqab.mem_scannedTables.1 ▸ hqab
    · have hnil : (cs.filter fun c => c.pair? = some (a, b)) = [] :=
        List.filter_eq_nil_iff.2 fun c hc hab => hany ⟨c, hc, by simpa using hab⟩
      rw [hnil]
      exact .chain (.refl p) ha hb

/-- An operator at the top holds a condition when it scans all tables of it. -/
theorem Arranges.ownsLeft_placed (hs : s.Arranges catalog cs) (hp : s.tops.get? r = some p)
    (hc : c ∈ cs) (hqualified : c.Qualified) :
    p.ownsLeft c.placed = c.tables.all (p.scannedTables.contains ·) := by
  rw [Bool.eq_iff_iff]
  cases hpair : c.pair? with
  | none =>
    obtain ⟨t, ht⟩ := hqualified.lhs
    have howner : c.placed.lhs.owner? = some t := by
      rw [Condition.placed_of_pair?_eq_none hpair, ht]
    rw [Plan.ownsLeft_iff howner, hqualified.tables_eq_singleton_iff.2 ⟨hpair, ht⟩]
    simp
  | some ab =>
    obtain ⟨a, b⟩ := ab
    have howner : c.placed.lhs.owner? = some a := by
      rw [Condition.placed_of_pair? hpair]
      exact (Condition.oriented_owners (c := { c with kind := .join }) hpair).1
    have htogether := hs.together hp hc hpair
    rw [Plan.ownsLeft_iff howner]
    obtain htables | htables := Condition.tables_of_pair? hpair <;> simp [htables, ← htogether]

end BuildState

namespace BuildM

open BuildState

/-- In a plan that is returned are the conditions of the query whose tables it scans, each as often
as the query has it. Those of one table are a chain of selections directly above its scan, and those
of two tables are together in a join of the two or in a chain of selections above both. All of them
are in the order of the query. -/
theorem build_places_conditions {catalog : Catalog} {settings : Settings} {q : Query}
    {s u : BuildState} {p : Plan} (hnames : ∀ t ∈ q.tables, t ≠ "" ∧ '|' ∉ t.toList)
    (hrun : (build catalog settings q).run s = (.ok p, u)) :
    (∀ c ∈ q.conditions catalog, c.Qualified) ∧
      p.conditions.Perm (((q.conditions catalog).filter fun c =>
        c.tables.all (p.scannedTables.contains ·)).map Condition.placed) ∧
      (∀ t ∈ p.scannedTables, ∃ schema, catalog.loadSchema t = .ok schema ∧
        ((((q.conditions catalog).filter fun c => c.tables = [t]).map Condition.placed).foldl
          Plan.select (.scan t schema)).IsPart p) ∧
      ∀ a ∈ p.scannedTables, ∀ b ∈ p.scannedTables, p.Places a b
        (((q.conditions catalog).filter fun c => c.pair? = some (a, b)).map
          Condition.placed) := by
  obtain ⟨t, cs, v, ht, htaken, hroot, hvu, hcs⟩ := build_returns hrun
  obtain ⟨rfl, hqualified⟩ := hcs fun t ht => (hnames t ht).1
  have harranges := htaken.arranges ht (fun t ht => (hnames t ht).2) hqualified
  obtain ⟨r, hr⟩ := htaken.root_top ht.root hroot
  refine ⟨hqualified, ?_, fun t ht => ?_, fun a ha b hb => ?_⟩
  · have hfilter : ((q.conditions catalog).map Condition.placed).filter p.core.ownsLeft =
        ((q.conditions catalog).filter fun c =>
          c.tables.all (p.scannedTables.contains ·)).map Condition.placed := by
      rw [List.filter_map, ← Plan.scannedTables_core]
      exact congrArg _ (List.filter_congr fun c hc =>
        harranges.ownsLeft_placed hr hc (hqualified c hc))
    rw [← Plan.conditions_core, ← hfilter]
    exact harranges.conditions r p.core hr
  · rw [← Plan.scannedTables_core] at ht
    obtain ⟨schema, hload, hpart⟩ := harranges.chain hr ht
    exact ⟨schema, hload, hpart.trans p.isPart_core⟩
  · rw [← Plan.scannedTables_core] at ha hb
    exact (harranges.places hr ha hb).of_isPart p.isPart_core

theorem build_places_conditions_sample :
    (∀ t ∈ Sample.query.tables, t ≠ "" ∧ '|' ∉ t.toList) ∧
      (build Sample.catalog default Sample.query).run Sample.start =
        (.ok Sample.plan, Sample.finish) ∧
      Sample.plan.conditions.Perm (((Sample.query.conditions Sample.catalog).filter fun c =>
        c.tables.all (Sample.plan.scannedTables.contains ·)).map Condition.placed) ∧
      Sample.plan.Places "A" "C" (((Sample.query.conditions Sample.catalog).filter fun c =>
        c.pair? = some ("A", "C")).map Condition.placed) := by
  have hnames : ∀ t ∈ Sample.query.tables, t ≠ "" ∧ '|' ∉ t.toList := by decide +kernel
  obtain ⟨-, hperm, -, hplaces⟩ := build_places_conditions hnames Sample.run_start
  exact ⟨hnames, Sample.run_start, hperm, hplaces "A" (by decide +kernel) "C" (by decide +kernel)⟩

end BuildM

end QueryPlan
