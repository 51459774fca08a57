import Mathlib
import QueryPlan.Proofs.Build.Conditions
import QueryPlan.Proofs.Join.Components

/-!
# Joins and components

The groups of a construction and the components of its join graph are found independently of each
other, and agree: two tables have one operator at the top exactly when edges connect them. A pair of
tables therefore becomes a join exactly when the edges before it do not connect the two, every join
leaves one operator less at the top, and the plan scans the component of the last edge.

## Main definitions

* `BuildState.Counted` : the joins made so far, the operators at the top and the places of joins.
* `BuildState.Joined` : the joins among the operators are those of the edges between unconnected
  tables.

## Main results

* `BuildM.build_joins_components` : a plan that is returned and the components of its join graph.
-/

namespace QueryPlan

/-- In a list without repetitions an element stands in one place only. -/
theorem eq_of_nodup_append_cons {α : Type} {before before' after after' : List α} {x : α}
    (hnodup : (before ++ x :: after).Nodup)
    (heq : before ++ x :: after = before' ++ x :: after') : before = before' := by
  obtain ⟨hx, -⟩ := List.nodup_cons.1 (List.nodup_middle.1 hnodup)
  rw [List.mem_append, not_or] at hx
  exact ((List.append_cons_inj_of_notMem hx.1 hx.2).1 heq).1

namespace Plan

theorem places_foldl_select (cs : List Condition) (p : Plan) :
    (cs.foldl select p).places = p.places := by
  rw [places, joins_foldl_select, places]

end Plan

namespace BuildState

open JoinGraph

variable {catalog : Catalog} {tables : List String} {s t u : BuildState} {graph : JoinGraph}
  {cs taken : List Condition} {done : List String} {edge left right : String}

/-- There is one operator less at the top for every join made, and the places of all joins are
different numbers below the number of joins made. -/
structure Counted (s : BuildState) : Prop where
  count : s.joinCount + s.tops.keys.length = s.groups.tables.length
  nodup : ∀ {r p}, s.tops.get? r = some p → p.places.Nodup
  range : ∀ {r p}, s.tops.get? r = some p → ∀ n ∈ p.places, 0 ≤ n ∧ n < s.joinCount
  disjoint : ∀ {r p r' p'}, s.tops.get? r = some p → s.tops.get? r' = some p' → r ≠ r' →
    ∀ n ∈ p.places, n ∉ p'.places

/-- The groups connect by the edges that are taken, and the joins are those of the edges between
tables that were not connected before. -/
structure Joined (graph : JoinGraph) (done : List String) (s : BuildState) : Prop where
  connects : s.groups.Connects (Adjacent done)
  edge_of_join : ∀ {r p}, s.tops.get? r = some p → ∀ {pl pr cs code n},
    Plan.join pl pr cs code n ∈ p.joins → ∃ before edge left right, before ++ [edge] <+: done ∧
      Pair.split? edge = some (left, right) ∧ ¬ Linked before left right ∧
      cs = graph.conditionsOf edge
  join_of_edge : ∀ {before edge left right}, before ++ [edge] <+: done →
    Pair.split? edge = some (left, right) → ¬ Linked before left right →
    ∃ r p pl pr code n, s.tops.get? r = some p ∧
      Plan.join pl pr (graph.conditionsOf edge) code n ∈ p.joins

/-! ### One step -/

/-- A chain of selections leaves the joins as they are. -/
theorem Raises.joins_eq {r j : String} {p q : Plan} (hu : s.Raises r (cs.foldl Plan.select p) u)
    (hp : s.tops.get? r = some p) (hq : u.tops.get? j = some q) :
    ∃ q', s.tops.get? j = some q' ∧ q.joins = q'.joins := by
  obtain ⟨rfl, rfl⟩ | ⟨hj, hq⟩ := hu.get?_iff.1 hq
  · exact ⟨p, hp, Plan.joins_foldl_select cs p⟩
  · exact ⟨q, hq, rfl⟩

/-- Merging two groups leaves one operator less at the top. -/
theorem Frontier.length_keys_of_merges (hs : s.Frontier catalog tables) {l r : String}
    {pl pr q : Plan} (hu : s.Merges l r q u) (hpl : s.tops.get? l = some pl)
    (hpr : s.tops.get? r = some pr) (hne : l ≠ r) :
    u.tops.keys.length + 1 = s.tops.keys.length := by
  have hnodup := nodup_keys_of_merges hs hu
  have hkeys {x} := mem_keys_iff_of_merges hu hpl hne (x := x)
  have hperm : (r :: u.tops.keys).Perm s.tops.keys := by
    refine (List.perm_ext_iff_of_nodup (List.nodup_cons.2 ⟨fun hr => ?_, hnodup⟩)
      hs.nodup_keys).2 fun x => ?_
    · exact (hkeys.1 hr).2 rfl
    · rw [List.mem_cons, hkeys]
      obtain rfl | hx := eq_or_ne x r
      · simpa using OrderedMap.mem_keys_iff.2 ⟨pr, hpr⟩
      · simp [hx]
  exact hperm.length_eq

theorem Counted.of_raises {r : String} {p : Plan} (hcounted : s.Counted)
    (hp : s.tops.get? r = some p) (hu : s.Raises r (cs.foldl Plan.select p) u) : u.Counted := by
  have old {j q} (hq : u.tops.get? j = some q) :
      ∃ q', s.tops.get? j = some q' ∧ q.places = q'.places := by
    obtain ⟨q', hq', hjoins⟩ := hu.joins_eq hp hq
    exact ⟨q', hq', by rw [Plan.places, hjoins, Plan.places]⟩
  refine ⟨?_, fun hq => ?_, fun hq => ?_, fun hq hq' hne => ?_⟩
  · rw [hu.joinCount, hu.tops, OrderedMap.keys_insert_of_mem _ _
      (OrderedMap.mem_keys_iff.2 ⟨p, hp⟩), hu.groups.tables]
    exact hcounted.count
  · obtain ⟨_, hq, heq⟩ := old hq
    exact heq ▸ hcounted.nodup hq
  · obtain ⟨_, hq, heq⟩ := old hq
    rw [hu.joinCount, heq]
    exact hcounted.range hq
  · obtain ⟨_, hq, heq⟩ := old hq
    obtain ⟨_, hq', heq'⟩ := old hq'
    rw [heq, heq']
    exact hcounted.disjoint hq hq' hne

/-- The place of the next join is a new one. -/
theorem Counted.joinCount_notMem {r : String} {p : Plan} (hcounted : s.Counted)
    (hp : s.tops.get? r = some p) : (s.joinCount : ℤ) ∉ p.places :=
  fun hmem => (hcounted.range hp _ hmem).2.false

section Merges

variable {l r : String} {pl pr : Plan} {code : ℤ} (hcounted : s.Counted)
  (hpl : s.tops.get? l = some pl) (hpr : s.tops.get? r = some pr)

include hcounted hpl hpr

theorem Counted.nodup_places_join (hne : l ≠ r) :
    (Plan.join pl pr cs code s.joinCount).places.Nodup := by
  rw [Plan.places_join, List.nodup_cons, List.mem_append, not_or, List.nodup_append]
  refine ⟨⟨hcounted.joinCount_notMem hpl, hcounted.joinCount_notMem hpr⟩, hcounted.nodup hpl,
    hcounted.nodup hpr, ?_⟩
  rintro n hn _ hn' rfl
  exact hcounted.disjoint hpl hpr hne n hn hn'

/-- An operator that is kept shares no place with the new join. -/
theorem Counted.disjoint_places_join {j : String} {q : Plan} (hjl : j ≠ l) (hjr : j ≠ r)
    (hq : s.tops.get? j = some q) :
    ∀ n ∈ q.places, n ∉ (Plan.join pl pr cs code s.joinCount).places := by
  intro n hn hmem
  rw [Plan.places_join, List.mem_cons, List.mem_append] at hmem
  obtain rfl | hmem | hmem := hmem
  · exact hcounted.joinCount_notMem hq hn
  · exact hcounted.disjoint hq hpl hjl n hn hmem
  · exact hcounted.disjoint hq hpr hjr n hn hmem

theorem Counted.of_merges (hs : s.Frontier catalog tables) (hne : l ≠ r)
    (hu : s.Merges l r (.join pl pr cs code s.joinCount) u)
    (hcount : u.joinCount = s.joinCount + 1) : u.Counted := by
  refine ⟨?_, fun {j q} hq => ?_, fun {j q} hq n hn => ?_, fun {j q j' q'} hq hq' hjj' => ?_⟩
  · rw [hcount, Frontier.tables_eq_of_merges hs hu hpr, ← hcounted.count,
      ← hs.length_keys_of_merges hu hpl hpr hne]
    omega
  · obtain ⟨-, rfl⟩ | ⟨-, -, hq⟩ := hu.get?_iff.1 hq
    · exact hcounted.nodup_places_join hpl hpr hne
    · exact hcounted.nodup hq
  · rw [hcount]
    push_cast
    have below {j q} (hq : s.tops.get? j = some q) (hn : n ∈ q.places) :
        0 ≤ n ∧ n < (s.joinCount : ℤ) + 1 := by
      have := hcounted.range hq n hn
      omega
    obtain ⟨-, rfl⟩ | ⟨-, -, hq⟩ := hu.get?_iff.1 hq
    · rw [Plan.places_join, List.mem_cons, List.mem_append] at hn
      obtain rfl | hn | hn := hn
      · omega
      · exact below hpl hn
      · exact below hpr hn
    · exact below hq hn
  · obtain ⟨rfl, rfl⟩ | ⟨hjl, hjr, hq⟩ := hu.get?_iff.1 hq
    · obtain ⟨rfl, -⟩ | ⟨hjl', hjr', hq'⟩ := hu.get?_iff.1 hq'
      · exact absurd rfl hjj'
      · exact fun n hn hn' => hcounted.disjoint_places_join hpl hpr hjl' hjr' hq' n hn' hn
    · obtain ⟨rfl, rfl⟩ | ⟨-, -, hq'⟩ := hu.get?_iff.1 hq'
      · exact hcounted.disjoint_places_join hpl hpr hjl hjr hq
      · exact hcounted.disjoint hq hq' hjj'

end Merges

theorem Counted.of_takesPair (hs : s.Frontier catalog tables) (hcounted : s.Counted)
    (hu : s.TakesPair left right cs u) : u.Counted := by
  cases hu with
  | chain _ _ hp hu => exact hcounted.of_raises hp hu
  | join _ _ hne hpl hpr _ hu hcount => exact hcounted.of_merges hpl hpr hs hne hu hcount

/-- The groups connect by one edge more. -/
theorem TakesPair.connects (hs : s.Frontier catalog tables) (hconnects : s.groups.Connects
    (Adjacent done)) (hsplit : Pair.split? edge = some (left, right))
    (hu : s.TakesPair left right cs u) : u.groups.Connects (Adjacent (done ++ [edge])) := by
  have hadjacent : Adjacent (done ++ [edge]) =
      fun x y => Adjacent done x y ∨ x = left ∧ y = right := by
    ext x y
    exact adjacent_append_iff hsplit
  rw [hadjacent]
  cases hu with
  | chain hl hr _ hu => exact (hconnects.of_together ⟨_, hl, hr⟩).of_same hu.groups
  | join hl hr hne _ _ _ hu _ =>
    obtain ⟨g, hg, hgroups⟩ := hu.groups
    rw [hgroups]
    exact (hg.rooted hs.rooted).connects_bind (hconnects.of_same hg) ((hg.ledBy_iff _ _).2 hl)
      ((hg.ledBy_iff _ _).2 hr) hne

/-- Tables become those of a join when they are not connected yet. -/
theorem TakesPair.linked_iff (hconnects : s.groups.Connects (Adjacent done))
    (hu : s.TakesPair left right cs u) : Linked done left right ↔ s.groups.Together left right := by
  obtain ⟨l, hl⟩ : ∃ l, s.groups.LedBy left l := by
    cases hu with
    | chain hl => exact ⟨_, hl⟩
    | join hl => exact ⟨_, hl⟩
  exact (hconnects.together_iff hl).symm

theorem Joined.of_takesEdge (hs : s.Frontier catalog tables) (hjoined : s.Joined graph done)
    (hu : s.TakesEdge graph edge u) : u.Joined graph (done ++ [edge]) := by
  obtain ⟨left, right, hsplit, hpair⟩ := hu
  have hlinked := hpair.linked_iff hjoined.connects
  refine ⟨hpair.connects hs hjoined.connects hsplit, fun {j q} hq {ql qr ds code n} hmem => ?_,
    fun {before e a b} hbefore hab hnot => ?_⟩
  · have old {j q} (hq : s.tops.get? j = some q) (hmem : Plan.join ql qr ds code n ∈ q.joins) :
        ∃ before e a b, before ++ [e] <+: done ++ [edge] ∧ Pair.split? e = some (a, b) ∧
          ¬ Linked before a b ∧ ds = graph.conditionsOf e := by
      obtain ⟨before, e, a, b, hbefore, h⟩ := hjoined.edge_of_join hq hmem
      exact ⟨before, e, a, b, hbefore.trans (List.prefix_append done [edge]), h⟩
    cases hpair with
    | chain _ _ hp hu =>
      obtain ⟨q', hq', hjoins⟩ := hu.joins_eq hp hq
      exact old hq' (hjoins ▸ hmem)
    | @join l r pl pr hl hr hne hpl hpr algorithm hu _ =>
      obtain ⟨-, rfl⟩ | ⟨-, -, hq⟩ := hu.get?_iff.1 hq
      · rw [Plan.joins_join, List.mem_cons, List.mem_append] at hmem
        obtain heq | hmem | hmem := hmem
        · refine ⟨done, edge, left, right, List.prefix_rfl, hsplit, ?_, (Plan.join.inj heq).2.2.1⟩
          rintro h
          obtain ⟨z, hlz, hrz⟩ := hlinked.1 h
          exact hne ((hl.unique hlz).trans (hrz.unique hr))
        · exact old hpl hmem
        · exact old hpr hmem
      · exact old hq hmem
  · obtain heq | hbefore := List.prefix_concat_iff.1 hbefore
    · obtain ⟨rfl, hedge⟩ := List.append_inj' heq rfl
      obtain rfl := (List.cons.inj hedge).1
      obtain ⟨rfl, rfl⟩ := Prod.mk.inj (Option.some.inj (hab.symm.trans hsplit))
      cases hpair with
      | chain hl hr => exact absurd (hlinked.2 ⟨_, hl, hr⟩) hnot
      | @join l r pl pr _ _ _ _ _ algorithm hu _ =>
        exact ⟨l, _, pl, pr, algorithm.code, s.joinCount, hu.get?_iff.2 (.inl ⟨rfl, rfl⟩), by simp⟩
    · obtain ⟨j, q, ql, qr, code, n, hq, hmem⟩ := hjoined.join_of_edge hbefore hab hnot
      obtain ⟨j', q', hq', hpart⟩ := hpair.grows j q hq
      exact ⟨j', q', ql, qr, code, n, hq', hpart.joins_subset hmem⟩

/-! ### All steps -/

theorem Chained.counted (hs : s.Frontier catalog tables) (hchained : s.Chained catalog taken) :
    s.Counted := by
  have hplaces {r p} (hp : s.tops.get? r = some p) : p.places = [] := by
    obtain ⟨schema, -, rfl⟩ := hchained.chain hp
    rw [Plan.places_foldl_select]
    simp [Plan.places]
  refine ⟨?_, fun hp => ?_, fun hp => ?_, fun hp _ _ => ?_⟩
  · rw [hchained.joinCount, Nat.zero_add]
    refine ((List.perm_ext_iff_of_nodup hs.nodup_keys hs.nodup_tables).2 fun x => ?_).length_eq
    rw [hs.mem_keys_iff]
    refine ⟨Grouping.LedBy.mem_tables, fun hx => ?_⟩
    obtain ⟨r, hr⟩ := hs.rooted x hx
    exact hchained.alone hr ▸ hr
  · simp [hplaces hp]
  · simp [hplaces hp]
  · simp [hplaces hp]

theorem Chained.joined (hchained : s.Chained catalog taken) (graph : JoinGraph) :
    s.Joined graph [] := by
  refine ⟨?_, fun hp _ _ _ _ _ hmem => ?_, fun hbefore => ?_⟩
  · rw [adjacent_nil]
    exact Grouping.connects_of_alone hchained.alone
  · obtain ⟨schema, -, rfl⟩ := hchained.chain hp
    simp at hmem
  · simp at hbefore

/-- There are as many operators at the top as the graph has components. -/
theorem Joined.length_components (hs : s.Frontier catalog tables)
    (hjoined : s.Joined graph graph.edges) :
    (graph.components tables).length = s.tops.keys.length := by
  have htracks := graph.tracks_components tables
  obtain ⟨leaders, hnodup, hleaders, hgroups⟩ := htracks.groups
  have hkeys (r : String) : r ∈ s.tops.keys ↔ ∃ x ∈ tables, s.groups.LedBy x r := by
    rw [hs.mem_keys_iff]
    exact ⟨fun hr => ⟨r, hs.mem_of_ledBy hr, hr⟩, fun ⟨_, _, hx⟩ => hx.leader⟩
  have hled (x : String) (hx : x ∈ tables) : ∃ r, s.groups.LedBy x r :=
    hs.rooted x ((hs.mem_tables_iff x).2 hx)
  have hled' (x : String) (hx : x ∈ tables) := htracks.rooted x (htracks.subset hx)
  rw [components, ← hgroups.length_eq]
  exact le_antisymm
    (htracks.connects.length_leaders_le hjoined.connects hnodup hled
      (fun r hr => (hleaders r).1 hr) fun r hr => (hkeys r).2 hr)
    (hjoined.connects.length_leaders_le htracks.connects hs.nodup_keys hled'
      (fun r hr => (hkeys r).1 hr) fun r hr => (hleaders r).2 hr)

/-- An operator at the top scans the tables of a component. -/
theorem Joined.exists_component (hs : s.Frontier catalog tables)
    (hjoined : s.Joined graph graph.edges) {r : String} {p : Plan}
    (hp : s.tops.get? r = some p) :
    ∃ k ∈ graph.components tables, p.scannedTables.Perm k := by
  have htracks := graph.tracks_components tables
  obtain ⟨leaders, hnodup, hleaders, hgroups⟩ := htracks.groups
  have hr := hs.ledBy_of_get? hp
  have hmem := hs.mem_of_ledBy hr
  obtain ⟨r', hr'⟩ := htracks.rooted r (htracks.subset hmem)
  obtain ⟨i, hi, rfl⟩ := List.getElem_of_mem ((hleaders r').2 ⟨r, hmem, hr'⟩)
  have hi' : i < (graph.components tables).length := hgroups.length_eq ▸ hi
  obtain ⟨hk, hiff⟩ := hgroups.get hi hi'
  refine ⟨_, List.getElem_mem hi', ?_⟩
  refine (List.perm_ext_iff_of_nodup (hs.nodup_scannedTables hp) hk).2 fun x => ?_
  rw [hs.mem_scannedTables_iff hp]
  refine Iff.trans ?_ (hiff x).symm
  constructor
  · intro hx
    have hlinked := (hjoined.connects.together_iff hr).1 ⟨r, hr, hx⟩
    exact ⟨hs.mem_of_ledBy hx, ((htracks.connects.together_iff hr').2 hlinked).ledBy hr'⟩
  · rintro ⟨-, hx⟩
    have hlinked := (htracks.connects.together_iff hr').1 ⟨_, hr', hx⟩
    exact ((hjoined.connects.together_iff hr).2 hlinked).ledBy hr

/-- Two tables are in one group when they are in one component. -/
theorem Joined.together_iff (hs : s.Frontier catalog tables)
    (hjoined : s.Joined graph graph.edges) {x y : String} (hx : x ∈ tables) :
    s.groups.Together x y ↔ ∃ k ∈ graph.components tables, x ∈ k ∧ y ∈ k := by
  constructor
  · rintro ⟨r, hxr, hyr⟩
    obtain ⟨p, hp⟩ := OrderedMap.mem_keys_iff.1 ((hs.mem_keys_iff r).2 hxr.leader)
    obtain ⟨k, hk, hperm⟩ := hjoined.exists_component hs hp
    exact ⟨k, hk, hperm.subset ((hs.mem_scannedTables_iff hp x).2 hxr),
      hperm.subset ((hs.mem_scannedTables_iff hp y).2 hyr)⟩
  · rintro ⟨k, hk, hxk, hyk⟩
    have htracks := graph.tracks_components tables
    obtain ⟨leaders, -, -, hgroups⟩ := htracks.groups
    obtain ⟨i, hi, rfl⟩ := List.getElem_of_mem hk
    obtain ⟨-, hiff⟩ := hgroups.get (hgroups.length_eq ▸ hi) hi
    obtain ⟨-, hxr⟩ := (hiff x).1 hxk
    obtain ⟨-, hyr⟩ := (hiff y).1 hyk
    have hlinked := (htracks.connects.together_iff hxr).1 ⟨_, hxr, hyr⟩
    obtain ⟨z, hz⟩ := hs.rooted x ((hs.mem_tables_iff x).2 hx)
    exact (hjoined.connects.together_iff hz).2 hlinked

/-- A pair of tables is that of a join when the edges before it do not connect the two. -/
theorem Joined.join_iff (hjoined : s.Joined graph graph.edges) (hholds : graph.Holds cs)
    {before after : List String} (hsplits : graph.edges = before ++ edge :: after)
    (hab : Pair.split? edge = some (left, right)) :
    (∃ r p pl pr code n, s.tops.get? r = some p ∧
      Plan.join pl pr (graph.conditionsOf edge) code n ∈ p.joins) ↔ ¬ Linked before left right := by
  constructor
  · rintro ⟨r, p, pl, pr, code, n, hp, hmem⟩
    obtain ⟨before', edge', a, b, ⟨after', hprefix⟩, hsplit, hnot, heq⟩ :=
      hjoined.edge_of_join hp hmem
    obtain rfl := hholds.edge_unique (by rw [hsplits]; simp) heq
    obtain ⟨rfl, rfl⟩ := Prod.mk.inj (Option.some.inj (hab.symm.trans hsplit))
    rw [hsplits, List.append_assoc, List.singleton_append] at hprefix
    rwa [eq_of_nodup_append_cons (hsplits ▸ hholds.nodup_edges) hprefix.symm]
  · intro hnot
    exact hjoined.join_of_edge ⟨after, by rw [hsplits]; simp⟩ hab hnot

/-- The operator over a table of an edge scans the component of the edge, and has one join less than
that has tables. -/
theorem Joined.exists_component_of_edge (hs : s.Frontier catalog tables)
    (hjoined : s.Joined graph graph.edges) (hedge : edge ∈ graph.edges)
    (hsplit : Pair.split? edge = some (left, right)) {p : Plan} (htop : s.Top left p) :
    ∃ k ∈ graph.components tables, left ∈ k ∧ right ∈ k ∧ p.scannedTables.Perm k ∧
      p.joins.length + 1 = k.length := by
  obtain ⟨r, hr, hp⟩ := htop
  obtain ⟨k, hk, hperm⟩ := hjoined.exists_component hs hp
  have hlinked : Linked graph.edges left right := .rel _ _ ⟨edge, hedge, hsplit⟩
  have hright := ((hjoined.connects.together_iff hr).2 hlinked).ledBy hr
  have hmem {x} (hx : s.groups.LedBy x r) : x ∈ k :=
    hperm.subset ((hs.mem_scannedTables_iff hp x).2 hx)
  have hjoins := (hs.bare hp).length_joins_add_one
  exact ⟨k, hk, hmem hr, hmem hright, hperm, hjoins.trans hperm.length_eq⟩

/-- An operator at the top scans all tables when it is the only one. -/
theorem Frontier.scans_all_iff (hs : s.Frontier catalog tables) {r : String} {p : Plan}
    (hp : s.tops.get? r = some p) :
    (∀ x ∈ tables, x ∈ p.scannedTables) ↔ s.tops.keys.length = 1 := by
  have hr : r ∈ s.tops.keys := OrderedMap.mem_keys_iff.2 ⟨p, hp⟩
  constructor
  · intro hall
    have honly (x : String) (hx : x ∈ s.tops.keys) : x = r := by
      have hx := (hs.mem_keys_iff x).1 hx
      exact hx.unique ((hs.mem_scannedTables_iff hp x).1 (hall x (hs.mem_of_ledBy hx)))
    have hperm : s.tops.keys.Perm [r] := by
      refine (List.perm_ext_iff_of_nodup hs.nodup_keys (List.nodup_singleton r)).2 fun x => ?_
      rw [List.mem_singleton]
      exact ⟨honly x, fun hx => hx ▸ hr⟩
    exact hperm.length_eq
  · intro hlength x hx
    obtain ⟨a, ha⟩ := List.length_eq_one_iff.1 hlength
    obtain ⟨z, hz⟩ := hs.rooted x ((hs.mem_tables_iff x).2 hx)
    have hmem := (hs.mem_keys_iff z).2 hz.leader
    rw [ha, List.mem_singleton] at hr hmem
    exact (hs.mem_scannedTables_iff hp x).2 (hr ▸ hmem ▸ hz)

/-- What holds when all edges of a graph are taken into the plan. -/
theorem Frontier.of_steps (hs : s.Frontier catalog tables) (hchained : s.Chained catalog taken)
    {edges : List String} (hu : Steps (TakesEdge graph) edges s u) :
    u.Frontier catalog tables ∧ u.Counted ∧ u.Joined graph edges :=
  hu.induction (P := fun done v => v.Frontier catalog tables ∧ v.Counted ∧ v.Joined graph done)
    ⟨hs, hchained.counted hs, hchained.joined graph⟩ fun _ _ _ _ _ ⟨ht, hcounted, hjoined⟩ htv =>
    ⟨ht.of_takesEdge htv, hcounted.of_takesPair ht htv.choose_spec.choose_spec.2,
      hjoined.of_takesEdge ht htv⟩

end BuildState

namespace BuildM

open BuildState JoinGraph

/-- If a plan is returned and some condition joins two tables, then the groups of the construction
are the components of the join graph: every join leaves one component less, an edge becomes a join
when the edges before it do not connect its tables, and the plan scans the component of the last
edge, with one join less than tables. -/
theorem build_joins_components {catalog : Catalog} {settings : Settings} {q : Query}
    {s u : BuildState} {p : Plan} (hnames : ∀ t ∈ q.tables, t ≠ "")
    (hrun : (build catalog settings q).run s = (.ok p, u))
    (hcross : ∃ c ∈ q.conditions catalog, c.relatesTables = true) :
    ∃ graph, ofConditions (Condition.classify (q.conditions catalog)).2 = .ok graph ∧
      (∀ x ∈ q.tables, ∀ y, u.groups.Together x y ↔
        ∃ k ∈ graph.components q.tables, x ∈ k ∧ y ∈ k) ∧
      u.joinCount + (graph.components q.tables).length = q.tables.toFinset.card ∧
      (∀ before edge after a b, graph.edges = before ++ edge :: after →
        Pair.split? edge = some (a, b) →
        ((∃ r top left right code n, u.tops.get? r = some top ∧
          Plan.join left right (graph.conditionsOf edge) code n ∈ top.joins) ↔
            ¬ Linked before a b)) ∧
      (∃ edge a b, graph.edges.getLast? = some edge ∧ Pair.split? edge = some (a, b) ∧
        ∃ k ∈ graph.components q.tables, a ∈ k ∧ b ∈ k ∧ p.scannedTables.Perm k ∧
          p.joins.length + 1 = k.length) ∧
      p.places.Nodup ∧ (∀ n ∈ p.places, 0 ≤ n ∧ n < u.joinCount) ∧
      ((∀ t ∈ q.tables, t ∈ p.scannedTables) ↔ (graph.components q.tables).length = 1) := by
  obtain ⟨t, cs, v, ht, ⟨w, hselects, hjoins⟩, hroot, hvu, hcs⟩ := build_returns hrun
  obtain ⟨rfl, hqualified⟩ := hcs hnames
  have hw := ht.of_steps_selects hselects
  have hchained := ht.chained_of_classify hqualified hselects
  cases hjoins with
  | without hnil _ =>
    obtain ⟨c, hc, hrelates⟩ := hcross
    rw [Condition.relatesTables_eq, Option.isSome_iff_exists] at hrelates
    obtain ⟨⟨a, b⟩, hab⟩ := hrelates
    obtain ⟨d, hd, -⟩ := Condition.exists_mem_classify_snd hc hab
    rw [hnil] at hd
    cases hd
  | @edges graph w' edge left right top _ hgraph hsteps hlast hsplit htop hsame hup =>
    obtain ⟨hfrontier, hcounted, hjoined⟩ := hw.of_steps hchained hsteps
    obtain rfl := Option.some.inj (hup.symm.trans hroot)
    have htops : u.tops = w'.tops := hvu.tops.trans hsame.tops
    have hcount : u.joinCount = w'.joinCount := hvu.joinCount.trans hsame.joinCount
    have hp := htop.choose_spec.2
    have hlength := hjoined.length_components hfrontier
    have hplaces : p.core.places = p.places := by rw [Plan.places, Plan.joins_core, Plan.places]
    refine ⟨graph, hgraph, fun x hx y => ?_, ?_, fun before e after a b hsplits hab => ?_,
      ⟨edge, left, right, hlast, hsplit, ?_⟩, hplaces ▸ hcounted.nodup hp, ?_, ?_⟩
    · rw [hvu.groups.together_iff, hsame.groups.together_iff]
      exact hjoined.together_iff hfrontier hx
    · rw [hcount, hlength, hcounted.count, ← List.toFinset_card_of_nodup hfrontier.nodup_tables]
      congr 1
      ext x
      simp [hfrontier.mem_tables_iff]
    · rw [htops]
      exact hjoined.join_iff (holds_ofConditions hgraph) hsplits hab
    · have hedge : edge ∈ graph.edges := List.mem_of_getLast? hlast
      simpa using hjoined.exists_component_of_edge hfrontier hedge hsplit htop
    · intro n hn
      rw [hcount]
      exact hcounted.range hp n (hplaces ▸ hn)
    · rw [hlength, ← Plan.scannedTables_core]
      exact hfrontier.scans_all_iff hp

theorem build_joins_components_sample :
    (∀ t ∈ Sample.query.tables, t ≠ "") ∧
      (build Sample.catalog default Sample.query).run Sample.start =
        (.ok Sample.plan, Sample.finish) ∧
      (∃ c ∈ Sample.query.conditions Sample.catalog, c.relatesTables = true) ∧
      ∃ graph, ofConditions (Condition.classify (Sample.query.conditions Sample.catalog)).2 =
          .ok graph ∧
        Sample.finish.joinCount + (graph.components Sample.query.tables).length = 3 ∧
        ((∀ t ∈ Sample.query.tables, t ∈ Sample.plan.scannedTables) ↔
          (graph.components Sample.query.tables).length = 1) := by
  have hnames : ∀ t ∈ Sample.query.tables, t ≠ "" := by decide +kernel
  have hcross : ∃ c ∈ Sample.query.conditions Sample.catalog, c.relatesTables = true := by
    decide +kernel
  obtain ⟨graph, hgraph, -, hcount, -, -, -, -, hall⟩ :=
    build_joins_components hnames Sample.run_start hcross
  exact ⟨hnames, Sample.run_start, hcross, graph, hgraph, hcount, hall⟩

end BuildM

end QueryPlan
