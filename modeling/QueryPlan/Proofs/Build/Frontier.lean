import Mathlib
import QueryPlan.Build.Stages
import QueryPlan.Proofs.Join.Leaders
import QueryPlan.Proofs.Plan.Parts
import QueryPlan.Proofs.Program

/-!
# The frontier while a plan is built

While conditions are taken into a plan, the top-most operators divide the tables among them: every
group of tables has one operator, kept under its leader, and this operator scans the tables of the
group, each once. This is the invariant `BuildState.Frontier`.

A step of the construction changes the frontier in one of two ways. It *raises* the operator of a
group, which puts selections above it, or it *merges* two groups under a join. All other steps leave
the frontier as it is, even where they shorten the ways to the leaders.

## Main definitions

* `BuildState.Frontier` : the operators at the top divide the tables among them.
* `BuildState.Top` : the operator at the top over a table.
* `BuildState.SameFrontier`, `BuildState.Unchanged` : what a step keeps.
* `BuildState.Raises`, `BuildState.Merges` : what a step changes.

## Main results

* `BuildState.Frontier.of_same`, `BuildState.Frontier.of_raises`, `BuildState.Frontier.of_merges` :
  every kind of step keeps the invariant.
* `BuildM.leaderOf_meets`, `BuildM.topOf_meets`, `BuildM.setTop_meets`, `BuildM.merge_meets` : what
  the operations on the frontier do.
-/

namespace QueryPlan

namespace BuildState

/-- The operators at the top divide the given tables among them: each is kept under the leader of a
group, consists of selections and joins over scans, and scans the tables of its group. -/
structure Frontier (catalog : Catalog) (tables : List String) (s : BuildState) : Prop where
  rooted : s.groups.Rooted
  nodup_tables : s.groups.tables.Nodup
  mem_tables_iff : ∀ t, t ∈ s.groups.tables ↔ t ∈ tables
  nodup_keys : s.tops.keys.Nodup
  mem_keys_iff : ∀ r, r ∈ s.tops.keys ↔ s.groups.LedBy r r
  bare : ∀ {r p}, s.tops.get? r = some p → p.Bare catalog
  nodup_scannedTables : ∀ {r p}, s.tops.get? r = some p → p.scannedTables.Nodup
  mem_scannedTables_iff : ∀ {r p}, s.tops.get? r = some p →
    ∀ t, t ∈ p.scannedTables ↔ s.groups.LedBy t r

/-- The operator at the top over a table. -/
def Top (s : BuildState) (table : String) (p : Plan) : Prop :=
  ∃ r, s.groups.LedBy table r ∧ s.tops.get? r = some p

/-- The groups of tables, the operators at the top and the number of joins are kept. -/
structure SameFrontier (s u : BuildState) : Prop where
  groups : s.groups.SameLeaders u.groups
  tops : u.tops = s.tops
  joinCount : u.joinCount = s.joinCount

/-- At most the ways to the leaders, the source of codes and the events are changed. -/
structure Unchanged (s u : BuildState) : Prop extends s.SameFrontier u where
  root : u.root = s.root

/-- The operator of the group led by `r` is replaced. -/
structure Raises (s : BuildState) (r : String) (p : Plan) (u : BuildState) : Prop where
  groups : s.groups.SameLeaders u.groups
  tops : u.tops = s.tops.insert r p
  joinCount : u.joinCount = s.joinCount

/-- The group led by `r` is merged into the group led by `l` under one operator. -/
structure Merges (s : BuildState) (l r : String) (p : Plan) (u : BuildState) : Prop where
  groups : ∃ g, s.groups.SameLeaders g ∧ u.groups = g.bind r l
  tops : u.tops = (s.tops.erase r).insert l p

variable {catalog : Catalog} {tables : List String} {s t u : BuildState}
  {l r table x y : String} {p q pl pr : Plan}

/-! ### What the changes do -/

theorem SameFrontier.refl (s : BuildState) : s.SameFrontier s := ⟨.refl _, rfl, rfl⟩

theorem SameFrontier.trans (hst : s.SameFrontier t) (htu : t.SameFrontier u) :
    s.SameFrontier u :=
  ⟨hst.groups.trans htu.groups, htu.tops.trans hst.tops, htu.joinCount.trans hst.joinCount⟩

theorem Unchanged.refl (s : BuildState) : s.Unchanged s := ⟨.refl s, rfl⟩

theorem Unchanged.trans (hst : s.Unchanged t) (htu : t.Unchanged u) : s.Unchanged u :=
  ⟨hst.toSameFrontier.trans htu.toSameFrontier, htu.root.trans hst.root⟩

theorem SameFrontier.top_iff (hsu : s.SameFrontier u) : u.Top table p ↔ s.Top table p := by
  simp only [Top, hsu.tops, hsu.groups.ledBy_iff]

/-- Raising an operator after a step that keeps the frontier is raising it before. -/
theorem SameFrontier.raises (hst : s.SameFrontier t) (htu : t.Raises r p u) : s.Raises r p u :=
  ⟨hst.groups.trans htu.groups, hst.tops ▸ htu.tops, htu.joinCount.trans hst.joinCount⟩

theorem SameFrontier.merges (hst : s.SameFrontier t) (htu : t.Merges l r p u) :
    s.Merges l r p u := by
  obtain ⟨g, hg, hu⟩ := htu.groups
  exact ⟨⟨g, hst.groups.trans hg, hu⟩, hst.tops ▸ htu.tops⟩

theorem Raises.get?_iff (hsu : s.Raises r q u) {j : String} :
    u.tops.get? j = some p ↔ j = r ∧ p = q ∨ j ≠ r ∧ s.tops.get? j = some p := by
  rw [hsu.tops, OrderedMap.get?_insert]
  obtain rfl | hne := eq_or_ne r j
  · simp [eq_comm]
  · simp [hne, hne.symm]

theorem Merges.get?_iff (hsu : s.Merges l r q u) {j : String} :
    u.tops.get? j = some p ↔ j = l ∧ p = q ∨ j ≠ l ∧ j ≠ r ∧ s.tops.get? j = some p := by
  rw [hsu.tops, OrderedMap.get?_insert, OrderedMap.get?_erase]
  obtain rfl | hl := eq_or_ne l j
  · simp [eq_comm]
  · obtain rfl | hr := eq_or_ne r j
    · simp [hl, hl.symm]
    · simp [hl, hl.symm, hr, hr.symm]

namespace Frontier

/-- Every table has an operator over it. -/
theorem exists_top (hs : s.Frontier catalog tables) (ht : table ∈ tables) : ∃ p, s.Top table p := by
  obtain ⟨r, hr⟩ := hs.rooted table ((hs.mem_tables_iff table).2 ht)
  obtain ⟨p, hp⟩ := OrderedMap.mem_keys_iff.1 ((hs.mem_keys_iff r).2 hr.leader)
  exact ⟨p, r, hr, hp⟩

theorem mem_of_ledBy (hs : s.Frontier catalog tables) (h : s.groups.LedBy table r) :
    table ∈ tables :=
  (hs.mem_tables_iff table).1 h.mem_tables

theorem ledBy_of_get? (hs : s.Frontier catalog tables) (hr : s.tops.get? r = some p) :
    s.groups.LedBy r r :=
  (hs.mem_keys_iff r).1 (OrderedMap.mem_keys_iff.2 ⟨p, hr⟩)

/-- An operator at the top that scans a table is the one over it. -/
theorem top_iff (hs : s.Frontier catalog tables) :
    s.Top table p ↔ table ∈ p.scannedTables ∧ ∃ r, s.tops.get? r = some p := by
  constructor
  · rintro ⟨r, hr, hp⟩
    exact ⟨(hs.mem_scannedTables_iff hp table).2 hr, r, hp⟩
  · rintro ⟨ht, r, hp⟩
    exact ⟨r, (hs.mem_scannedTables_iff hp table).1 ht, hp⟩

theorem top_unique (hp : s.Top table p) (hq : s.Top table q) : p = q := by
  obtain ⟨r, hr, hp⟩ := hp
  obtain ⟨r', hr', hq⟩ := hq
  obtain rfl := hr.unique hr'
  exact Option.some.inj (hp.symm.trans hq)

/-! ### Every change keeps the invariant -/

theorem of_same (hs : s.Frontier catalog tables) (hsu : s.SameFrontier u) :
    u.Frontier catalog tables where
  rooted := hsu.groups.rooted hs.rooted
  nodup_tables := hsu.groups.tables ▸ hs.nodup_tables
  mem_tables_iff := hsu.groups.tables ▸ hs.mem_tables_iff
  nodup_keys := hsu.tops ▸ hs.nodup_keys
  mem_keys_iff r := by rw [hsu.tops, hs.mem_keys_iff, hsu.groups.ledBy_iff]
  bare := hsu.tops ▸ hs.bare
  nodup_scannedTables := hsu.tops ▸ hs.nodup_scannedTables
  mem_scannedTables_iff hp t := by
    rw [hsu.groups.ledBy_iff]
    exact hs.mem_scannedTables_iff (hsu.tops ▸ hp) t

/-- The operator that replaces another one has to scan the same tables. -/
theorem of_raises (hs : s.Frontier catalog tables) (hsu : s.Raises r q u)
    (hp : s.tops.get? r = some p) (hbare : q.Bare catalog)
    (hscan : q.scannedTables = p.scannedTables) : u.Frontier catalog tables := by
  have hkeys : u.tops.keys = s.tops.keys := by
    rw [hsu.tops, OrderedMap.keys_insert_of_mem _ _ (OrderedMap.mem_keys_iff.2 ⟨p, hp⟩)]
  refine ⟨hsu.groups.rooted hs.rooted, hsu.groups.tables ▸ hs.nodup_tables,
    hsu.groups.tables ▸ hs.mem_tables_iff, hkeys ▸ hs.nodup_keys, fun j => ?_, ?_, ?_, ?_⟩
  · rw [hkeys, hs.mem_keys_iff, hsu.groups.ledBy_iff]
  · intro j k hk
    obtain ⟨rfl, rfl⟩ | ⟨-, hk⟩ := hsu.get?_iff.1 hk
    · exact hbare
    · exact hs.bare hk
  · intro j k hk
    obtain ⟨rfl, rfl⟩ | ⟨-, hk⟩ := hsu.get?_iff.1 hk
    · exact hscan ▸ hs.nodup_scannedTables hp
    · exact hs.nodup_scannedTables hk
  · intro j k hk x
    rw [hsu.groups.ledBy_iff]
    obtain ⟨rfl, rfl⟩ | ⟨-, hk⟩ := hsu.get?_iff.1 hk
    · exact hscan ▸ hs.mem_scannedTables_iff hp x
    · exact hs.mem_scannedTables_iff hk x

theorem tables_eq_of_merges (hs : s.Frontier catalog tables) (hsu : s.Merges l r q u)
    (hpr : s.tops.get? r = some pr) : u.groups.tables = s.groups.tables := by
  obtain ⟨g, hg, hu⟩ := hsu.groups
  rw [hu, Grouping.tables_bind_of_mem, hg.tables]
  exact hg.tables ▸ (hs.ledBy_of_get? hpr).mem_tables

theorem mem_keys_iff_of_merges (hsu : s.Merges l r q u) (hpl : s.tops.get? l = some pl)
    (hne : l ≠ r) : x ∈ u.tops.keys ↔ x ∈ s.tops.keys ∧ x ≠ r := by
  rw [hsu.tops, OrderedMap.mem_keys_insert, OrderedMap.keys_erase, List.mem_filter]
  simp only [ne_eq, decide_eq_true_eq]
  refine ⟨?_, .inr⟩
  rintro (rfl | hx)
  · exact ⟨OrderedMap.mem_keys_iff.2 ⟨pl, hpl⟩, hne⟩
  · exact hx

theorem nodup_keys_of_merges (hs : s.Frontier catalog tables) (hsu : s.Merges l r q u) :
    u.tops.keys.Nodup := by
  rw [hsu.tops]
  refine OrderedMap.nodup_keys_insert ?_ l q
  rw [OrderedMap.keys_erase]
  exact hs.nodup_keys.filter _

section Merges

variable (hs : s.Frontier catalog tables) (hsu : s.Merges l r q u)
  (hpl : s.tops.get? l = some pl) (hpr : s.tops.get? r = some pr) (hne : l ≠ r)

include hs hsu hpl hpr hne

/-- The tables led by `r` are led by `l` afterwards, and all others by their leaders. -/
theorem ledBy_iff_of_merges :
    u.groups.LedBy x y ↔ s.groups.LedBy x r ∧ y = l ∨ s.groups.LedBy x y ∧ y ≠ r := by
  obtain ⟨g, hg, hu⟩ := hsu.groups
  have hl := hs.ledBy_of_get? hpl
  have hr := hs.ledBy_of_get? hpr
  rw [hu, (hg.rooted hs.rooted).ledBy_bind_iff ((hg.ledBy_iff l l).2 hl) ((hg.ledBy_iff r r).2 hr)
    hne, hg.ledBy_iff, hg.ledBy_iff]

/-- The operator that two groups are merged under has to scan the tables of one and then those of
the other. -/
theorem of_merges (hbare : q.Bare catalog)
    (hscan : q.scannedTables = pl.scannedTables ++ pr.scannedTables) :
    u.Frontier catalog tables := by
  have ledBy_iff {x y} := ledBy_iff_of_merges hs hsu hpl hpr hne (x := x) (y := y)
  have htables := tables_eq_of_merges hs hsu hpr
  have hl := hs.ledBy_of_get? hpl
  have ledBy_left {x} : u.groups.LedBy x l ↔ s.groups.LedBy x l ∨ s.groups.LedBy x r := by
    rw [ledBy_iff]
    exact ⟨fun h => h.elim (fun h => .inr h.1) fun h => .inl h.1,
      fun h => h.elim (fun h => .inr ⟨h, hne⟩) fun h => .inl ⟨h, rfl⟩⟩
  refine ⟨fun x hx => ?_, htables ▸ hs.nodup_tables, htables ▸ hs.mem_tables_iff,
    nodup_keys_of_merges hs hsu, fun j => ?_, ?_, ?_, ?_⟩
  · obtain ⟨z, hz⟩ := hs.rooted x (htables ▸ hx)
    obtain rfl | hzr := eq_or_ne z r
    · exact ⟨l, ledBy_left.2 (.inr hz)⟩
    · exact ⟨z, ledBy_iff.2 (.inr ⟨hz, hzr⟩)⟩
  · rw [mem_keys_iff_of_merges hsu hpl hne, hs.mem_keys_iff, ledBy_iff]
    refine ⟨.inr, ?_⟩
    rintro (⟨hj, rfl⟩ | hj)
    · exact ⟨hl, hne⟩
    · exact hj
  · intro j k hk
    obtain ⟨-, rfl⟩ | ⟨-, -, hk⟩ := hsu.get?_iff.1 hk
    · exact hbare
    · exact hs.bare hk
  · intro j k hk
    obtain ⟨-, rfl⟩ | ⟨-, -, hk⟩ := hsu.get?_iff.1 hk
    · rw [hscan, List.nodup_append]
      refine ⟨hs.nodup_scannedTables hpl, hs.nodup_scannedTables hpr, fun x hx y hy => ?_⟩
      rintro rfl
      exact hne (((hs.mem_scannedTables_iff hpl x).1 hx).unique
        ((hs.mem_scannedTables_iff hpr x).1 hy))
    · exact hs.nodup_scannedTables hk
  · intro j k hk x
    obtain ⟨rfl, rfl⟩ | ⟨hjl, hjr, hk⟩ := hsu.get?_iff.1 hk
    · rw [hscan, List.mem_append, hs.mem_scannedTables_iff hpl, hs.mem_scannedTables_iff hpr,
        ledBy_left]
    · rw [hs.mem_scannedTables_iff hk, ledBy_iff]
      exact ⟨fun h => .inr ⟨h, hjr⟩, fun h => h.elim (fun h => absurd h.2 hjl) And.left⟩

end Merges

end Frontier

end BuildState

/-! ### Operations on the frontier -/

namespace BuildM

open Program BuildState

variable {catalog : Catalog} {tables : List String} {s : BuildState}

/-- A step that keeps the frontier passes through one state, which has the invariant. -/
theorem modify_meets {f : BuildState → BuildState} {Q : PUnit → BuildState → Prop}
    (hs : s.Frontier catalog tables) (hf : s.SameFrontier (f s)) (hQ : Q ⟨⟩ (f s)) :
    (modify f : BuildM PUnit).Meets (Frontier catalog tables) s Q :=
  .modify (hs.of_same hf) hQ

theorem record_meets (hs : s.Frontier catalog tables) (e : Event) :
    (record e).Meets (Frontier catalog tables) s fun _ u => s.Unchanged u :=
  have hsame : s.Unchanged { s with events := s.events ++ [e] } := ⟨⟨.refl _, rfl, rfl⟩, rfl⟩
  modify_meets hs hsame.toSameFrontier hsame

theorem setRoot_meets (hs : s.Frontier catalog tables) (p : Plan) :
    (setRoot p).Meets (Frontier catalog tables) s fun _ u =>
      s.SameFrontier u ∧ u.root = some p :=
  have hsame : s.SameFrontier { s with root := some p } := ⟨.refl _, rfl, rfl⟩
  modify_meets hs hsame ⟨hsame, rfl⟩

theorem leaderOf_meets (hs : s.Frontier catalog tables) (table : String) :
    (leaderOf table).Meets (Frontier catalog tables) s fun r u =>
      s.groups.LedBy table r ∧ s.Unchanged u := by
  refine .get_bind ?_
  split
  · rename_i leader groups hfind
    obtain ⟨hleader, hgroups⟩ := hs.rooted.of_find hfind
    have hsame : s.Unchanged { s with groups := groups } := ⟨⟨hgroups, rfl, rfl⟩, rfl⟩
    exact (modify_meets hs hsame.toSameFrontier hsame).bind fun _ _ hu => .pure ⟨hleader, hu⟩
  · exact .fail _

theorem topOf_meets (hs : s.Frontier catalog tables) (table : String) :
    (topOf table).Meets (Frontier catalog tables) s fun p u => s.Top table p ∧ s.Unchanged u := by
  refine (leaderOf_meets hs table).bind fun r t ⟨hr, hst⟩ => .get_bind ?_
  split
  · rename_i p hp
    exact .pure ⟨⟨r, hr, hst.tops ▸ hp⟩, hst⟩
  · exact .fail _

/-- The operator over a table is replaced by one that scans the same tables. -/
theorem setTop_meets (hs : s.Frontier catalog tables) {table r : String} {p q : Plan}
    (hr : s.groups.LedBy table r) (hp : s.tops.get? r = some p) (hbare : q.Bare catalog)
    (hscan : q.scannedTables = p.scannedTables) :
    (setTop table q).Meets (Frontier catalog tables) s fun _ u => s.Raises r q u := by
  refine (leaderOf_meets hs table).bind fun r' t ⟨hr', hst⟩ => ?_
  obtain rfl := hr.unique hr'
  have hraises : s.Raises r q { t with tops := t.tops.insert r q } :=
    hst.raises ⟨.refl _, rfl, rfl⟩
  exact .modify (hs.of_raises hraises hp hbare hscan) hraises

/-- Two groups are merged under an operator that scans the tables of one and then those of the
other. -/
theorem merge_meets (hs : s.Frontier catalog tables) {left right l r : String} {pl pr q : Plan}
    (hl : s.groups.LedBy left l) (hr : s.groups.LedBy right r) (hpl : s.tops.get? l = some pl)
    (hpr : s.tops.get? r = some pr) (hne : l ≠ r) (hbare : q.Bare catalog)
    (hscan : q.scannedTables = pl.scannedTables ++ pr.scannedTables) :
    (merge left right q).Meets (Frontier catalog tables) s fun _ u =>
      s.Merges l r q u ∧ u.joinCount = s.joinCount := by
  refine (leaderOf_meets hs left).bind fun l' t ⟨hl', hst⟩ => ?_
  refine (leaderOf_meets (hs.of_same hst.toSameFrontier) right).bind fun r' v ⟨hr', htv⟩ => ?_
  obtain rfl := hl.unique hl'
  obtain rfl := hr.unique ((hst.groups.ledBy_iff right r').1 hr')
  have hsv := hst.trans htv
  let u : BuildState :=
    { v with groups := v.groups.bind r l, tops := (v.tops.erase r).insert l q }
  have hmerges : s.Merges l r q u := hsv.merges ⟨⟨v.groups, .refl _, rfl⟩, rfl⟩
  exact .modify (hs.of_merges hmerges hpl hpr hne hbare hscan) ⟨hmerges, hsv.joinCount⟩

end BuildM

end QueryPlan
