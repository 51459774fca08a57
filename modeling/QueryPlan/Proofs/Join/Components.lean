import Mathlib
import QueryPlan.Proofs.Join.Edges
import QueryPlan.Proofs.Join.Leaders

/-!
# Components of a join graph

Two tables are connected when a path of edges leads from one to the other. A grouping *connects* by
given edges when the tables that have one leader are those that are connected by them. Uniting the
groups of the two tables of an edge adds this edge to those that the grouping connects by, and so
does leaving a grouping as it is in which the two tables are together already. The components of a
graph are hence the classes of connected tables.

## Main definitions

* `JoinGraph.Adjacent` : two tables are those of an edge.
* `JoinGraph.Linked` : two tables are connected by edges.
* `Grouping.Connects` : the tables that have one leader are those that are connected.

## Main results

* `Grouping.Rooted.connects_bind`, `Grouping.Connects.of_together` : an edge more.
* `Grouping.Tracks.groups` : the groups of a grouping are those of its leaders.
* `JoinGraph.tracks_components` : the grouping that the components of a graph are read off.
-/

namespace QueryPlan

section Closure

open Relation

variable {α : Type} {R : α → α → Prop} {s t x y : α}

/-- Elements that are connected by one more edge are connected through it, if not without it. -/
theorem eqvGen_or_iff : EqvGen (fun a b => R a b ∨ a = s ∧ b = t) x y ↔
    EqvGen R x y ∨ EqvGen R x s ∧ EqvGen R t y ∨ EqvGen R x t ∧ EqvGen R s y := by
  have more {x y} (h : EqvGen R x y) : EqvGen (fun a b => R a b ∨ a = s ∧ b = t) x y :=
    h.mono fun _ _ => .inl
  have edge : EqvGen (fun a b => R a b ∨ a = s ∧ b = t) s t := .rel s t (.inr ⟨rfl, rfl⟩)
  constructor
  · intro h
    induction h with
    | rel x y h =>
      obtain h | ⟨rfl, rfl⟩ := h
      · exact .inl (.rel x y h)
      · exact .inr (.inl ⟨.refl x, .refl y⟩)
    | refl x => exact .inl (.refl x)
    | symm x y _ ih =>
      obtain h | ⟨hx, hy⟩ | ⟨hx, hy⟩ := ih
      · exact .inl (.symm x y h)
      · exact .inr (.inr ⟨.symm t y hy, .symm x s hx⟩)
      · exact .inr (.inl ⟨.symm s y hy, .symm x t hx⟩)
    | trans x y z _ _ ihxy ihyz =>
      obtain hxy | ⟨hx, hy⟩ | ⟨hx, hy⟩ := ihxy
      · obtain hyz | ⟨hy, hz⟩ | ⟨hy, hz⟩ := ihyz
        · exact .inl (.trans x y z hxy hyz)
        · exact .inr (.inl ⟨.trans x y s hxy hy, hz⟩)
        · exact .inr (.inr ⟨.trans x y t hxy hy, hz⟩)
      · obtain hyz | ⟨_, hz⟩ | ⟨_, hz⟩ := ihyz
        · exact .inr (.inl ⟨hx, .trans t y z hy hyz⟩)
        · exact .inr (.inl ⟨hx, hz⟩)
        · exact .inl (.trans x s z hx hz)
      · obtain hyz | ⟨_, hz⟩ | ⟨_, hz⟩ := ihyz
        · exact .inr (.inr ⟨hx, .trans s y z hy hyz⟩)
        · exact .inl (.trans x t z hx hz)
        · exact .inr (.inr ⟨hx, hz⟩)
  · rintro (h | ⟨hx, hy⟩ | ⟨hx, hy⟩)
    · exact more h
    · exact .trans x s y (more hx) (.trans s t y edge (more hy))
    · exact .trans x t y (more hx) (.trans t s y (.symm s t edge) (more hy))

end Closure

namespace Grouping

variable {g h : Grouping} {R : String → String → Prop} {l r s t x y : String}

/-- The tables that have one leader are those that are connected. A table that is not listed is
connected to itself alone. -/
def Connects (g : Grouping) (R : String → String → Prop) : Prop :=
  ∀ x y, (x = y ∨ g.Together x y) ↔ Relation.EqvGen R x y

theorem Together.symm (hxy : g.Together x y) : g.Together y x :=
  hxy.imp fun _ ⟨hx, hy⟩ => ⟨hy, hx⟩

theorem Together.ledBy (hxy : g.Together x y) (hx : g.LedBy x r) : g.LedBy y r := by
  obtain ⟨z, hxz, hyz⟩ := hxy
  exact hx.unique hxz ▸ hyz

theorem Connects.of_same (hg : g.Connects R) (hgh : g.SameLeaders h) : h.Connects R :=
  fun x y => by rw [hgh.together_iff, hg]

/-- Listed tables have one leader when they are connected. -/
theorem Connects.together_iff (hg : g.Connects R) (hx : g.LedBy x r) :
    g.Together x y ↔ Relation.EqvGen R x y := by
  rw [← hg]
  refine ⟨.inr, ?_⟩
  rintro (rfl | h)
  · exact ⟨r, hx, hx⟩
  · exact h

/-- An edge of two tables that are together connects no more tables. -/
theorem Connects.of_together (hg : g.Connects R) (hst : g.Together s t) :
    g.Connects fun x y => R x y ∨ x = s ∧ y = t := by
  intro x y
  have hedge := (hg s t).1 (.inr hst)
  rw [eqvGen_or_iff, hg]
  refine ⟨.inl, ?_⟩
  rintro (h | ⟨hx, hy⟩ | ⟨hx, hy⟩)
  · exact h
  · exact .trans x s y hx (.trans s t y hedge hy)
  · exact .trans x t y hx (.trans t s y (.symm s t hedge) hy)

/-- Uniting the groups of two tables connects by the edge between them. -/
theorem Rooted.connects_bind (hg : g.Rooted) (hR : g.Connects R) (hs : g.LedBy s l)
    (ht : g.LedBy t r) (hne : l ≠ r) : (g.bind r l).Connects fun x y => R x y ∨ x = s ∧ y = t := by
  intro x y
  have ledBy_iff {x z w} (hx : g.LedBy z w) : g.LedBy x w ↔ Relation.EqvGen R x z := by
    rw [← hR]
    constructor
    · exact fun h => .inr ⟨w, h, hx⟩
    · rintro (rfl | h)
      · exact hx
      · exact h.symm.ledBy hx
  have symm {x y} : Relation.EqvGen R x y ↔ Relation.EqvGen R y x :=
    ⟨.symm x y, .symm y x⟩
  rw [eqvGen_or_iff, hg.together_bind_iff hs.leader ht.leader hne, ledBy_iff hs, ledBy_iff hs,
    ledBy_iff ht, ledBy_iff ht, ← or_assoc, hR, symm (x := t) (y := y), symm (x := s) (y := y)]

/-! ### Adding and looking up tables -/

theorem add_of_mem (ht : t ∈ g.tables) : g.add t = g := by
  obtain ⟨u, hu⟩ := mem_tables_iff.1 ht
  have hcontains : g.links.contains t = true := Option.isSome_iff_exists.2 ⟨u, hu⟩
  rw [add, if_pos hcontains]

theorem add_of_notMem (ht : t ∉ g.tables) : g.add t = g.bind t t := by
  have hcontains : ¬ g.links.contains t = true := fun h => ht <| by
    obtain ⟨u, hu⟩ := Option.isSome_iff_exists.1 h
    exact mem_tables_iff.2 ⟨u, hu⟩
  rw [add, if_neg hcontains]

/-- A new table leads itself, and all others are led as before. -/
theorem Rooted.ledBy_bind_self_iff (hg : g.Rooted) (ht : t ∉ g.tables) :
    (g.bind t t).LedBy x y ↔ g.LedBy x y ∨ x = t ∧ y = t := by
  have hne {z u} (hz : g.next? z = some u) : t ≠ z := by
    rintro rfl
    exact ht (mem_tables_iff.2 ⟨u, hz⟩)
  have kept {n x y} (hn : g.Leads n x y) : (g.bind t t).LedBy x y := by
    induction hn with
    | leader hr => exact ledBy_self_iff.2 (by rw [next?_bind, if_neg (hne hr), hr])
    | follow hx _ _ ih => exact ih.follow (by rw [next?_bind, if_neg (hne hx), hx])
  constructor
  · intro h
    obtain rfl | hx := eq_or_ne x t
    · refine .inr ⟨rfl, h.unique (ledBy_self_iff.2 ?_)⟩
      rw [next?_bind, if_pos rfl]
    · obtain ⟨u, hu⟩ := mem_tables_iff.1 h.mem_tables
      rw [next?_bind, if_neg hx.symm] at hu
      obtain ⟨z, hz⟩ := hg x (mem_tables_iff.2 ⟨u, hu⟩)
      exact .inl (h.unique (kept hz.choose_spec) ▸ hz)
  · rintro (h | ⟨rfl, rfl⟩)
    · exact kept h.choose_spec
    · exact ledBy_self_iff.2 (by rw [next?_bind, if_pos rfl])

theorem Rooted.ledBy_add (hg : g.Rooted) (hxy : g.LedBy x y) (t : String) :
    (g.add t).LedBy x y := by
  by_cases ht : t ∈ g.tables
  · rwa [add_of_mem ht]
  · rw [add_of_notMem ht, hg.ledBy_bind_self_iff ht]
    exact .inl hxy

/-- What it takes for a grouping to hold the components of a graph so far. -/
structure Tracks (g : Grouping) (R : String → String → Prop) (tables : List String) : Prop where
  rooted : g.Rooted
  connects : g.Connects R
  subset : tables ⊆ g.tables

variable {tables : List String}

theorem Tracks.of_same (hg : g.Tracks R tables) (hgh : g.SameLeaders h) : h.Tracks R tables :=
  ⟨hgh.rooted hg.rooted, hg.connects.of_same hgh, hgh.tables ▸ hg.subset⟩

/-- A table that is added is connected to no other one. -/
theorem Tracks.add (hg : g.Tracks R tables) (t : String) : (g.add t).Tracks R (t :: tables) := by
  by_cases ht : t ∈ g.tables
  · rw [add_of_mem ht]
    exact ⟨hg.rooted, hg.connects, List.cons_subset.2 ⟨ht, hg.subset⟩⟩
  · have ledBy_iff {x y} := hg.rooted.ledBy_bind_self_iff ht (x := x) (y := y)
    have htables := tables_bind_of_notMem ht t
    rw [add_of_notMem ht]
    refine ⟨fun x hx => ?_, fun x y => ?_, ?_⟩
    · rw [htables, List.mem_append, List.mem_singleton] at hx
      obtain hx | rfl := hx
      · exact (hg.rooted x hx).imp fun r hr => ledBy_iff.2 (.inl hr)
      · exact ⟨x, ledBy_iff.2 (.inr ⟨rfl, rfl⟩)⟩
    · rw [← hg.connects]
      simp only [Together, ledBy_iff]
      constructor
      · rintro (rfl | ⟨z, hx | ⟨rfl, rfl⟩, hy | ⟨rfl, hz⟩⟩)
        · exact .inl rfl
        · exact .inr ⟨z, hx, hy⟩
        · exact absurd (hz ▸ hx.leader_mem_tables) ht
        · exact absurd hy.leader_mem_tables ht
        · exact .inl rfl
      · rintro (rfl | ⟨z, hx, hy⟩)
        · exact .inl rfl
        · exact .inr ⟨z, .inl hx, .inl hy⟩
    · rw [htables]
      exact List.cons_subset.2 ⟨by simp, fun x hx => List.mem_append_left _ (hg.subset hx)⟩

/-- The leader of a table is located, and tables keep their leaders. -/
theorem Tracks.locate (hg : g.Tracks R tables) (t : String) :
    (g.add t).LedBy t (g.locate t).1 ∧ (g.add t).SameLeaders (g.locate t).2 := by
  have hadd := hg.add t
  obtain ⟨r, hr⟩ := hadd.rooted t (hadd.subset List.mem_cons_self)
  obtain ⟨h, hfind, hsame⟩ := hr.find
  rw [Grouping.locate, hfind]
  exact ⟨hr, hsame⟩

/-- Connecting two tables adds the edge between them. -/
theorem Tracks.connect (hg : g.Tracks R tables) (s t : String) :
    (g.connect s t).Tracks (fun x y => R x y ∨ x = s ∧ y = t) tables := by
  obtain ⟨hs, hsame₁⟩ := hg.locate s
  have hg₁ := (hg.add s).of_same hsame₁
  obtain ⟨ht, hsame₂⟩ := hg₁.locate t
  have hg₂ := (hg₁.add t).of_same hsame₂
  have hs₂ := (hsame₂.ledBy_iff _ _).2 (hg₁.rooted.ledBy_add ((hsame₁.ledBy_iff _ _).2 hs) t)
  have ht₂ := (hsame₂.ledBy_iff _ _).2 ht
  have hsubset {x} (hx : x ∈ tables) : x ∈ ((g.locate s).2.locate t).2.tables :=
    hg₂.subset (List.mem_cons_of_mem t (List.mem_cons_of_mem s hx))
  change Tracks (if (g.locate s).1 = ((g.locate s).2.locate t).1 then ((g.locate s).2.locate t).2
    else ((g.locate s).2.locate t).2.bind ((g.locate s).2.locate t).1 (g.locate s).1) _ tables
  split
  · rename_i heq
    refine ⟨hg₂.rooted, hg₂.connects.of_together ⟨_, hs₂, heq ▸ ht₂⟩, fun x hx => hsubset hx⟩
  · rename_i hne
    have htables := tables_bind_of_mem ht₂.leader_mem_tables (g.locate s).1
    refine ⟨fun x hx => ?_, hg₂.rooted.connects_bind hg₂.connects hs₂ ht₂ hne, fun x hx => ?_⟩
    · rw [htables] at hx
      obtain ⟨z, hz⟩ := hg₂.rooted x hx
      have ledBy_iff {y} := hg₂.rooted.ledBy_bind_iff hs₂.leader ht₂.leader hne (x := x) (y := y)
      obtain rfl | hzr := eq_or_ne z ((g.locate s).2.locate t).1
      · exact ⟨_, ledBy_iff.2 (.inl ⟨hz, rfl⟩)⟩
      · exact ⟨z, ledBy_iff.2 (.inr ⟨hz, hzr⟩)⟩
    · rw [htables]
      exact hsubset hx

/-- A grouping of tables that are all alone connects none of them. -/
theorem connects_of_alone (halone : ∀ {t r}, g.LedBy t r → r = t) :
    g.Connects fun _ _ => False := by
  intro x y
  constructor
  · rintro (rfl | ⟨z, hx, hy⟩)
    · exact .refl x
    · exact halone hx ▸ halone hy ▸ .refl z
  · intro h
    left
    induction h with
    | rel _ _ h => exact h.elim
    | refl => rfl
    | symm _ _ _ ih => exact ih.symm
    | trans _ _ _ _ _ ihxy ihyz => exact ihxy.trans ihyz

theorem tracks_ofTables (tables : List String) :
    (ofTables tables).Tracks (fun _ _ => False) tables := by
  have main (done rest : List String) {g : Grouping} (hg : g.Tracks (fun _ _ => False) done) :
      (rest.foldl Grouping.add g).Tracks (fun _ _ => False) (rest.reverse ++ done) := by
    induction rest generalizing g done with
    | nil => exact hg
    | cons t rest ih =>
      rw [List.reverse_cons, List.append_assoc]
      exact ih (t :: done) (hg.add t)
  have hempty : Tracks {} (fun _ _ => False) [] := by
    refine ⟨nofun, connects_of_alone fun hr => ?_, nofun⟩
    cases hr.mem_tables
  have h := main [] tables hempty
  exact ⟨h.rooted, h.connects, fun x hx => h.subset (by simpa using hx)⟩

/-! ### Reading the groups off -/

theorem nodup_append_unless {members : List String} (hmembers : members.Nodup) (t : String) :
    (if members.contains t then members else members ++ [t]).Nodup := by
  split
  · exact hmembers
  · rename_i hnot
    rw [List.contains_iff_mem] at hnot
    rw [← List.concat_eq_append, List.nodup_concat]
    exact ⟨hnot, hmembers⟩

theorem mem_append_unless_iff {members : List String} {t x : String} :
    x ∈ (if members.contains t then members else members ++ [t]) ↔ x ∈ members ∨ x = t := by
  split
  · rename_i hcontains
    refine ⟨.inl, ?_⟩
    rintro (hx | rfl)
    · exact hx
    · exact List.contains_iff_mem.1 hcontains
  · rw [List.mem_append, List.mem_singleton]

/-- The groups of some tables by their leaders. -/
structure Collects (g : Grouping) (tables : List String)
    (groups : OrderedMap String (List String)) : Prop where
  nodup_keys : groups.keys.Nodup
  mem_keys_iff : ∀ r, r ∈ groups.keys ↔ ∃ x ∈ tables, g.LedBy x r
  nodup : ∀ {r k}, groups.get? r = some k → k.Nodup
  mem_iff : ∀ {r k}, groups.get? r = some k → ∀ x, x ∈ k ↔ x ∈ tables ∧ g.LedBy x r

theorem Collects.mem_getD_iff {groups : OrderedMap String (List String)}
    (hgroups : g.Collects tables groups) (l x : String) :
    x ∈ (groups.get? l).getD [] ↔ x ∈ tables ∧ g.LedBy x l := by
  cases hl : groups.get? l with
  | none =>
    have hnot : ¬ ∃ x ∈ tables, g.LedBy x l := by
      rw [← hgroups.mem_keys_iff, ← OrderedMap.get?_eq_none_iff]
      exact hl
    exact iff_of_false List.not_mem_nil fun hx => hnot ⟨x, hx⟩
  | some k => exact hgroups.mem_iff hl x

theorem Collects.nodup_getD {groups : OrderedMap String (List String)}
    (hgroups : g.Collects tables groups) (l : String) : ((groups.get? l).getD []).Nodup := by
  cases hl : groups.get? l with
  | none => exact .nil
  | some k => exact hgroups.nodup hl

/-- The tables of a leader when one table more is listed. -/
theorem LedBy.mem_concat_iff (ht : g.LedBy t l) {r x : String} :
    x ∈ tables ++ [t] ∧ g.LedBy x r ↔ (x ∈ tables ∧ g.LedBy x r) ∨ x = t ∧ l = r := by
  rw [List.mem_append, List.mem_singleton, or_and_right]
  refine or_congr_right ⟨?_, ?_⟩
  · rintro ⟨rfl, hr⟩
    exact ⟨rfl, ht.unique hr⟩
  · rintro ⟨rfl, rfl⟩
    exact ⟨rfl, ht⟩

/-- A table is added to those of its leader. -/
theorem Collects.insert {groups : OrderedMap String (List String)}
    (hgroups : g.Collects tables groups) (ht : g.LedBy t l) :
    g.Collects (tables ++ [t]) (groups.insert l
      (if ((groups.get? l).getD []).contains t then (groups.get? l).getD []
        else (groups.get? l).getD [] ++ [t])) := by
  refine ⟨OrderedMap.nodup_keys_insert hgroups.nodup_keys _ _, fun r => ?_, fun {r k} hk => ?_,
    fun {r k} hk x => ?_⟩
  · simp only [OrderedMap.mem_keys_insert, hgroups.mem_keys_iff, ht.mem_concat_iff, exists_or,
      exists_eq_left]
    rw [or_comm, eq_comm]
  · rw [OrderedMap.get?_insert] at hk
    split at hk
    · obtain rfl := Option.some.inj hk
      exact nodup_append_unless (hgroups.nodup_getD l) t
    · exact hgroups.nodup hk
  · rw [OrderedMap.get?_insert] at hk
    rw [ht.mem_concat_iff]
    split at hk
    · rename_i hlr
      obtain rfl := Option.some.inj hk
      rw [mem_append_unless_iff, hgroups.mem_getD_iff, hlr, and_iff_left rfl]
    · rename_i hlr
      rw [hgroups.mem_iff hk, or_iff_left fun h => hlr h.2]

theorem Collects.of_collect {groups : OrderedMap String (List String)} {done rest : List String}
    (hg : g.Rooted) (hrest : ∀ t ∈ rest, t ∈ g.tables) (hgh : g.SameLeaders h)
    (hgroups : g.Collects done groups) : g.Collects (done ++ rest) (h.collect groups rest) := by
  induction rest generalizing done h groups with
  | nil =>
    rw [List.append_nil]
    exact hgroups
  | cons t rest ih =>
    obtain ⟨r, hr⟩ := hg t (hrest t List.mem_cons_self)
    have hr' := (hgh.ledBy_iff t r).2 hr
    obtain ⟨k, hfind, hsame⟩ := hr'.find
    have hlocate : h.locate t = (r, k) := by
      rw [Grouping.locate, add_of_mem hr'.mem_tables, hfind]
      rfl
    rw [collect, hlocate, List.append_cons]
    exact ih (fun x hx => hrest x (List.mem_cons_of_mem t hx)) (hgh.trans hsame)
      (hgroups.insert hr)

/-- The groups that are read off a grouping are those of the listed tables. -/
theorem Tracks.collects (hg : g.Tracks R tables) : g.Collects tables (g.collect {} tables) := by
  have hnil : g.Collects [] {} := ⟨.nil, fun r => iff_of_false nofun (by simp), nofun, nofun⟩
  exact hnil.of_collect hg.rooted (fun t ht => hg.subset ht) (.refl g)

/-- The groups of the listed tables: for each of some different leaders, the tables that it leads.
-/
theorem Tracks.groups (hg : g.Tracks R tables) : ∃ leaders : List String, leaders.Nodup ∧
    (∀ r, r ∈ leaders ↔ ∃ x ∈ tables, g.LedBy x r) ∧
    List.Forall₂ (fun r k => k.Nodup ∧ ∀ x, x ∈ k ↔ x ∈ tables ∧ g.LedBy x r) leaders
      (g.groups tables) := by
  have hall := hg.collects
  refine ⟨_, hall.nodup_keys, hall.mem_keys_iff, ?_⟩
  rw [OrderedMap.keys, Grouping.groups, OrderedMap.values, List.forall₂_map_left_iff,
    List.forall₂_map_right_iff, List.forall₂_same]
  intro e he
  have hget := OrderedMap.get?_of_mem_entries hall.nodup_keys he
  exact ⟨hall.nodup hget, hall.mem_iff hget⟩

/-- Two groupings that connect by the same relation have the same number of leaders over tables that
both list. -/
theorem Connects.length_leaders_le (hg : g.Connects R) (hh : h.Connects R) {ls ms : List String}
    (hls : ls.Nodup) (hled : ∀ x ∈ tables, ∃ r, h.LedBy x r)
    (hg_leads : ∀ r ∈ ls, ∃ x ∈ tables, g.LedBy x r)
    (hh_leads : ∀ r, (∃ x ∈ tables, h.LedBy x r) → r ∈ ms) : ls.length ≤ ms.length := by
  rw [← List.toFinset_card_of_nodup hls]
  refine le_trans (Finset.card_le_card_of_forall_subsingleton
    (fun r r' => ∃ x ∈ tables, g.LedBy x r ∧ h.LedBy x r') (fun r hr => ?_)
    fun r' _ r₁ h₁ r₂ h₂ => ?_) ms.toFinset_card_le
  · obtain ⟨x, hx, hxr⟩ := hg_leads r (List.mem_toFinset.1 hr)
    obtain ⟨r', hxr'⟩ := hled x hx
    exact ⟨r', List.mem_toFinset.2 (hh_leads r' ⟨x, hx, hxr'⟩), x, hx, hxr, hxr'⟩
  · obtain ⟨-, x, -, hx, hx'⟩ := h₁
    obtain ⟨-, y, -, hy, hy'⟩ := h₂
    have hxy := (hh x y).1 (.inr ⟨r', hx', hy'⟩)
    exact (((hg.together_iff hx).2 hxy).ledBy hx).unique hy

end Grouping

namespace JoinGraph

variable {graph : JoinGraph} {edges tables : List String} {edge a b : String}

/-- Two tables are those of one of the edges. -/
def Adjacent (edges : List String) (x y : String) : Prop :=
  ∃ edge ∈ edges, Pair.split? edge = some (x, y)

/-- Two tables are connected by edges. -/
abbrev Linked (edges : List String) : String → String → Prop := Relation.EqvGen (Adjacent edges)

theorem adjacent_nil : Adjacent [] = fun _ _ => False := by
  ext x y
  simp [Adjacent]

theorem adjacent_append_iff (hsplit : Pair.split? edge = some (a, b)) {x y : String} :
    Adjacent (edges ++ [edge]) x y ↔ Adjacent edges x y ∨ x = a ∧ y = b := by
  simp [Adjacent, or_and_right, exists_or, hsplit, eq_comm]

theorem tracks_connectAll {g : Grouping} {done : List String}
    (hg : g.Tracks (Adjacent done) tables) (edges : List String) :
    (connectAll g edges).Tracks (Adjacent (done ++ edges)) tables := by
  induction edges generalizing g done with
  | nil =>
    rw [List.append_nil]
    exact hg
  | cons edge edges ih =>
    rw [List.append_cons]
    unfold connectAll
    split
    · rename_i s t hsplit
      refine ih ?_
      have hiff : Adjacent (done ++ [edge]) = fun x y => Adjacent done x y ∨ x = s ∧ y = t := by
        ext x y
        exact adjacent_append_iff hsplit
      rw [hiff]
      exact hg.connect s t
    · rename_i hsplit
      refine ih ?_
      have hiff : Adjacent (done ++ [edge]) = Adjacent done := by
        ext x y
        simp [Adjacent, or_and_right, exists_or, hsplit]
      rw [hiff]
      exact hg

/-- The grouping that the components are read off. -/
theorem tracks_components (graph : JoinGraph) (tables : List String) :
    (connectAll (Grouping.ofTables tables) graph.edges).Tracks (Adjacent graph.edges) tables := by
  have h := Grouping.tracks_ofTables tables
  rw [← adjacent_nil] at h
  exact tracks_connectAll h graph.edges

end JoinGraph

end QueryPlan
