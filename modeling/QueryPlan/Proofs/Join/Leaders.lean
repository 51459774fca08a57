import Mathlib
import QueryPlan.Join.Grouping

/-!
# Leaders of groups

In a grouping the links lead from a table to the leader of its group. A grouping is *rooted* when
they do so from every table. Its links then have no cycle apart from those of the leaders to
themselves, and looking a leader up finds it. Shortening the way to a leader changes the links, but
no table gets another leader; binding a leader to another one moves all tables of its group.

## Main definitions

* `Grouping.Leads`, `Grouping.LedBy` : the way from a table to its leader, with and without its
  length.
* `Grouping.Together` : two tables have one leader.
* `Grouping.Rooted` : the links lead from every table to a leader.
* `Grouping.Acyclic` : the only cycles of the links are those of leaders to themselves.
* `Grouping.SameLeaders` : two groupings with the same leaders of the same tables.

## Main results

* `Grouping.Rooted.acyclic` : a rooted grouping has no cycles.
* `Grouping.Rooted.find_eq_some_iff` : looking a leader up finds it.
* `Grouping.Rooted.of_find` : shortening a way changes no leader.
* `Grouping.Rooted.ledBy_bind_iff` : the leaders after two groups are united.
* `Grouping.Rooted.together_bind_iff` : the tables that are together after two groups are united.
-/

namespace QueryPlan.Grouping

variable {g h : Grouping} {m n : ℕ} {l r s t u x y : String}

/-- From `t`, after `n` links, the leader `r` is reached. -/
inductive Leads (g : Grouping) : ℕ → String → String → Prop
  | leader {r : String} (hr : g.next? r = some r) : Leads g 0 r r
  | follow {n : ℕ} {t u r : String} (ht : g.next? t = some u) (hne : u ≠ t)
      (hu : Leads g n u r) : Leads g (n + 1) t r

/-- The leader of `t` is `r`. -/
def LedBy (g : Grouping) (t r : String) : Prop := ∃ n, g.Leads n t r

/-- Two tables have one leader. -/
def Together (g : Grouping) (t u : String) : Prop := ∃ r, g.LedBy t r ∧ g.LedBy u r

/-- The links lead from every table to a leader. -/
def Rooted (g : Grouping) : Prop := ∀ t ∈ g.tables, ∃ r, g.LedBy t r

/-- A link to another table. -/
def Points (g : Grouping) (t u : String) : Prop := g.next? t = some u ∧ u ≠ t

/-- The links have no cycles, apart from those of leaders to themselves. -/
def Acyclic (g : Grouping) : Prop := ∀ t, ¬ Relation.TransGen g.Points t t

/-- Two groupings have the same tables, and these have the same leaders. -/
structure SameLeaders (g h : Grouping) : Prop where
  tables : h.tables = g.tables
  ledBy_iff : ∀ t r, h.LedBy t r ↔ g.LedBy t r

theorem mem_tables_iff : t ∈ g.tables ↔ ∃ u, g.next? t = some u := by
  rw [← Option.ne_none_iff_exists', Ne, next?, OrderedMap.get?_eq_none_iff, not_not]
  rfl

theorem next?_bind (g : Grouping) (t u x : String) :
    (g.bind t u).next? x = if t = x then some u else g.next? x :=
  g.links.get?_insert t x u

theorem tables_bind_of_mem (ht : t ∈ g.tables) (u : String) : (g.bind t u).tables = g.tables :=
  g.links.keys_insert_of_mem u ht

theorem tables_bind_of_notMem (ht : t ∉ g.tables) (u : String) :
    (g.bind t u).tables = g.tables ++ [t] :=
  g.links.keys_insert_of_not_mem u ht

/-! ### Ways to a leader -/

/-- A way and the leader at its end are determined by where it begins. -/
theorem Leads.unique (hm : g.Leads m t r) (hn : g.Leads n t s) : m = n ∧ r = s := by
  induction hm generalizing n s with
  | leader hr =>
    cases hn with
    | leader => exact ⟨rfl, rfl⟩
    | follow ht hne => exact absurd (Option.some.inj (ht.symm.trans hr)) hne
  | follow ht hne hu ih =>
    cases hn with
    | leader hr => exact absurd (Option.some.inj (ht.symm.trans hr)) hne
    | follow ht' _ hu' =>
      obtain rfl := Option.some.inj (ht.symm.trans ht')
      obtain ⟨rfl, rfl⟩ := ih hu'
      exact ⟨rfl, rfl⟩

theorem Leads.next?_leader (hn : g.Leads n t r) : g.next? r = some r := by
  induction hn with
  | leader hr => exact hr
  | follow _ _ _ ih => exact ih

theorem Leads.mem_tables (hn : g.Leads n t r) : t ∈ g.tables := by
  cases hn with
  | leader hr => exact mem_tables_iff.2 ⟨_, hr⟩
  | follow ht _ _ => exact mem_tables_iff.2 ⟨_, ht⟩

theorem ledBy_self_iff : g.LedBy r r ↔ g.next? r = some r :=
  ⟨fun ⟨_, hn⟩ => hn.next?_leader, fun hr => ⟨0, .leader hr⟩⟩

theorem LedBy.unique (hr : g.LedBy t r) (hs : g.LedBy t s) : r = s :=
  (hr.choose_spec.unique hs.choose_spec).2

theorem LedBy.mem_tables (hr : g.LedBy t r) : t ∈ g.tables := hr.choose_spec.mem_tables

theorem LedBy.leader (hr : g.LedBy t r) : g.LedBy r r :=
  ledBy_self_iff.2 hr.choose_spec.next?_leader

theorem LedBy.leader_mem_tables (hr : g.LedBy t r) : r ∈ g.tables := hr.leader.mem_tables

/-- A table follows its link to the leader of the table that it is bound to. -/
theorem LedBy.follow (hu : g.LedBy u r) (ht : g.next? t = some u) : g.LedBy t r := by
  obtain rfl | hne := eq_or_ne u t
  · exact hu
  · exact ⟨_, .follow ht hne hu.choose_spec⟩

/-- Along a cycle the way to the leader would be shorter than itself. -/
theorem Rooted.acyclic (hg : g.Rooted) : g.Acyclic := by
  have shorter {t u : String} (htu : Relation.TransGen g.Points t u) :
      ∀ {n r}, g.Leads n t r → ∃ m < n, g.Leads m u r := by
    have step {t u n r} (htu : g.Points t u) (hn : g.Leads n t r) : ∃ m < n, g.Leads m u r := by
      cases hn with
      | leader hr => exact absurd (Option.some.inj (htu.1.symm.trans hr)) htu.2
      | @follow m _ v _ ht _ hv =>
        obtain rfl := Option.some.inj (htu.1.symm.trans ht)
        exact ⟨m, m.lt_succ_self, hv⟩
    induction htu with
    | single hp => exact step hp
    | tail _ hp ih =>
      intro n r hn
      obtain ⟨m, hmn, hm⟩ := ih hn
      obtain ⟨k, hkm, hk⟩ := step hp hm
      exact ⟨k, hkm.trans hmn, hk⟩
  intro t hcycle
  have ht : t ∈ g.tables := by
    obtain ⟨u, htu, -⟩ := Relation.TransGen.head'_iff.1 hcycle
    exact mem_tables_iff.2 ⟨u, htu.1⟩
  obtain ⟨r, n, hn⟩ := hg t ht
  obtain ⟨m, hmn, hm⟩ := shorter hcycle hn
  exact hmn.ne (hm.unique hn).1

/-! ### The same leaders -/

theorem SameLeaders.refl (g : Grouping) : g.SameLeaders g := ⟨rfl, fun _ _ => Iff.rfl⟩

theorem SameLeaders.trans {k : Grouping} (hgh : g.SameLeaders h) (hhk : h.SameLeaders k) :
    g.SameLeaders k :=
  ⟨hhk.tables.trans hgh.tables, fun t r => (hhk.ledBy_iff t r).trans (hgh.ledBy_iff t r)⟩

theorem SameLeaders.together_iff (hgh : g.SameLeaders h) :
    h.Together x y ↔ g.Together x y := by
  simp only [Together, hgh.ledBy_iff]

theorem SameLeaders.rooted (hgh : g.SameLeaders h) (hg : g.Rooted) : h.Rooted := fun t ht =>
  (hg t (hgh.tables ▸ ht)).imp fun r hr => (hgh.ledBy_iff t r).2 hr

/-- Binding a table to its leader only shortens ways. -/
theorem SameLeaders.bind_leader (htr : g.LedBy t r) : g.SameLeaders (g.bind t r) := by
  have forth {n x y} (hn : (g.bind t r).Leads n x y) : g.LedBy x y := by
    induction hn with
    | @leader y hy =>
      obtain rfl | hty := eq_or_ne t y
      · rw [next?_bind, if_pos rfl] at hy
        obtain rfl := Option.some.inj hy
        exact htr
      · rw [next?_bind, if_neg hty] at hy
        exact ledBy_self_iff.2 hy
    | @follow n x u y hx hne _ ih =>
      obtain rfl | htx := eq_or_ne t x
      · rw [next?_bind, if_pos rfl] at hx
        obtain rfl := Option.some.inj hx
        obtain rfl := htr.leader.unique ih
        exact htr
      · rw [next?_bind, if_neg htx] at hx
        exact ih.follow hx
  have hr : (g.bind t r).LedBy r r := by
    rw [ledBy_self_iff, next?_bind]
    split
    · rfl
    · exact ledBy_self_iff.1 htr.leader
  have back {n x y} (hn : g.Leads n x y) : (g.bind t r).LedBy x y := by
    induction hn with
    | @leader y hy =>
      obtain rfl | hty := eq_or_ne t y
      · exact htr.unique (ledBy_self_iff.2 hy) ▸ hr
      · exact ledBy_self_iff.2 (by rw [next?_bind, if_neg hty, hy])
    | @follow n x u y hx hne hu ih =>
      obtain rfl | htx := eq_or_ne t x
      · obtain rfl := htr.unique ⟨_, .follow hx hne hu⟩
        exact hr.follow (by rw [next?_bind, if_pos rfl])
      · exact ih.follow (by rw [next?_bind, if_neg htx, hx])
  exact ⟨tables_bind_of_mem htr.mem_tables r,
    fun x y => ⟨fun ⟨_, hn⟩ => forth hn, fun ⟨_, hn⟩ => back hn⟩⟩

/-! ### Looking a leader up -/

/-- The links that were not followed yet suffice for the rest of the way, as no shorter way passes
through the table that it begins at. -/
theorem Leads.findAlong (hn : g.Leads n t r) {links : OrderedMap String String}
    (hlinks : ∀ m ≤ n, ∀ u, g.Leads m u r → links.get? u = g.next? u) :
    ∃ h, g.findAlong links t = some (r, h) ∧ g.SameLeaders h := by
  induction hn generalizing links with
  | @leader r hr =>
    refine ⟨g, ?_, .refl g⟩
    have hl := hlinks 0 le_rfl r (.leader hr)
    rw [hr] at hl
    rw [Grouping.findAlong]
    split
    · simp_all
    · simp_all
  | @follow n t u r ht hne hu ih =>
    have hlead := Leads.follow ht hne hu
    have hl := (hlinks _ le_rfl t hlead).trans ht
    have hrest : ∀ m ≤ n, ∀ v, g.Leads m v r → (links.erase t).get? v = g.next? v := by
      intro m hm v hv
      have hvt : t ≠ v := by
        rintro rfl
        have := (hv.unique hlead).1
        omega
      rw [OrderedMap.get?_erase, if_neg hvt]
      exact hlinks m (by omega) v hv
    obtain ⟨h, hfind, hsame⟩ := ih hrest
    refine ⟨h.bind t r, ?_, hsame.trans (.bind_leader ((hsame.ledBy_iff t r).2 ⟨_, hlead⟩))⟩
    rw [Grouping.findAlong]
    split
    · simp_all
    · rename_i next hnext
      obtain rfl := Option.some.inj (hl.symm.trans hnext)
      rw [if_neg hne, hfind]
      rfl

theorem LedBy.find (hr : g.LedBy t r) : ∃ h, g.find t = some (r, h) ∧ g.SameLeaders h :=
  hr.choose_spec.findAlong fun _ _ _ _ => rfl

theorem find_of_notMem (ht : t ∉ g.tables) : g.find t = none := by
  have hnone : g.links.get? t = none := (g.links.get?_eq_none_iff t).2 ht
  rw [find, findAlong]
  split
  · rfl
  · simp_all

/-- Looking a leader up finds it, and only changes the links. -/
theorem Rooted.of_find (hg : g.Rooted) (hfind : g.find t = some (r, h)) :
    g.LedBy t r ∧ g.SameLeaders h := by
  by_cases ht : t ∈ g.tables
  · obtain ⟨s, hs⟩ := hg t ht
    obtain ⟨k, hk, hsame⟩ := hs.find
    obtain ⟨rfl, rfl⟩ : s = r ∧ k = h := by simpa using hk.symm.trans hfind
    exact ⟨hs, hsame⟩
  · simp [find_of_notMem ht] at hfind

/-- The tables that a leader is found for are those that it leads. -/
theorem Rooted.find_eq_some_iff (hg : g.Rooted) :
    (∃ h, g.find t = some (r, h)) ↔ g.LedBy t r :=
  ⟨fun ⟨_, hfind⟩ => (hg.of_find hfind).1, fun hr => hr.find.imp fun _ hh => hh.1⟩

/-! ### Uniting groups -/

/-- Binding the leader `r` to the leader `l` moves the tables led by `r` to `l`, and no others. -/
theorem Rooted.ledBy_bind_iff (hg : g.Rooted) (hl : g.LedBy l l) (hr : g.LedBy r r) (hne : l ≠ r) :
    (g.bind r l).LedBy x y ↔ g.LedBy x r ∧ y = l ∨ g.LedBy x y ∧ y ≠ r := by
  have hl' : (g.bind r l).LedBy l l := by
    rw [ledBy_self_iff, next?_bind, if_neg hne.symm]
    exact ledBy_self_iff.1 hl
  have moved {n x} (hn : g.Leads n x r) : (g.bind r l).LedBy x l := by
    induction hn with
    | leader hr => exact hl'.follow (by rw [next?_bind, if_pos rfl])
    | @follow n x u r hx hxu hu ih =>
      have hrx : r ≠ x := by
        rintro rfl
        exact hxu (Option.some.inj (hx.symm.trans (ledBy_self_iff.1 hr)))
      exact (ih hr hne hl').follow (by rw [next?_bind, if_neg hrx, hx])
  have kept {n x z} (hn : g.Leads n x z) (hz : z ≠ r) : (g.bind r l).LedBy x z := by
    induction hn with
    | @leader z hz' => exact ledBy_self_iff.2 (by rw [next?_bind, if_neg hz.symm, hz'])
    | @follow n x u z hx hxu hu ih =>
      have hrx : r ≠ x := by
        rintro rfl
        exact hxu (Option.some.inj (hx.symm.trans (ledBy_self_iff.1 hr)))
      exact (ih hz).follow (by rw [next?_bind, if_neg hrx, hx])
  constructor
  · intro h
    have hx : x ∈ g.tables := by
      have := h.mem_tables
      rwa [tables_bind_of_mem hr.mem_tables] at this
    obtain ⟨z, hz⟩ := hg x hx
    obtain rfl | hzr := eq_or_ne z r
    · exact .inl ⟨hz, h.unique (moved hz.choose_spec)⟩
    · obtain rfl := (kept hz.choose_spec hzr).unique h
      exact .inr ⟨hz, hzr⟩
  · rintro (⟨hx, rfl⟩ | ⟨hx, hy⟩)
    · exact moved hx.choose_spec
    · exact kept hx.choose_spec hy

/-- Two tables are together after two groups are united if they were before, or if one was in each
of these groups. -/
theorem Rooted.together_bind_iff (hg : g.Rooted) (hl : g.LedBy l l) (hr : g.LedBy r r)
    (hne : l ≠ r) :
    (g.bind r l).Together x y ↔
      g.Together x y ∨ g.LedBy x l ∧ g.LedBy y r ∨ g.LedBy x r ∧ g.LedBy y l := by
  simp only [Together, hg.ledBy_bind_iff hl hr hne]
  constructor
  · rintro ⟨z, ⟨hx, rfl⟩ | ⟨hx, hxz⟩, ⟨hy, hyz⟩ | ⟨hy, hyz⟩⟩
    · exact .inl ⟨r, hx, hy⟩
    · exact .inr (.inr ⟨hx, hy⟩)
    · exact .inr (.inl ⟨hyz ▸ hx, hy⟩)
    · exact .inl ⟨z, hx, hy⟩
  · rintro (⟨z, hx, hy⟩ | ⟨hx, hy⟩ | ⟨hx, hy⟩)
    · obtain rfl | hz := eq_or_ne z r
      · exact ⟨l, .inl ⟨hx, rfl⟩, .inl ⟨hy, rfl⟩⟩
      · exact ⟨z, .inr ⟨hx, hz⟩, .inr ⟨hy, hz⟩⟩
    · exact ⟨l, .inr ⟨hx, hne⟩, .inl ⟨hy, rfl⟩⟩
    · exact ⟨l, .inl ⟨hx, rfl⟩, .inr ⟨hy, hne⟩⟩

end QueryPlan.Grouping
