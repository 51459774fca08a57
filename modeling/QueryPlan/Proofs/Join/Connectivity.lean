import Mathlib
import QueryPlan.Proofs.Join.Calls
import QueryPlan.Proofs.Join.Components

/-!
# Components as classes of connected tables

The components of a join graph that is built by calls are the classes of listed tables that paths of
edges connect. Such a path may pass through tables that are not listed. The groups are read off in
the order of the list, so each comes at the place of its first table: the keys of the groups are the
leaders of the listed tables, in the order in which they first occur.

## Main results

* `Grouping.Rooted.keys_collect` : the order of the groups.
* `JoinGraph.Records.linked_iff` : connected tables are those between which a path of edges leads.
* `JoinGraph.components_connected` : the components of a graph that is built by calls.
-/

namespace QueryPlan

/-- The different elements of a list come in the order of the places at which they first occur. -/
theorem pairwise_idxOf_eraseDups {α : Type} [BEq α] [LawfulBEq α] (l : List α) :
    l.eraseDups.Pairwise fun x y => l.idxOf x < l.idxOf y := by
  induction l using List.reverseRecOn with
  | nil => exact .nil
  | append_singleton l x ih =>
    have hold {y : α} (hy : y ∈ l) : (l ++ [x]).idxOf y = l.idxOf y := by
      rw [List.idxOf_append, if_pos hy]
    have hkept : l.eraseDups.Pairwise fun y z => (l ++ [x]).idxOf y < (l ++ [x]).idxOf z := by
      refine ih.imp_of_mem fun {y z} hy hz hlt => ?_
      rwa [hold (List.mem_eraseDups.1 hy), hold (List.mem_eraseDups.1 hz)]
    rw [eraseDups_concat]
    split
    · exact hkept
    · rename_i hx
      refine List.pairwise_append.2 ⟨hkept, List.pairwise_singleton _ _, fun y hy z hz => ?_⟩
      obtain rfl := List.mem_singleton.1 hz
      have hy := List.mem_eraseDups.1 hy
      rw [hold hy, List.idxOf_append, if_neg hx]
      have hlt := List.idxOf_lt_length_of_mem hy
      omega

namespace Grouping

variable {g h : Grouping} {R : String → String → Prop} {tables : List String}

/-- The groups are keyed by the leaders of the tables, in the order in which these first occur. -/
theorem Rooted.keys_collect {groups : OrderedMap String (List String)}
    {rest leaders : List String} (hg : g.Rooted) (hrest : ∀ t ∈ rest, t ∈ g.tables)
    (hgh : g.SameLeaders h) (hkeys : groups.keys = leaders.eraseDups) :
    ∃ others, List.Forall₂ g.LedBy rest others ∧
      (h.collect groups rest).keys = (leaders ++ others).eraseDups := by
  induction rest generalizing h groups leaders with
  | nil => exact ⟨[], .nil, by rw [List.append_nil]; exact hkeys⟩
  | cons t rest ih =>
    obtain ⟨r, hr⟩ := hg t (hrest t List.mem_cons_self)
    have hr' := (hgh.ledBy_iff t r).2 hr
    obtain ⟨k, hfind, hsame⟩ := hr'.find
    have hlocate : h.locate t = (r, k) := by
      rw [Grouping.locate, add_of_mem hr'.mem_tables, hfind]
      rfl
    have hinsert (members : List String) :
        (groups.insert r members).keys = (leaders ++ [r]).eraseDups := by
      rw [eraseDups_concat, ← hkeys]
      split
      · rename_i hmem
        exact OrderedMap.keys_insert_of_mem _ _ (hkeys ▸ List.mem_eraseDups.2 hmem)
      · rename_i hmem
        exact OrderedMap.keys_insert_of_not_mem _ _ fun hr =>
          hmem (List.mem_eraseDups.1 (hkeys ▸ hr))
    obtain ⟨others, hothers, hall⟩ := ih (fun x hx => hrest x (List.mem_cons_of_mem t hx))
      (hgh.trans hsame) (hinsert _)
    refine ⟨r :: others, .cons hr hothers, ?_⟩
    rw [collect, hlocate, List.append_cons]
    exact hall

/-- The first table of a group stands where its leader first occurs among those of the tables. -/
theorem findIdx_eq_idxOf {leaders : List String} (hleaders : List.Forall₂ g.LedBy tables leaders)
    {r : String} {k : List String} (hk : ∀ x ∈ tables, x ∈ k ↔ g.LedBy x r) :
    tables.findIdx (· ∈ k) = leaders.idxOf r := by
  induction hleaders with
  | nil => rfl
  | @cons t l tables leaders hl _ ih =>
    obtain ⟨ht, htables⟩ := List.forall_mem_cons.1 hk
    have hmem : t ∈ k ↔ l = r := ht.trans ⟨fun hr => hl.unique hr, fun hlr => hlr ▸ hl⟩
    rw [List.findIdx_cons, List.idxOf_cons, ih htables]
    by_cases hlr : l = r
    · simp [hmem, hlr]
    · simp [hmem, hlr, beq_eq_false_iff_ne.2 hlr]

theorem Collects.mem_entry_iff {groups : OrderedMap String (List String)}
    (hgroups : g.Collects tables groups) {e : String × List String} (he : e ∈ groups.entries)
    (x : String) : x ∈ e.2 ↔ x ∈ tables ∧ g.LedBy x e.1 :=
  hgroups.mem_iff (OrderedMap.get?_of_mem_entries hgroups.nodup_keys he) x

theorem mem_groups_iff {k : List String} :
    k ∈ g.groups tables ↔ ∃ e ∈ (g.collect {} tables).entries, e.2 = k := by
  rw [groups, OrderedMap.values, List.mem_map]

/-- The groups of the listed tables are the classes of those that are connected. -/
theorem Tracks.groups_classes (hg : g.Tracks R tables) :
    (∀ k ∈ g.groups tables, k ≠ [] ∧ k.Nodup) ∧
      (g.groups tables).Pairwise List.Disjoint ∧
      (∀ t, t ∈ tables ↔ ∃ k ∈ g.groups tables, t ∈ k) ∧
      ∀ x ∈ tables, ∀ y ∈ tables, (∃ k ∈ g.groups tables, x ∈ k ∧ y ∈ k) ↔
        Relation.EqvGen R x y := by
  have hall := hg.collects
  have hown {x} (hx : x ∈ tables) : ∃ k ∈ g.groups tables, x ∈ k := by
    obtain ⟨r, hr⟩ := hg.rooted x (hg.subset hx)
    obtain ⟨k, hk⟩ := OrderedMap.mem_keys_iff.1 ((hall.mem_keys_iff r).2 ⟨x, hx, hr⟩)
    exact ⟨k, OrderedMap.mem_values_of_get? hk, (hall.mem_iff hk x).2 ⟨hx, hr⟩⟩
  refine ⟨fun k hk => ?_, ?_, fun t => ⟨hown, ?_⟩, fun x hx y hy => ?_⟩
  · obtain ⟨e, he, rfl⟩ := mem_groups_iff.1 hk
    have hkey : e.1 ∈ (g.collect {} tables).keys := List.mem_map_of_mem he
    obtain ⟨x, hx, hr⟩ := (hall.mem_keys_iff e.1).1 hkey
    exact ⟨List.ne_nil_of_mem ((hall.mem_entry_iff he x).2 ⟨hx, hr⟩),
      hall.nodup (OrderedMap.get?_of_mem_entries hall.nodup_keys he)⟩
  · rw [Grouping.groups, OrderedMap.values, List.pairwise_map]
    refine (List.pairwise_map.1 hall.nodup_keys).imp_of_mem fun {e f} he hf hne x hxe hxf => ?_
    exact hne (((hall.mem_entry_iff he x).1 hxe).2.unique ((hall.mem_entry_iff hf x).1 hxf).2)
  · rintro ⟨k, hk, ht⟩
    obtain ⟨e, he, rfl⟩ := mem_groups_iff.1 hk
    exact ((hall.mem_entry_iff he t).1 ht).1
  · obtain ⟨r, hr⟩ := hg.rooted x (hg.subset hx)
    rw [← hg.connects.together_iff hr]
    constructor
    · rintro ⟨k, hk, hxk, hyk⟩
      obtain ⟨e, he, rfl⟩ := mem_groups_iff.1 hk
      exact ⟨e.1, ((hall.mem_entry_iff he x).1 hxk).2, ((hall.mem_entry_iff he y).1 hyk).2⟩
    · intro hxy
      obtain ⟨k, hk, hxk⟩ := hown hx
      obtain ⟨e, he, rfl⟩ := mem_groups_iff.1 hk
      have hx := ((hall.mem_entry_iff he x).1 hxk).2
      exact ⟨e.2, hk, hxk, (hall.mem_entry_iff he y).2 ⟨hy, hxy.ledBy hx⟩⟩

/-- The groups of the listed tables come in the order of their first tables. -/
theorem Tracks.groups_in_order (hg : g.Tracks R tables) :
    (g.groups tables).Pairwise fun k k' =>
      tables.findIdx (· ∈ k) < tables.findIdx (· ∈ k') := by
  have hempty : ({} : OrderedMap String (List String)).keys = [].eraseDups := rfl
  obtain ⟨leaders, hleaders, hkeys⟩ :=
    hg.rooted.keys_collect (fun t ht => hg.subset ht) (.refl g) hempty
  have hplace {e} (he : e ∈ (g.collect {} tables).entries) :
      tables.findIdx (· ∈ e.2) = leaders.idxOf e.1 :=
    findIdx_eq_idxOf hleaders fun x hx => (hg.collects.mem_entry_iff he x).trans (and_iff_right hx)
  have horder := pairwise_idxOf_eraseDups leaders
  rw [List.nil_append] at hkeys
  rw [← hkeys, OrderedMap.keys, List.pairwise_map] at horder
  rw [Grouping.groups, OrderedMap.values, List.pairwise_map]
  refine horder.imp_of_mem fun {e f} he hf hlt => ?_
  rwa [hplace he, hplace hf]

end Grouping

namespace JoinGraph

variable {g : JoinGraph} {taken : List Condition} {tables : List String} {x y : String}

/-- The edge of two tables is listed exactly if one of the listed edges is read as this pair. -/
theorem Records.key_mem_edges_iff (hg : g.Records taken)
    (hnames : ∀ c ∈ taken, ∀ t ∈ c.tables, '|' ∉ t.toList) :
    Pair.key x y ∈ g.edges ↔ Adjacent g.edges x y ∨ Adjacent g.edges y x := by
  have hkey {x y} (hxy : Adjacent g.edges x y) : Pair.key x y ∈ g.edges := by
    obtain ⟨edge, hedge, hsplit⟩ := hxy
    obtain ⟨c, hc, hce⟩ := (hg.mem_edges_iff edge).1 hedge
    obtain ⟨p, hpair, rfl⟩ := Option.map_eq_some_iff.1 hce
    have hread := Condition.split?_of_tables (hnames c hc) hpair
    obtain rfl := Option.some.inj (hread.symm.trans hsplit)
    exact hedge
  constructor
  · intro hedge
    obtain ⟨c, hc, hce⟩ := (hg.mem_edges_iff _).1 hedge
    have hpair := (Condition.edge?_eq_key_iff (hnames c hc)).1 hce
    have hsplit := Condition.split?_of_tables (hnames c hc) hpair
    rw [Pair.key_ordered] at hsplit
    unfold Pair.ordered at hsplit
    split at hsplit
    · exact .inr ⟨_, hedge, hsplit⟩
    · exact .inl ⟨_, hedge, hsplit⟩
  · rintro (hxy | hyx)
    · exact hkey hxy
    · exact Pair.key_comm y x ▸ hkey hyx

/-- Connected tables are those between which a path of edges leads. -/
theorem Records.linked_iff (hg : g.Records taken)
    (hnames : ∀ c ∈ taken, ∀ t ∈ c.tables, '|' ∉ t.toList) :
    Linked g.edges x y ↔ Relation.ReflTransGen (fun s t => Pair.key s t ∈ g.edges) x y := by
  have hedges : (fun s t => Pair.key s t ∈ g.edges) = Relation.SymmGen (Adjacent g.edges) := by
    ext s t
    exact hg.key_mem_edges_iff hnames
  rw [hedges, Relation.EqvGen.reflTransGen_symmGen]

/-- The components of a graph that is built by calls, for any list of tables: they are not empty,
disjoint and cover the listed tables, two of which are in one component exactly if a path of edges
leads from one to the other, and they come in the order of their first tables. -/
theorem components_connected (cs : List Condition)
    (hnames : ∀ c ∈ cs, ∀ t ∈ c.tables, '|' ∉ t.toList) (tables : List String) :
    (∀ k ∈ (after {} cs).components tables, k ≠ [] ∧ k.Nodup) ∧
      ((after {} cs).components tables).Pairwise List.Disjoint ∧
      (∀ t, t ∈ tables ↔ ∃ k ∈ (after {} cs).components tables, t ∈ k) ∧
      (∀ x ∈ tables, ∀ y ∈ tables, (∃ k ∈ (after {} cs).components tables, x ∈ k ∧ y ∈ k) ↔
        Relation.ReflTransGen (fun s t => Pair.key s t ∈ (after {} cs).edges) x y) ∧
      ((after {} cs).components tables).Pairwise fun k k' =>
        tables.findIdx (· ∈ k) < tables.findIdx (· ∈ k') := by
  have hg := records_after cs
  have hnames' : ∀ c ∈ accepted {} cs, ∀ t ∈ c.tables, '|' ∉ t.toList := by
    rw [accepted_eq_filter]
    exact fun c hc => hnames c (List.mem_filter.1 hc).1
  have htracks := (after {} cs).tracks_components tables
  obtain ⟨hnodup, hdisjoint, hcover, hsame⟩ := htracks.groups_classes
  refine ⟨hnodup, hdisjoint, hcover, fun x hx y hy => ?_, htracks.groups_in_order⟩
  exact (hsame x hx y hy).trans (hg.linked_iff hnames')

/-- In a graph with the edges from `A` to `B` and from `B` to `C`, of which `B` is not listed, the
tables `C` and `A` are in one component, and `D` is alone. -/
theorem components_connected_sample :
    (∀ c ∈ Sample.calls, ∀ t ∈ c.tables, '|' ∉ t.toList) ∧
      (after {} Sample.calls).components ["C", "D", "A", "C"] = [["C", "A"], ["D"]] ∧
      Relation.ReflTransGen (fun s t => Pair.key s t ∈ (after {} Sample.calls).edges) "C" "A" ∧
      ¬ Relation.ReflTransGen (fun s t => Pair.key s t ∈ (after {} Sample.calls).edges)
        "D" "A" := by
  have hnames : ∀ c ∈ Sample.calls, ∀ t ∈ c.tables, '|' ∉ t.toList := by decide +kernel
  have hcomponents :
      (after {} Sample.calls).components ["C", "D", "A", "C"] = [["C", "A"], ["D"]] := by
    decide +kernel
  obtain ⟨-, -, -, hsame, -⟩ := components_connected Sample.calls hnames ["C", "D", "A", "C"]
  rw [hcomponents] at hsame
  exact ⟨hnames, hcomponents, (hsame "C" (by simp) "A" (by simp)).1 (by simp),
    fun h => by simpa using (hsame "D" (by simp) "A" (by simp)).2 h⟩

end JoinGraph

end QueryPlan
