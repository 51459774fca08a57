import Mathlib
import QueryPlan.Proofs.Join.Edges

/-!
# What a construction reads of its conditions

Of the conditions of a query, a construction reads those that filter one table, in their order, and
those that join two, by the pair of tables. A condition that joins two tables is a *link*: the key
of the pair, and the condition as it stands in the plan. The links determine the conditions of a
join graph, whose edges are listed in the order of their first link.

## Main definitions

* `Condition.filter?`, `Condition.link?` : what a condition is for a construction.
* `JoinGraph.collect` : the conditions of links by their keys.

## Main results

* `JoinGraph.ofConditions_classify` : a list of conditions has a join graph, and its links are what
  this graph holds.
* `JoinGraph.collect_append_cons` : when the place of a link does not matter.
-/

namespace QueryPlan

namespace Condition

variable {c d : Condition}

/-- A condition that does not join two tables, as it stands in a plan. -/
def filter? (c : Condition) : Option Condition := if c.pair? = none then some c.placed else none

/-- A condition that joins two tables, as it stands in a plan, with the key of the pair. -/
def link? (c : Condition) : Option (String × Condition) := c.edge?.map (·, c.placed)

theorem filter?_congr (hpair : c.pair? = d.pair?) (hplaced : c.placed = d.placed) :
    c.filter? = d.filter? := by
  rw [filter?, filter?, hpair, hplaced]

theorem link?_congr (hpair : c.pair? = d.pair?) (hplaced : c.placed = d.placed) :
    c.link? = d.link? := by
  rw [link?, link?, edge?, edge?, hpair, hplaced]

theorem filter?_of_link? {l : String × Condition} (h : c.link? = some l) : c.filter? = none := by
  cases hpair : c.pair? with
  | none => simp [link?, edge?, hpair] at h
  | some p => simp [filter?, hpair]

theorem classify_fst_eq_filterMap (cs : List Condition) :
    (classify cs).1 = cs.filterMap filter? := by
  rw [classify_fst, ← List.filterMap_eq_map, List.filterMap_filter]
  refine List.filterMap_congr fun c _ => ?_
  cases hpair : c.pair? <;> simp [filter?, hpair]

theorem filterMap_edge?_classify_snd (cs : List Condition) :
    (classify cs).2.filterMap edge? = cs.filterMap edge? := by
  have hkind : (edge? ∘ fun c => { c with kind := .join }) = edge? := rfl
  rw [classify, List.filterMap_map, hkind, List.filterMap_filter]
  refine List.filterMap_congr fun c _ => ?_
  cases hpair : c.pair? <;> simp [relatesTables_eq, edge?, hpair]

theorem map_fst_filterMap_link? (cs : List Condition) :
    (cs.filterMap link?).map Prod.fst = cs.filterMap edge? := by
  rw [List.map_filterMap]
  refine List.filterMap_congr fun c _ => ?_
  cases hedge : c.edge? <;> simp [link?, hedge]

theorem classify_snd_eq_nil_iff (cs : List Condition) :
    (classify cs).2 = [] ↔ cs.filterMap link? = [] := by
  simp [classify, relatesTables_eq, List.filterMap_eq_nil_iff, link?, edge?]

theorem exists_pair?_of_relatesTables (h : c.relatesTables = true) : ∃ p, c.pair? = some p :=
  Option.isSome_iff_exists.1 ((relatesTables_eq c).symm.trans h)

theorem flipped?_withKind (h : c.flipped? = some d) (kind : ConditionKind) :
    ({ c with kind := kind } : Condition).flipped? = some { d with kind := kind } := by
  obtain ⟨a, ha, rfl⟩ := Option.map_eq_some_iff.1 h
  exact Option.map_eq_some_iff.2 ⟨a, ha, rfl⟩

/-- The tables of a condition stay the same when its sides are swapped. -/
theorem pair?_of_flipped? (h : c.flipped? = some d) : d.pair? = c.pair? := by
  obtain ⟨a, ha, rfl⟩ := Option.map_eq_some_iff.1 h
  unfold pair?
  rw [ha]
  cases hl : c.lhs.owner? with
  | none => cases a.owner? <;> simp [Operand.column?, hl]
  | some s =>
    cases hr : a.owner? with
    | none => simp [hr]
    | some t => simp [Operand.column?, hl, hr, Pair.ordered_comm t s, eq_comm]

theorem oriented_of_flipped? {p : String × String} (h : c.flipped? = some d)
    (hpair : c.pair? = some p) : d.oriented = c.oriented := by
  obtain ⟨s, t, x, hs, hx, ht, hst, -⟩ := pair?_eq_some hpair
  have hflip := flipped?_flipped? h
  obtain rfl : (⟨x, .column c.lhs, c.comparator.converse, c.kind⟩ : Condition) = d := by
    simpa [flipped?, hx, Operand.column?] using h
  have hc : c.oriented = if t < s then c.flipped?.getD c else c := by
    simp [oriented, hs, hx, ht, Operand.column?]
  rw [hc, h]
  obtain hlt | hlt := lt_or_gt_of_ne hst
  · simp [oriented, hs, ht, Operand.column?, hlt, String.lt_asymm hlt, hflip]
  · simp [oriented, hs, ht, Operand.column?, hlt, String.lt_asymm hlt]

/-- A condition that joins two tables stands in a plan the same way when its sides are swapped. -/
theorem placed_of_flipped? {p : String × String} (h : c.flipped? = some d)
    (hpair : c.pair? = some p) : d.placed = c.placed := by
  obtain ⟨a, b⟩ := p
  rw [placed_of_pair? hpair, placed_of_pair? ((pair?_of_flipped? h).trans hpair)]
  exact oriented_of_flipped? (flipped?_withKind h .join) hpair

end Condition

/-! ### The order of entries -/

namespace OrderedMap

variable {α β : Type} [DecidableEq α] {j k : α}

theorem put_put_of_mem {es : List (α × β)} (hne : j ≠ k)
    (hmem : j ∈ es.map Prod.fst ∨ k ∈ es.map Prod.fst) (v w : β) :
    put j v (put k w es) = put k w (put j v es) := by
  induction es with
  | nil => simp at hmem
  | cons e es ih =>
    obtain ⟨a, b⟩ := e
    by_cases haj : a = j
    · subst haj
      simp [put, hne]
    · by_cases hak : a = k
      · subst hak
        simp [put, haj]
      · have hrest : j ∈ es.map Prod.fst ∨ k ∈ es.map Prod.fst := by
          simpa [Ne.symm haj, Ne.symm hak] using hmem
        simp [put, haj, hak, ih hrest]

/-- Two different keys are bound in any order, as long as one of them is there already. -/
theorem insert_insert_of_mem {m : OrderedMap α β} (hne : j ≠ k) (hmem : j ∈ m.keys ∨ k ∈ m.keys)
    (v w : β) : (m.insert k w).insert j v = (m.insert j v).insert k w :=
  congrArg OrderedMap.mk (put_put_of_mem hne hmem v w)

end OrderedMap

namespace JoinGraph

variable {m : OrderedMap String (List Condition)} {l n : String × Condition}
  {ls before : List (String × Condition)}

/-- The condition of a link is put after the other ones of its key. -/
def enter (m : OrderedMap String (List Condition)) (l : String × Condition) :
    OrderedMap String (List Condition) :=
  m.insert l.1 ((m.get? l.1).getD [] ++ [l.2])

/-- The conditions of links by their keys, in the order of the links. -/
def collect (ls : List (String × Condition)) : OrderedMap String (List Condition) :=
  ls.foldl enter {}

theorem mem_keys_enter {k : String} : k ∈ (enter m l).keys ↔ k = l.1 ∨ k ∈ m.keys :=
  OrderedMap.mem_keys_insert

theorem mem_keys_foldl_enter {k : String} :
    k ∈ (ls.foldl enter m).keys ↔ k ∈ m.keys ∨ ∃ l ∈ ls, l.1 = k := by
  induction ls generalizing m with
  | nil => simp
  | cons l ls ih =>
    rw [List.foldl_cons, ih, mem_keys_enter]
    simp only [List.exists_mem_cons_iff]
    grind

theorem keys_collect_eq_nil_iff : (collect ls).keys = [] ↔ ls = [] := by
  have hkeys (k : String) : k ∈ (collect ls).keys ↔ ∃ l ∈ ls, l.1 = k :=
    mem_keys_foldl_enter.trans (or_iff_right List.not_mem_nil)
  simp [List.eq_nil_iff_forall_not_mem, hkeys]

theorem enter_enter (hne : l.1 ≠ n.1) (hmem : l.1 ∈ m.keys ∨ n.1 ∈ m.keys) :
    enter (enter m l) n = enter (enter m n) l := by
  unfold enter
  rw [OrderedMap.get?_insert_of_ne _ hne, OrderedMap.get?_insert_of_ne _ hne.symm]
  exact OrderedMap.insert_insert_of_mem hne.symm hmem.symm _ _

/-- A link may be entered before others that have other keys, as long as it or all of them have
keys that are there already. -/
theorem foldl_enter_append_singleton (hne : ∀ l ∈ ls, l.1 ≠ n.1)
    (hmem : n.1 ∈ m.keys ∨ ∀ l ∈ ls, l.1 ∈ m.keys) :
    (ls ++ [n]).foldl enter m = (n :: ls).foldl enter m := by
  induction ls generalizing m with
  | nil => rfl
  | cons l ls ih =>
    rw [List.forall_mem_cons] at hne
    have hrest : n.1 ∈ (enter m l).keys ∨ ∀ x ∈ ls, x.1 ∈ (enter m l).keys :=
      hmem.imp (fun h => mem_keys_enter.2 (.inr h)) fun h x hx =>
        mem_keys_enter.2 (.inr (h x (List.mem_cons_of_mem l hx)))
    have hl : l.1 ∈ m.keys ∨ n.1 ∈ m.keys := hmem.symm.imp_left fun h => h l List.mem_cons_self
    rw [List.cons_append, List.foldl_cons, ih hne.2 hrest, List.foldl_cons, enter_enter hne.1 hl]
    rfl

/-- The place of a link among others does not matter when these have other keys and no new key comes
before another one. -/
theorem collect_append_cons (hne : n.1 ∉ ls.map Prod.fst)
    (hmem : n.1 ∈ before.map Prod.fst ∨ ls.map Prod.fst ⊆ before.map Prod.fst)
    (after : List (String × Condition)) :
    collect (before ++ ls ++ n :: after) = collect (before ++ n :: ls ++ after) := by
  have hbefore {k : String} (hk : k ∈ before.map Prod.fst) : k ∈ (before.foldl enter {}).keys :=
    mem_keys_foldl_enter.2 (.inr (List.mem_map.1 hk))
  have hkeys : n.1 ∈ (before.foldl enter {}).keys ∨
      ∀ l ∈ ls, l.1 ∈ (before.foldl enter {}).keys :=
    hmem.imp hbefore fun h l hl => hbefore (h (List.mem_map_of_mem hl))
  have hother : ∀ l ∈ ls, l.1 ≠ n.1 := fun l hl heq => hne (heq ▸ List.mem_map_of_mem hl)
  have hmove := congrArg (after.foldl enter ·) (foldl_enter_append_singleton hother hkeys)
  simpa [collect, List.foldl_append] using hmove

/-- A condition that joins two tables is added to the others of its pair. -/
theorem add_of_pair? {g : JoinGraph} {c : Condition} {p : String × String}
    (hpair : c.pair? = some p) (hjoin : c.isJoin = true) : ∃ edge h, g.add c = .ok (edge, h) := by
  obtain ⟨a, b⟩ := p
  obtain ⟨s, t, x, hs, hx, ht, hst, -⟩ := Condition.pair?_eq_some hpair
  simp only [add, hjoin, hx, hs, ht, hst]
  by_cases hts : t < s
  · exact ⟨_, _, if_pos hts⟩
  · exact ⟨_, _, if_neg hts⟩

theorem foldlM_add_map_snd (cs : List Condition) (hcs : ∀ c ∈ cs, ∃ p, c.pair? = some p)
    (g : JoinGraph) : ∃ h, (cs.map ({ · with kind := .join })).foldlM
      (fun g c => (g.add c).map Prod.snd) g = .ok h ∧
        h.conditions = (cs.filterMap Condition.link?).foldl enter g.conditions := by
  induction cs generalizing g with
  | nil => exact ⟨g, rfl, rfl⟩
  | cons c cs ih =>
    rw [List.forall_mem_cons] at hcs
    obtain ⟨⟨⟨a, b⟩, hpair⟩, hcs⟩ := hcs
    obtain ⟨edge, h, hadd⟩ := add_of_pair? (g := g) (c := { c with kind := .join }) hpair rfl
    obtain ⟨-, hedge, hh⟩ := of_add hadd
    obtain ⟨k, hk, hconditions⟩ := ih hcs h
    have hlink : c.link? = some (edge, c.placed) := by
      have hedge : c.edge? = some edge := hedge
      rw [Condition.link?, hedge]
      rfl
    refine ⟨k, ?_, ?_⟩
    · rw [List.map_cons, List.foldlM_cons, hadd]
      exact hk
    · rw [hconditions, hh, List.filterMap_cons_some hlink, List.foldl_cons,
        Condition.placed_of_pair? hpair]
      rfl

/-- The conditions of a list that join two tables have a graph, which holds their links. -/
theorem ofConditions_classify (cs : List Condition) :
    ∃ g, ofConditions (Condition.classify cs).2 = .ok g ∧
      g.conditions = collect (cs.filterMap Condition.link?) := by
  have hcs : ∀ c ∈ cs.filter Condition.relatesTables, ∃ p, c.pair? = some p := fun c hc =>
    Condition.exists_pair?_of_relatesTables (List.mem_filter.1 hc).2
  obtain ⟨g, hg, hconditions⟩ := foldlM_add_map_snd _ hcs {}
  refine ⟨g, hg, hconditions.trans ?_⟩
  rw [List.filterMap_filter]
  refine congrArg collect (List.filterMap_congr fun c _ => ?_)
  cases hpair : c.pair? <;> simp [Condition.relatesTables_eq, Condition.link?, Condition.edge?,
    hpair]

end JoinGraph

end QueryPlan
