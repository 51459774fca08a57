import Mathlib
import QueryPlan.Join.Graph
import QueryPlan.Proofs.Program

/-!
# Edges of a join graph

A condition that joins two tables belongs to the edge of this pair of tables, where it is stored
with the smaller table on its left side. The edges of a graph are those of its conditions, each
once, and an edge holds its conditions in the order in which they were added.

The key of an edge can be read as a pair of tables whenever no table has the sign of the separator
in its name.

## Main definitions

* `Condition.pair?` : the two tables that a condition joins, the smaller one first.
* `Condition.oriented` : a condition with the smaller table on its left side.
* `JoinGraph.Holds` : the edges of a graph are those of the given conditions.

## Main results

* `Pair.ordered_of_split?` : the two names in the key of a pair are those of the pair.
* `JoinGraph.holds_ofConditions` : a graph holds the conditions that it is made of.
-/

namespace QueryPlan

namespace Pair

variable {s t a b : String}

theorem splitChars?_append {left : List Char} (hleft : '|' ∉ left) (right : List Char) :
    splitChars? (left ++ separator ++ right) = some (left, right) := by
  induction left with
  | nil => rfl
  | cons c left ih =>
    rw [List.mem_cons, not_or] at hleft
    have hprefix : separator.isPrefixOf (c :: (left ++ separator ++ right)) = false := by
      simp [separator, List.isPrefixOf, hleft.1]
    rw [List.cons_append, List.cons_append, splitChars?, hprefix, ih hleft.2]
    rfl

theorem append_of_splitChars? {cs left right : List Char}
    (h : splitChars? cs = some (left, right)) : cs = left ++ separator ++ right := by
  induction cs generalizing left with
  | nil => cases h
  | cons c cs ih =>
    rw [splitChars?] at h
    split at h
    · rename_i hprefix
      obtain ⟨rest, hrest⟩ := List.isPrefixOf_iff_prefix.1 hprefix
      obtain ⟨rfl, rfl⟩ := Prod.mk.inj (Option.some.inj h)
      rw [← hrest]
      obtain ⟨-, rfl⟩ := List.cons.inj hrest
      rfl
    · obtain ⟨⟨l, r⟩, hsplit, heq⟩ := Option.map_eq_some_iff.1 h
      obtain ⟨rfl, rfl⟩ := Prod.mk.inj heq
      rw [ih hsplit]
      rfl

theorem toList_key (s t : String) :
    (key s t).toList = (ordered s t).1.toList ++ separator ++ (ordered s t).2.toList := by
  simp [key]

/-- A text with no more than the three signs of a separator can only be read in one way. -/
theorem ordered_of_split? (h : split? (key s t) = some (a, b)) (ha : '|' ∉ a.toList)
    (hb : '|' ∉ b.toList) : ordered s t = (a, b) := by
  obtain ⟨⟨left, right⟩, hsplit, heq⟩ := Option.map_eq_some_iff.1 h
  obtain ⟨rfl, rfl⟩ := Prod.mk.inj heq
  rw [String.toList_ofList] at ha hb
  rw [toList_key] at hsplit
  have hcount := congrArg (List.count '|') (append_of_splitChars? hsplit)
  simp only [List.count_append, List.count_eq_zero.2 ha, List.count_eq_zero.2 hb] at hcount
  have hfirst : '|' ∉ (ordered s t).1.toList := by
    rw [← List.count_eq_zero]
    omega
  rw [splitChars?_append hfirst] at hsplit
  obtain ⟨rfl, rfl⟩ := Prod.mk.inj (Option.some.inj hsplit)
  simp

theorem key_ordered (s t : String) : key (ordered s t).1 (ordered s t).2 = key s t := by
  unfold ordered
  split
  · exact key_comm t s
  · rfl

end Pair

namespace Condition

variable {c : Condition} {a b : String}

/-- The two different tables whose columns a condition compares, the smaller one first. -/
def pair? (c : Condition) : Option (String × String) :=
  match c.lhs.owner?, c.rhs.column?.bind Attribute.owner? with
  | some s, some t => if s = t then none else some (Pair.ordered s t)
  | _, _ => none

/-- The condition with the smaller one of its two tables on the left side. -/
def oriented (c : Condition) : Condition :=
  match c.lhs.owner?, c.rhs.column?.bind Attribute.owner? with
  | some s, some t => if t < s then c.flipped?.getD c else c
  | _, _ => c

/-- The key of the pair of tables that a condition joins. -/
def edge? (c : Condition) : Option String := c.pair?.map fun p => Pair.key p.1 p.2

theorem relatesTables_eq (c : Condition) : c.relatesTables = c.pair?.isSome := by
  obtain ⟨lhs, rhs, comparator, kind⟩ := c
  unfold relatesTables tables pair?
  cases rhs with
  | column a =>
    cases lhs.owner? with
    | none => cases hr : a.owner? <;> simp [Operand.column?, hr]
    | some s =>
      cases hr : a.owner? with
      | none => simp [Operand.column?, hr]
      | some t => by_cases hst : s = t <;> simp [Operand.column?, hr, hst]
  | integer | real | text => cases lhs.owner? <;> simp [Operand.column?]

/-- The two sides of a condition that joins two tables. -/
theorem pair?_eq_some (h : c.pair? = some (a, b)) : ∃ s t x, c.lhs.owner? = some s ∧
    c.rhs = .column x ∧ x.owner? = some t ∧ s ≠ t ∧ Pair.ordered s t = (a, b) := by
  unfold pair? at h
  split at h
  · rename_i s t hs ht
    split at h
    · cases h
    · rename_i hst
      obtain ⟨x, hx, hxt⟩ := Option.bind_eq_some_iff.1 ht
      cases hrhs : c.rhs with
      | column y =>
        obtain rfl : y = x := by simpa [hrhs, Operand.column?] using hx
        exact ⟨s, t, y, hs, rfl, hxt, hst, Option.some.inj h⟩
      | integer | real | text => simp [hrhs, Operand.column?] at hx
  · cases h

theorem lt_of_pair? (h : c.pair? = some (a, b)) : a < b := by
  obtain ⟨s, t, -, -, -, -, hst, hordered⟩ := pair?_eq_some h
  unfold Pair.ordered at hordered
  split at hordered
  · rename_i hts
    obtain ⟨rfl, rfl⟩ := Prod.mk.inj hordered
    exact hts
  · rename_i hts
    obtain ⟨rfl, rfl⟩ := Prod.mk.inj hordered
    exact lt_of_le_of_ne (String.not_lt.1 hts) hst

/-- An oriented condition compares a column of the smaller table with one of the larger table. -/
theorem oriented_owners (h : c.pair? = some (a, b)) : c.oriented.lhs.owner? = some a ∧
    ∃ x, c.oriented.rhs = .column x ∧ x.owner? = some b := by
  obtain ⟨s, t, x, hs, hrhs, ht, hst, hordered⟩ := pair?_eq_some h
  have horiented : c.oriented = if t < s then c.flipped?.getD c else c := by
    simp [oriented, hs, hrhs, ht, Operand.column?]
  rw [horiented]
  unfold Pair.ordered at hordered
  split at hordered
  · obtain ⟨rfl, rfl⟩ := Prod.mk.inj hordered
    simp [flipped?, Operand.column?, *]
  · obtain ⟨rfl, rfl⟩ := Prod.mk.inj hordered
    simp [*]

/-- A condition that joins two tables joins the same ones after it is turned round. -/
theorem pair?_oriented (h : c.pair? = some (a, b)) : c.oriented.pair? = some (a, b) := by
  obtain ⟨ha, x, hx, hb⟩ := oriented_owners h
  have hlt := lt_of_pair? h
  simp [pair?, ha, hx, hb, Operand.column?, hlt.ne, Pair.ordered, String.lt_asymm hlt]

/-- The pair of tables of a condition is the one that the key of its edge is read as. -/
theorem pair?_of_edge? {edge : String} (h : c.edge? = some edge)
    (hsplit : Pair.split? edge = some (a, b)) (ha : '|' ∉ a.toList) (hb : '|' ∉ b.toList) :
    c.pair? = some (a, b) := by
  obtain ⟨⟨s, t⟩, hpair, rfl⟩ := Option.map_eq_some_iff.1 h
  have hordered : Pair.ordered s t = (s, t) := if_neg (String.lt_asymm (lt_of_pair? hpair))
  rw [hpair, ← hordered, Pair.ordered_of_split? hsplit ha hb]

/-- The condition as it stands in a plan: a condition that joins two tables with the smaller table
on its left side, any other one as a selection. -/
def placed (c : Condition) : Condition :=
  if c.relatesTables then oriented { c with kind := .join } else { c with kind := .select }

theorem placed_of_pair? (h : c.pair? = some (a, b)) :
    c.placed = oriented { c with kind := .join } := by
  rw [placed, relatesTables_eq, h]
  rfl

theorem placed_of_pair?_eq_none (h : c.pair? = none) : c.placed = { c with kind := .select } := by
  rw [placed, relatesTables_eq, h]
  rfl

/-- The conditions that join two tables, as a join graph holds them, are those of the list in the
place that they take in a plan. -/
theorem map_oriented_classify (cs : List Condition) :
    (classify cs).2.map oriented = (cs.filter fun c => c.pair?.isSome).map placed := by
  rw [classify, List.map_map]
  simp only [relatesTables_eq]
  refine List.map_congr_left fun c hc => ?_
  obtain ⟨⟨a, b⟩, hpair⟩ := Option.isSome_iff_exists.1 (List.mem_filter.1 hc).2
  exact (placed_of_pair? hpair).symm

theorem classify_fst (cs : List Condition) :
    (classify cs).1 = (cs.filter fun c => c.pair?.isNone).map placed := by
  rw [classify]
  simp only [relatesTables_eq, Option.not_isSome]
  refine List.map_congr_left fun c hc => ?_
  exact (placed_of_pair?_eq_none (Option.isNone_iff_eq_none.1 (List.mem_filter.1 hc).2)).symm

end Condition

namespace JoinGraph

variable {g h : JoinGraph} {c : Condition} {cs : List Condition} {edge : String}

/-- The edges of a graph are those of the conditions, each once, and hold their oriented conditions
in order. All conditions join two tables. -/
structure Holds (g : JoinGraph) (cs : List Condition) : Prop where
  pair : ∀ c ∈ cs, ∃ p, c.pair? = some p
  nodup_edges : g.edges.Nodup
  mem_edges_iff : ∀ edge, edge ∈ g.edges ↔ ∃ c ∈ cs, c.edge? = some edge
  conditionsOf : ∀ edge, g.conditionsOf edge =
    (cs.filter fun c => c.edge? = some edge).map Condition.oriented

/-- Different edges hold different conditions. -/
theorem Holds.edge_unique (hg : g.Holds cs) {e : String} (hedge : edge ∈ g.edges)
    (heq : g.conditionsOf edge = g.conditionsOf e) : edge = e := by
  have key {c : Condition} (hc : c ∈ cs) : c.oriented.edge? = c.edge? := by
    obtain ⟨⟨a, b⟩, hpair⟩ := hg.pair c hc
    rw [Condition.edge?, Condition.pair?_oriented hpair, Condition.edge?, hpair]
  obtain ⟨c, hc, hce⟩ := (hg.mem_edges_iff edge).1 hedge
  have hmem : c.oriented ∈ g.conditionsOf e := by
    rw [← heq, hg.conditionsOf]
    exact List.mem_map_of_mem (List.mem_filter.2 ⟨hc, by simpa using hce⟩)
  rw [hg.conditionsOf] at hmem
  obtain ⟨d, hd, hdc⟩ := List.mem_map.1 hmem
  obtain ⟨hd, hde⟩ := List.mem_filter.1 hd
  have hde : d.edge? = some e := by simpa using hde
  rw [← key hd, hdc, key hc, hce] at hde
  exact Option.some.inj hde

/-- A condition that is added joins two tables, and is put into the graph the right way round. -/
theorem addOriented_of_add (hadd : g.add c = .ok (edge, h)) :
    c.isJoin = true ∧ ∃ a b, c.pair? = some (a, b) ∧ edge = Pair.key a b ∧
      h = (g.addOriented a b c.oriented).2 := by
  unfold add at hadd
  split at hadd
  · cases hadd
  · rename_i hjoin
    refine ⟨by simpa using hjoin, ?_⟩
    split at hadd
    · rename_i x hrhs
      split at hadd
      · rename_i s t hs ht
        split at hadd
        · cases hadd
        · rename_i hst
          split at hadd
          · rename_i hts
            refine ⟨t, s, ?_, ?_⟩
            · simp [Condition.pair?, hs, hrhs, ht, Operand.column?, hst, Pair.ordered, hts]
            · have horiented : c.oriented = c.flipped?.getD c := by
                simp [Condition.oriented, hs, hrhs, ht, Operand.column?, hts]
              rw [horiented]
              exact Prod.mk.inj (Except.ok.inj hadd).symm
          · rename_i hts
            refine ⟨s, t, ?_, ?_⟩
            · simp [Condition.pair?, hs, hrhs, ht, Operand.column?, hst, Pair.ordered, hts]
            · have horiented : c.oriented = c := by
                simp [Condition.oriented, hs, hrhs, ht, Operand.column?, hts]
              rw [horiented]
              exact Prod.mk.inj (Except.ok.inj hadd).symm
      · cases hadd
    · cases hadd

/-- What a condition adds to a graph. -/
theorem of_add (hadd : g.add c = .ok (edge, h)) : (∃ p, c.pair? = some p) ∧
    c.edge? = some edge ∧
      h.conditions = g.conditions.insert edge (g.conditionsOf edge ++ [c.oriented]) := by
  obtain ⟨-, a, b, hpair, rfl, rfl⟩ := addOriented_of_add hadd
  exact ⟨⟨_, hpair⟩, by rw [Condition.edge?, hpair]; rfl, rfl⟩

theorem conditionsOf_insert {conditions : OrderedMap String (List Condition)}
    (hh : h.conditions = conditions.insert edge cs) (e : String) :
    h.conditionsOf e = if edge = e then cs else (conditions.get? e).getD [] := by
  rw [conditionsOf, hh, OrderedMap.get?_insert]
  split <;> rfl

/-- A condition is added to its edge, which is listed once. -/
theorem Holds.add (hg : g.Holds cs) (hadd : g.add c = .ok (edge, h)) : h.Holds (cs ++ [c]) := by
  obtain ⟨hpair, hedge, hh⟩ := of_add hadd
  refine ⟨?_, ?_, fun e => ?_, fun e => ?_⟩
  · intro d hd
    obtain hd | hd := List.mem_append.1 hd
    · exact hg.pair d hd
    · exact List.mem_singleton.1 hd ▸ hpair
  · rw [edges, hh]
    exact OrderedMap.nodup_keys_insert hg.nodup_edges _ _
  · rw [edges, hh, OrderedMap.mem_keys_insert]
    have hmem := hg.mem_edges_iff e
    rw [edges] at hmem
    rw [hmem]
    simp only [List.mem_append, List.mem_singleton, or_and_right, exists_or, exists_eq_left, hedge,
      Option.some.injEq]
    rw [or_comm, eq_comm]
  · rw [conditionsOf_insert hh, List.filter_append, List.map_append]
    split
    · rename_i heq
      subst heq
      simp [hg.conditionsOf, hedge]
    · rename_i hne
      simp only [hedge, Option.some.injEq, hne, decide_false, Bool.false_eq_true,
        not_false_eq_true, List.filter_cons_of_neg, List.filter_nil, List.map_nil, List.append_nil]
      exact hg.conditionsOf e

theorem holds_foldlM {ds : List Condition} (hg : g.Holds cs)
    (hfold : ds.foldlM (fun g c => (g.add c).map Prod.snd) g = .ok h) : h.Holds (cs ++ ds) := by
  induction ds generalizing g cs with
  | nil =>
    cases hfold
    rwa [List.append_nil]
  | cons c ds ih =>
    rw [List.foldlM_cons] at hfold
    obtain ⟨k, hk, hfold⟩ := bind_eq_ok_iff.1 hfold
    obtain ⟨⟨edge, k'⟩, hadd, rfl⟩ := map_eq_ok_iff.1 hk
    rw [List.append_cons]
    exact ih (hg.add hadd) hfold

theorem holds_ofConditions (h : ofConditions cs = .ok g) : g.Holds cs := by
  have hbegin : Holds {} [] := ⟨nofun, .nil, fun _ => by simp, fun _ => rfl⟩
  exact holds_foldlM hbegin h

end JoinGraph

end QueryPlan
