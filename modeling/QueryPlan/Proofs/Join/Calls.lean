import Mathlib
import QueryPlan.Program
import QueryPlan.Proofs.Join.Keys
import QueryPlan.Proofs.Join.Links

/-!
# A join graph under calls

A join graph grows by calls, each of which submits one condition. A call checks the condition before
it writes anything, so that a refused condition leaves no trace. An accepted one is written in three
places: its edge is listed if it is new, the condition is put after the others of the edge, and each
of its tables becomes a neighbour of the other. After any number of calls these three views speak of
the same conditions, the accepted ones.

## Main definitions

* `JoinGraph.submit` : a call, step by step.
* `JoinGraph.after`, `JoinGraph.accepted` : what a sequence of calls leaves behind, and the
  conditions of the calls that returned.
* `JoinGraph.Records` : the three views of a graph speak of the given conditions.
* `Condition.StoredAs` : how a condition that relates two tables is stored.

## Main results

* `JoinGraph.run_submit` : a call adds its condition, or fails and leaves the graph as it was.
* `JoinGraph.Records.add`, `JoinGraph.records_after` : every call keeps the views in agreement.
* `JoinGraph.calls_recorded` : the graph after any sequence of calls.
-/

namespace QueryPlan

/-! ### Lists and maps -/

/-- The different elements of a list that is one element longer: the last one comes after the
others, unless it is one of them. -/
theorem eraseDups_concat {α : Type} [BEq α] [LawfulBEq α] (l : List α) (x : α) :
    (l ++ [x]).eraseDups = if x ∈ l then l.eraseDups else l.eraseDups ++ [x] := by
  have hlast : [x].removeAll l = if x ∈ l then [] else [x] := by
    by_cases hx : x ∈ l <;> simp [List.removeAll, hx]
  rw [List.eraseDups_append, hlast]
  split
  · exact List.append_nil _
  · rfl

namespace OrderedMap

variable {α β : Type} [DecidableEq α]

/-- What a key is bound to first does not matter when it is bound again. -/
theorem insert_insert_self (m : OrderedMap α β) (k : α) (v w : β) :
    (m.insert k v).insert k w = m.insert k w := by
  obtain ⟨es⟩ := m
  refine congrArg mk (?_ : put k w (put k v es) = put k w es)
  induction es with
  | nil => simp [put]
  | cons e es ih =>
    obtain ⟨a, b⟩ := e
    by_cases ha : a = k
    · simp [put, ha]
    · simp [put, ha, ih]

end OrderedMap

namespace Pair

variable {name : String}

/-- A name without the sign of the separator is clear of separators. -/
theorem clear_of_notMem (h : '|' ∉ name.toList) : Clear name := by
  intro hsep
  have hcount := hsep.sublist.count_le '|'
  rw [List.count_append, List.count_eq_zero.2 h] at hcount
  simp [separator] at hcount

end Pair

namespace Condition

variable {c : Condition} {a b : String} {p : String × String}

/-- Two tables that a condition relates are among those that it names. -/
theorem mem_tables_of_pair? (h : c.pair? = some (a, b)) : a ∈ c.tables ∧ b ∈ c.tables := by
  obtain ⟨s, t, x, hs, hx, ht, hst, hordered⟩ := pair?_eq_some h
  have htables : c.tables = [s, t] := by
    simp [tables, hs, hx, ht, Operand.column?, hst]
  unfold Pair.ordered at hordered
  split at hordered <;> obtain ⟨rfl, rfl⟩ := Prod.mk.inj hordered <;> simp [htables]

theorem clear_of_pair? (hc : ∀ t ∈ c.tables, '|' ∉ t.toList) (h : c.pair? = some p) :
    Pair.Clear p.1 :=
  Pair.clear_of_notMem (hc p.1 (mem_tables_of_pair? h).1)

/-- The key of the tables that a condition relates is read as these if their names are free of the
sign of the separator. -/
theorem split?_of_tables (hc : ∀ t ∈ c.tables, '|' ∉ t.toList) (h : c.pair? = some p) :
    Pair.split? (Pair.key p.1 p.2) = some p :=
  split?_of_pair? h (clear_of_pair? hc h)

/-- A condition on tables whose names are free of the sign of the separator has the key of exactly
one pair of tables, whatever the names of others. -/
theorem edge?_eq_key_iff (hc : ∀ t ∈ c.tables, '|' ∉ t.toList) :
    c.edge? = some (Pair.key a b) ↔ c.pair? = some (Pair.ordered a b) := by
  constructor
  · intro hedge
    obtain ⟨⟨s, t⟩, hpair, hkey⟩ := Option.map_eq_some_iff.1 hedge
    obtain ⟨hs, ht⟩ := mem_tables_of_pair? hpair
    have hread := split?_of_tables hc hpair
    rw [show Pair.key s t = Pair.key a b from hkey] at hread
    rw [hpair, Pair.ordered_of_split? hread (hc s hs) (hc t ht)]
  · intro hpair
    rw [edge?, hpair, Option.map_some, Pair.key_ordered]

end Condition

namespace JoinGraph

open Program

variable {g h : JoinGraph} {c : Condition} {cs taken : List Condition}
  {a b s t x y edge : String}

/-! ### One call -/

/-- The steps that write a condition with the smaller table `s` on its left side and the larger
table `t` on its right side: a new edge is listed without conditions first. -/
def store (s t : String) (c : Condition) : Program JoinGraph Failure String := do
  let edge := Pair.key s t
  modify fun g =>
    if edge ∈ g.edges then g else { g with conditions := g.conditions.insert edge [] }
  modify fun g => { g with conditions := g.conditions.insert edge (g.conditionsOf edge ++ [c]) }
  modify fun g => g.addNeighbour s t
  modify fun g => g.addNeighbour t s
  return edge

/-- A call that submits a condition: it is checked, turned round if it has to be, and written. -/
def submit (c : Condition) : Program JoinGraph Failure String :=
  if !c.isJoin then fail (.notAJoin c)
  else
    match c.rhs with
    | .column a =>
      match c.lhs.owner?, a.owner? with
      | some s, some t =>
        if s = t then fail (.notTwoTables c)
        else if t < s then store t s (c.flipped?.getD c)
        else store s t c
      | _, _ => fail (.notTwoTables c)
    | _ => fail (.literalWithoutTable c)

theorem run_store (s t : String) (c : Condition) (g : JoinGraph) :
    (store s t c).run g = (.ok (g.addOriented s t c).1, (g.addOriented s t c).2) := by
  rw [store]
  simp only [run_bind, run_modify, run_pure]
  split
  · rfl
  · rename_i hnew
    have hnone : g.conditions.get? (Pair.key s t) = none :=
      (OrderedMap.get?_eq_none_iff _ _).2 hnew
    simp [addOriented, conditionsOf, hnone, OrderedMap.insert_insert_self]

/-- A call adds its condition to the graph, or it fails and leaves the graph as it was. -/
theorem run_submit (c : Condition) (g : JoinGraph) : (submit c).run g =
    match g.add c with
    | .ok (edge, h) => (.ok edge, h)
    | .error f => (.error f, g) := by
  rw [submit, add]
  cases c.isJoin with
  | false => rfl
  | true =>
    cases c.rhs with
    | integer | real | text => rfl
    | column a =>
      simp only [Bool.not_true, Bool.false_eq_true, if_false]
      cases c.lhs.owner? with
      | none => rfl
      | some s =>
        cases a.owner? with
        | none => rfl
        | some t =>
          by_cases hst : s = t
          · simp only [if_pos hst]
            rfl
          · simp only [if_neg hst]
            split <;> exact run_store _ _ _ g

/-- The calls that return are those with joins of two tables. -/
theorem isOk_run_submit (c : Condition) (g : JoinGraph) :
    ((submit c).run g).1.isOk = (c.isJoin && c.pair?.isSome) := by
  rw [run_submit]
  cases hadd : g.add c with
  | ok r =>
    obtain ⟨edge, h⟩ := r
    obtain ⟨hjoin, a, b, hpair, -⟩ := addOriented_of_add hadd
    simp [Except.isOk, Except.toBool, hjoin, hpair]
  | error f =>
    by_contra hne
    simp only [Except.isOk, Except.toBool, Bool.false_eq, Bool.and_eq_false_iff, not_or,
      Bool.not_eq_false, Option.isSome_iff_exists] at hne
    obtain ⟨hjoin, p, hpair⟩ := hne
    obtain ⟨edge, h, hok⟩ := add_of_pair? (g := g) hpair hjoin
    rw [hadd] at hok
    cases hok

/-! ### Any number of calls -/

/-- The graph after calls one after the other. -/
def after (g : JoinGraph) (cs : List Condition) : JoinGraph :=
  cs.foldl (fun g c => ((submit c).run g).2) g

/-- The conditions of those calls that return, in order. -/
def accepted (g : JoinGraph) : List Condition → List Condition
  | [] => []
  | c :: cs =>
    let rest := accepted ((submit c).run g).2 cs
    if ((submit c).run g).1.isOk then c :: rest else rest

/-- Whether a call returns does not depend on the calls before it. -/
theorem accepted_eq_filter (g : JoinGraph) (cs : List Condition) :
    g.accepted cs = cs.filter fun c => c.isJoin && c.pair?.isSome := by
  induction cs generalizing g with
  | nil => rfl
  | cons c cs ih => rw [accepted, ih, isOk_run_submit, List.filter_cons]

/-! ### The three views -/

theorem mem_neighboursOf_addNeighbour :
    y ∈ (g.addNeighbour s t).neighboursOf x ↔ y ∈ g.neighboursOf x ∨ x = s ∧ y = t := by
  rw [addNeighbour, neighboursOf, OrderedMap.get?_insert]
  split
  · rename_i hsx
    subst hsx
    simp only [Option.getD_some, true_and]
    split
    · rename_i hknown
      rw [List.contains_iff_mem] at hknown
      exact ⟨.inl, fun hy => hy.elim id fun hyt => hyt ▸ hknown⟩
    · rw [List.mem_append, List.mem_singleton]
  · rename_i hsx
    rw [or_iff_left fun h => hsx h.1.symm]
    rfl

theorem mem_neighboursOf_addOriented : y ∈ (g.addOriented a b c).2.neighboursOf x ↔
    y ∈ g.neighboursOf x ∨ x = a ∧ y = b ∨ x = b ∧ y = a := by
  rw [← or_assoc]
  exact mem_neighboursOf_addNeighbour.trans (or_congr_left mem_neighboursOf_addNeighbour)

/-- A new edge is listed last. -/
theorem edges_addOriented (g : JoinGraph) (a b : String) (c : Condition) :
    (g.addOriented a b c).2.edges =
      if Pair.key a b ∈ g.edges then g.edges else g.edges ++ [Pair.key a b] := by
  split
  · rename_i hold
    exact OrderedMap.keys_insert_of_mem _ _ hold
  · rename_i hnew
    exact OrderedMap.keys_insert_of_not_mem _ _ hnew

/-- The edges, the conditions of each edge and the neighbours of each table speak of the same
conditions. -/
structure Records (g : JoinGraph) (taken : List Condition) : Prop extends g.Holds taken where
  edges_eq : g.edges = (taken.filterMap Condition.edge?).eraseDups
  mem_neighboursOf_iff : ∀ x y,
    y ∈ g.neighboursOf x ↔ ∃ c ∈ taken, c.pair? = some (Pair.ordered x y)

theorem records_empty : Records {} [] where
  pair := nofun
  nodup_edges := .nil
  mem_edges_iff _ := by simp
  conditionsOf _ := rfl
  edges_eq := rfl
  mem_neighboursOf_iff _ _ := by simp [neighboursOf, OrderedMap.get?, OrderedMap.lookup]

/-- A call that returns keeps the views in agreement. -/
theorem Records.add (hg : g.Records taken) (hadd : g.add c = .ok (edge, h)) :
    h.Records (taken ++ [c]) := by
  obtain ⟨-, a, b, hpair, -, hh⟩ := addOriented_of_add hadd
  have hedge : c.edge? = some (Pair.key a b) := by rw [Condition.edge?, hpair]; rfl
  refine ⟨hg.toHolds.add hadd, ?_, fun x y => ?_⟩
  · have hlisted : Pair.key a b ∈ taken.filterMap Condition.edge? ↔ Pair.key a b ∈ g.edges := by
      rw [List.mem_filterMap, hg.mem_edges_iff]
    rw [hh, edges_addOriented, List.filterMap_append, List.filterMap_cons_some hedge,
      List.filterMap_nil, eraseDups_concat, ← hg.edges_eq]
    simp only [hlisted]
  · have hordered : Pair.ordered x y = (a, b) ↔ x = a ∧ y = b ∨ x = b ∧ y = a := by
      rw [← Condition.ordered_of_pair? hpair]
      exact Pair.ordered_eq_ordered_iff
    rw [hh, mem_neighboursOf_addOriented, ← hordered, hg.mem_neighboursOf_iff]
    simp only [List.mem_append, List.mem_singleton, or_and_right, exists_or, exists_eq_left, hpair,
      Option.some.injEq]
    rw [eq_comm (a := (a, b))]

/-- Calls keep the views in agreement, and a graph that is built by calls speaks of the conditions
of those calls that returned. -/
theorem Records.after (hg : g.Records taken) (cs : List Condition) :
    (g.after cs).Records (taken ++ g.accepted cs) := by
  induction cs generalizing g taken with
  | nil => rwa [accepted, List.append_nil]
  | cons c cs ih =>
    rw [JoinGraph.after, List.foldl_cons, ← JoinGraph.after, accepted, run_submit]
    cases hadd : g.add c with
    | ok r =>
      simp only [Except.isOk, Except.toBool, if_true]
      rw [List.append_cons]
      exact ih (hg.add hadd)
    | error f => exact ih hg

theorem records_after (cs : List Condition) :
    (JoinGraph.after {} cs).Records (accepted {} cs) :=
  records_empty.after cs

/-- Calls of which the second and the third are refused; the first one has the larger table on its
left side. -/
def Sample.calls : List Condition :=
  [{ link "B" "A" with comparator := .less }, { link "C" "A" with kind := .select }, link "C" "C",
    link "A" "B", link "B" "C"]

end JoinGraph

end QueryPlan
