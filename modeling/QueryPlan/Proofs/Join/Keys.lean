import Mathlib
import QueryPlan.Proofs.Join.Edges

/-!
# Keys as names of table pairs

The key of a pair is read by splitting it at its first separator. The separator of the key itself
is this first one exactly if none begins in the smaller name. One can begin there in two ways: the
name holds a separator, or it ends with a sign of the separator, which the separator of the key
then completes. The larger name may hold any signs.

Keys of pairs whose smaller names are clear of this are read as the pair and differ for different
pairs, so a join graph keeps the conditions of different pairs apart. Two pairs can share a key if
one of the smaller names is not clear, and their conditions are then held in one edge.

## Main definitions

* `Pair.Clear` : no separator begins in a name that a separator follows.

## Main results

* `Pair.splitChars?_eq_some_iff` : a text is split at its first separator.
* `Pair.split?_key_eq_some_iff` : the keys that are read as the pair of their tables.
* `Pair.key_eq_key_iff` : keys of different pairs differ if the smaller names are clear.
* `JoinGraph.edges_faithful` : keys are read as their pairs, differ for different pairs, and the
  edges of a graph hold the conditions of their pairs.
* `JoinGraph.edges_misread` : a key that is read as another pair and shared with it.
-/

namespace QueryPlan

namespace Pair

variable {s t a b : String} {cs left right : List Char}

/-- No separator begins in a name that a separator follows: the name holds none and does not end
with its sign. -/
def Clear (name : String) : Prop := ¬ separator <:+: name.toList ++ ['|', '|']

instance (name : String) : Decidable (Clear name) :=
  inferInstanceAs (Decidable (¬ separator <:+: name.toList ++ ['|', '|']))

/-- What stands before the first separator, followed by all signs of the separator but the last,
holds no separator. -/
theorem unseparated_of_splitChars? (h : splitChars? cs = some (left, right)) :
    ¬ separator <:+: left ++ ['|', '|'] := by
  induction cs generalizing left with
  | nil => cases h
  | cons c cs ih =>
    rw [splitChars?] at h
    split at h
    · obtain ⟨rfl, -⟩ := Prod.mk.inj (Option.some.inj h)
      decide
    · rename_i hprefix
      obtain ⟨⟨l, r⟩, hsplit, heq⟩ := Option.map_eq_some_iff.1 h
      obtain ⟨rfl, rfl⟩ := Prod.mk.inj heq
      rw [List.cons_append, List.infix_cons_iff, not_or]
      refine ⟨fun hsep => hprefix ?_, ih hsplit⟩
      rw [append_of_splitChars? hsplit, List.isPrefixOf_iff_prefix]
      exact hsep.trans ⟨'|' :: r, by simp [separator]⟩

/-- The separator after a text is the first one if none begins in the text. -/
theorem splitChars?_of_unseparated (hleft : ¬ separator <:+: left ++ ['|', '|'])
    (right : List Char) : splitChars? (left ++ separator ++ right) = some (left, right) := by
  induction left with
  | nil => rfl
  | cons c left ih =>
    rw [List.cons_append, List.infix_cons_iff, not_or] at hleft
    have hprefix : ¬ separator.isPrefixOf (c :: (left ++ separator ++ right)) = true := by
      intro hsep
      -- three signs fit into the first name and the two that follow it
      refine hleft.1 (List.prefix_of_prefix_length_le (List.isPrefixOf_iff_prefix.1 hsep)
        ⟨'|' :: right, by simp [separator]⟩ (by simp [separator]))
    rw [List.cons_append, List.cons_append, splitChars?, if_neg hprefix, ih hleft.2]
    rfl

/-- A text is split at its first separator. -/
theorem splitChars?_eq_some_iff : splitChars? cs = some (left, right) ↔
    cs = left ++ separator ++ right ∧ ¬ separator <:+: left ++ ['|', '|'] := by
  constructor
  · exact fun h => ⟨append_of_splitChars? h, unseparated_of_splitChars? h⟩
  · rintro ⟨rfl, hleft⟩
    exact splitChars?_of_unseparated hleft right

/-- The key of a pair is read as this pair exactly if its smaller name is clear of separators. -/
theorem split?_key_eq_some_iff : split? (key s t) = some (ordered s t) ↔ Clear (ordered s t).1 := by
  rw [split?, toList_key]
  constructor
  · intro h
    obtain ⟨⟨left, right⟩, hsplit, heq⟩ := Option.map_eq_some_iff.1 h
    rw [← heq, Clear, String.toList_ofList]
    exact unseparated_of_splitChars? hsplit
  · intro hclear
    rw [splitChars?_of_unseparated hclear]
    simp

/-- Two pairs in order are equal exactly if the pairs are equal up to order. -/
theorem ordered_eq_ordered_iff :
    ordered s t = ordered a b ↔ s = a ∧ t = b ∨ s = b ∧ t = a := by
  constructor
  · intro h
    unfold ordered at h
    split at h <;> split at h <;> obtain ⟨rfl, rfl⟩ := Prod.mk.inj h <;> simp
  · rintro (⟨rfl, rfl⟩ | ⟨rfl, rfl⟩)
    · rfl
    · exact ordered_comm s t

/-- Pairs whose smaller names are clear have the same key only if they are equal up to order. -/
theorem key_eq_key_iff (hst : Clear (ordered s t).1) (hab : Clear (ordered a b).1) :
    key s t = key a b ↔ s = a ∧ t = b ∨ s = b ∧ t = a := by
  rw [← ordered_eq_ordered_iff]
  constructor
  · intro h
    have hread := split?_key_eq_some_iff.2 hst
    rw [h, split?_key_eq_some_iff.2 hab] at hread
    exact (Option.some.inj hread).symm
  · intro h
    rw [← key_ordered s t, h, key_ordered]

end Pair

namespace Condition

variable {c d : Condition} {p q : String × String}

theorem ordered_of_pair? (h : c.pair? = some p) : Pair.ordered p.1 p.2 = p :=
  if_neg (String.lt_asymm (lt_of_pair? h))

/-- The edge of a condition is read as the pair that it joins if the smaller name is clear. -/
theorem split?_of_pair? (h : c.pair? = some p) (hp : Pair.Clear p.1) :
    Pair.split? (Pair.key p.1 p.2) = some p := by
  have hread := Pair.split?_key_eq_some_iff (s := p.1) (t := p.2)
  rw [ordered_of_pair? h] at hread
  exact hread.2 hp

/-- Conditions of different pairs are in different edges if the smaller names are clear. -/
theorem edge?_eq_edge?_iff (hc : c.pair? = some p) (hd : d.pair? = some q) (hp : Pair.Clear p.1)
    (hq : Pair.Clear q.1) : d.edge? = c.edge? ↔ q = p := by
  rw [edge?, edge?, hc, hd]
  constructor
  · intro h
    have hkey : Pair.key q.1 q.2 = Pair.key p.1 p.2 := Option.some.inj h
    rw [← Option.some_inj, ← split?_of_pair? hd hq, hkey, split?_of_pair? hc hp]
  · rintro rfl
    rfl

end Condition

namespace JoinGraph

variable {g : JoinGraph} {cs : List Condition} {edge : String}

/-- The smaller table of every condition that joins two tables has a clear name. -/
def Readable (cs : List Condition) : Prop := ∀ c ∈ cs, ∀ p, c.pair? = some p → Pair.Clear p.1

/-- In a graph of conditions with clear names an edge is read as a pair of tables and holds the
conditions of this pair, in order and turned the same way. -/
theorem Holds.edge_of_pair (hg : g.Holds cs) (hcs : Readable cs) (hedge : edge ∈ g.edges) :
    ∃ p, p.1 < p.2 ∧ Pair.split? edge = some p ∧
      g.conditionsOf edge = (cs.filter fun c => c.pair? = some p).map Condition.oriented := by
  obtain ⟨c, hc, hce⟩ := (hg.mem_edges_iff edge).1 hedge
  obtain ⟨p, hp⟩ := hg.pair c hc
  have hkey : edge = Pair.key p.1 p.2 := by
    rw [Condition.edge?, hp] at hce
    exact (Option.some.inj hce).symm
  refine ⟨p, Condition.lt_of_pair? hp, ?_, ?_⟩
  · rw [hkey, Condition.split?_of_pair? hp (hcs c hc p hp)]
  · rw [hg.conditionsOf, List.filter_congr fun d hd => ?_]
    obtain ⟨q, hq⟩ := hg.pair d hd
    rw [← hce, decide_eq_decide, hq, Option.some_inj]
    exact Condition.edge?_eq_edge?_iff hp hq (hcs c hc p hp) (hcs d hd q hq)

/-- The key of two tables is read as the pair of the two, in the order of code points, exactly if no
separator begins in the smaller name. Two such pairs have different keys if they are different. A
graph of conditions that join such pairs has an edge for each pair that conditions join; it is read
as this pair and holds the conditions of this pair and no others. -/
theorem edges_faithful (s t : String) :
    (Pair.split? (Pair.key s t) = some (Pair.ordered s t) ↔ Pair.Clear (Pair.ordered s t).1) ∧
    (∀ a b, Pair.Clear (Pair.ordered s t).1 → Pair.Clear (Pair.ordered a b).1 →
      (Pair.key s t = Pair.key a b ↔ s = a ∧ t = b ∨ s = b ∧ t = a)) ∧
    ∀ cs g, ofConditions cs = .ok g → Readable cs →
      (∀ c ∈ cs, ∃ p, c.pair? = some p ∧ Pair.key p.1 p.2 ∈ g.edges) ∧
      ∀ edge ∈ g.edges, ∃ p, p.1 < p.2 ∧ Pair.split? edge = some p ∧
        g.conditionsOf edge = (cs.filter fun c => c.pair? = some p).map Condition.oriented := by
  refine ⟨Pair.split?_key_eq_some_iff, fun a b => Pair.key_eq_key_iff, ?_⟩
  intro cs g hok hcs
  have hg := holds_ofConditions hok
  refine ⟨fun c hc => ?_, fun edge => hg.edge_of_pair hcs⟩
  obtain ⟨p, hp⟩ := hg.pair c hc
  exact ⟨p, hp, (hg.mem_edges_iff _).2 ⟨c, hc, by rw [Condition.edge?, hp]; rfl⟩⟩

namespace Sample

/-- The condition that compares the columns `x` of two tables. -/
def link (s t : String) : Condition where
  lhs := { table := some s, name := "x" }
  rhs := .column { table := some t, name := "x" }
  kind := .join

/-- Three conditions on two pairs of tables, whose names hold and end with signs of the separator
where these do no harm. -/
def links : List Condition := [link "a||b" "c", link "d|||" "a||b", link "c" "a||b"]

theorem readable_links : Readable links := by
  intro c hc p hp
  simp only [links, List.mem_cons, List.not_mem_nil, or_false] at hc
  obtain rfl | rfl | rfl := hc <;> cases hp <;> decide +kernel

end Sample

theorem edges_faithful_sample :
    Pair.split? (Pair.key "d|||" "a||b") = some ("a||b", "d|||") ∧
      Pair.key "d|||" "a||b" ≠ Pair.key "a||b" "c" ∧
      ∃ g, ofConditions Sample.links = .ok g ∧ Sample.links.length = 3 ∧
        ∀ edge ∈ g.edges, ∃ p, p.1 < p.2 ∧ Pair.split? edge = some p ∧
          g.conditionsOf edge =
            (Sample.links.filter fun c => c.pair? = some p).map Condition.oriented := by
  obtain ⟨hread, hkey, hgraph⟩ := edges_faithful "d|||" "a||b"
  have hclear : Pair.Clear (Pair.ordered "d|||" "a||b").1 := by decide +kernel
  have hother : Pair.Clear (Pair.ordered "a||b" "c").1 := by decide +kernel
  refine ⟨(hread.2 hclear).trans (by decide +kernel), ?_, ?_⟩
  · rw [ne_eq, hkey "a||b" "c" hclear hother]
    decide +kernel
  · refine ⟨_, rfl, rfl, ?_⟩
    exact (hgraph Sample.links _ rfl Sample.readable_links).2

/-- The key of two tables can be read as two other tables: if the smaller name ends with the sign
of the separator, then this sign is taken for the beginning of the separator. The two pairs share
the key, and a graph holds their conditions in one edge. -/
theorem edges_misread :
    Pair.ordered "a|" "b" = ("a|", "b") ∧ Pair.split? (Pair.key "a|" "b") = some ("a", "|b") ∧
      Pair.key "a|" "b" = Pair.key "a" "|b" ∧
      (Sample.link "a|" "b").pair? = some ("a|", "b") ∧
      (Sample.link "a" "|b").pair? = some ("a", "|b") ∧
      ∃ g, ofConditions [Sample.link "a|" "b", Sample.link "a" "|b"] = .ok g ∧
        g.edges = [Pair.key "a|" "b"] ∧
        g.conditionsOf (Pair.key "a|" "b") = [Sample.link "a|" "b", Sample.link "a" "|b"] := by
  refine ⟨by decide +kernel, by decide +kernel, by decide +kernel, by decide +kernel,
    by decide +kernel, _, rfl, by decide +kernel, by decide +kernel⟩

end JoinGraph

end QueryPlan
