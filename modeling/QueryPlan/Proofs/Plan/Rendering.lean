import Mathlib
import QueryPlan.Plan.Rendering
import QueryPlan.Proofs.Plan.Ways

/-!
# The indented text of a plan

Every operator of a plan has a line of its own, in the order of a walk, and the line is indented by
two blanks for every operator above it. Where no description begins with a blank, the lines of what
is below an operator are those that follow it and are indented any further. So the text gives the
shape of the plan back, with the description at each place.

## Main definitions

* `Plan.isIndented` : a line begins with the indentation of a depth.
* `Plan.Flush`, `Plan.Known` : no description begins with a blank; all operators are known.
* `Plan.Alike` : plans of the same shape, with the same description at each place.

## Main results

* `Plan.linesFrom_eq_zipWith` : the lines of a plan, by the ways to its operators.
* `Plan.splitOn_render` : the text of a plan is split into its lines.
* `Plan.alike_of_flatMap_linesFrom` : plans with the same lines are alike.
* `Plan.render_eq_iff` : plans have the same text just when they are alike.
* `Plan.walk_takes_ways` : a walk visits every occurrence of an operator once, in preorder.
-/

namespace QueryPlan.Plan

variable {p q c : Plan} {depth : ℕ} {ps qs : List Plan}

/-! ### The lines of a plan -/

/-- The line of an operator comes before the lines of what is below it, which are indented by one
step more. -/
theorem linesFrom_eq_cons (depth : ℕ) (p : Plan) :
    p.linesFrom depth =
      (indentation depth ++ p.describe) :: p.children.flatMap (linesFrom (depth + 1)) := by
  cases p <;> simp [linesFrom, children]

/-- Every operator has a line, indented by one step for every side on the way to it. -/
theorem linesFrom_eq_zipWith (depth : ℕ) (p : Plan) :
    p.linesFrom depth =
      List.zipWith (fun way op => indentation (depth + way.length) ++ op.describe) p.ways
        p.preorder := by
  have hstep (depth : ℕ) (way : List ℕ) : depth + (way.length + 1) = depth + 1 + way.length := by
    omega
  induction p generalizing depth with
  | scan | foreignLeaf => rfl
  | select base _ ih | project base _ ih | sorting base _ _ ih | foreign base _ _ ih =>
    simp [linesFrom, ways, preorder, ih, List.zipWith_map_left, hstep]
  | join left right _ _ _ ihl ihr =>
    simp [linesFrom, ways, preorder, ihl, ihr, List.zipWith_map_left, hstep,
      List.zipWith_append, length_ways]

/-- The lines of a plan are descriptions of its operators, indented by as many steps as the root or
more. -/
theorem exists_of_mem_linesFrom {line : String} (h : line ∈ p.linesFrom depth) :
    ∃ k, ∃ op : Plan, depth ≤ k ∧ op.IsPart p ∧ line = indentation k ++ op.describe := by
  induction p using childrenInduction generalizing depth with
  | step p ih =>
    rw [linesFrom_eq_cons, List.mem_cons, List.mem_flatMap] at h
    rcases h with rfl | ⟨c, hc, hline⟩
    · exact ⟨depth, p, le_rfl, .refl p, rfl⟩
    · obtain ⟨k, op, hk, hop, rfl⟩ := ih c hc hline
      exact ⟨k, op, by omega, hop.child hc, rfl⟩

theorem toList_indentation (depth : ℕ) :
    (indentation depth).toList = List.replicate (2 * depth) ' ' :=
  String.toList_ofList

/-- The text of a plan is split into its lines at the line breaks, if there are none in the
descriptions. -/
theorem splitOn_render (h : ∀ op : Plan, op.IsPart p → '\n' ∉ op.describe.toList) :
    p.render.toList.splitOn '\n' = p.lines.map String.toList := by
  have hbreak : ∀ cs ∈ p.lines.map String.toList, '\n' ∉ cs := by
    intro cs hcs
    obtain ⟨line, hline, rfl⟩ := List.mem_map.1 hcs
    obtain ⟨k, op, -, hop, rfl⟩ := exists_of_mem_linesFrom hline
    rw [String.toList_append, toList_indentation, List.mem_append, List.mem_replicate]
    rintro (⟨-, hblank⟩ | hmem)
    · exact absurd hblank (by decide)
    · exact h op hop hmem
  have hne : p.lines.map String.toList ≠ [] := by
    rw [lines, linesFrom_eq_cons]
    exact List.cons_ne_nil _ _
  rw [render, String.toList_intercalate]
  exact List.splitOn_intercalate '\n' hbreak hne

/-! ### Lines that are indented -/

/-- Whether a line begins with the indentation of a depth. -/
def isIndented (depth : ℕ) (line : String) : Bool :=
  (List.replicate (2 * depth) ' ').isPrefixOf line.toList

theorem isIndented_of_mem_linesFrom {line : String} (h : line ∈ p.linesFrom depth) :
    isIndented depth line = true := by
  obtain ⟨k, op, hk, -, rfl⟩ := exists_of_mem_linesFrom h
  have hsplit : 2 * k = 2 * depth + 2 * (k - depth) := by omega
  rw [isIndented, List.isPrefixOf_iff_prefix, String.toList_append, toList_indentation, hsplit,
    List.replicate_add, List.append_assoc]
  exact List.prefix_append _ _

/-- A text that does not begin with a blank is not indented any further. -/
theorem isIndented_succ_eq_false {text : String} (h : text.toList.head? ≠ some ' ') (depth : ℕ) :
    isIndented (depth + 1) (indentation depth ++ text) = false := by
  rw [isIndented, Bool.eq_false_iff, Ne, List.isPrefixOf_iff_prefix, String.toList_append,
    toList_indentation, Nat.mul_add, List.replicate_add, List.prefix_append_right_inj]
  rintro ⟨more, hmore⟩
  rw [← hmore] at h
  exact h rfl

/-- No description in a plan begins with a blank. -/
def Flush (p : Plan) : Prop := ∀ op : Plan, op.IsPart p → op.describe.toList.head? ≠ some ' '

theorem Flush.child (hp : p.Flush) (hc : c ∈ p.children) : c.Flush := fun op hop =>
  hp op (hop.child hc)

/-- The lines below an operator end where a line is not indented any further. -/
theorem takeWhile_isIndented (hqs : ∀ q ∈ qs, q.Flush) (depth : ℕ) :
    (ps.flatMap (linesFrom (depth + 1)) ++ qs.flatMap (linesFrom depth)).takeWhile
      (isIndented (depth + 1)) = ps.flatMap (linesFrom (depth + 1)) := by
  have hbelow : ∀ line ∈ ps.flatMap (linesFrom (depth + 1)),
      isIndented (depth + 1) line = true := by
    intro line hline
    obtain ⟨p, -, hline⟩ := List.mem_flatMap.1 hline
    exact isIndented_of_mem_linesFrom hline
  have hbeside : (qs.flatMap (linesFrom depth)).takeWhile (isIndented (depth + 1)) = [] := by
    cases qs with
    | nil => rfl
    | cons q qs =>
      have hq := hqs q List.mem_cons_self q (.refl q)
      rw [List.flatMap_cons, linesFrom_eq_cons, List.cons_append, List.takeWhile_cons,
        isIndented_succ_eq_false hq]
      rfl
  rw [List.takeWhile_append_of_pos hbelow, hbeside, List.append_nil]

/-! ### Plans with the same text -/

/-- The same descriptions stand in two plans at the ends of the same ways. -/
def Alike (p q : Plan) : Prop :=
  ∀ way, (p.operatorAt? way).map describe = (q.operatorAt? way).map describe

/-- Operators with the same description over plans that are alike, one by one, are alike. -/
theorem Alike.of_children (hdescribe : p.describe = q.describe)
    (hchildren : List.Forall₂ Alike p.children q.children) : p.Alike q
  | [] => congrArg some hdescribe
  | side :: way => by
    rw [operatorAt?_cons, operatorAt?_cons]
    generalize p.children = ps, q.children = qs at hchildren
    induction hchildren generalizing side with
    | nil => rfl
    | cons hc _ ih =>
      cases side with
      | zero => exact hc way
      | succ side => exact ih side

/-- Where lists of plans have the same lines, the first plans have the same description, and what is
below them and what is beside them has the same lines. -/
theorem linesFrom_cons_inj (hps : ∀ p ∈ ps, p.Flush) (hqs : ∀ q ∈ qs, q.Flush)
    (h : (p :: ps).flatMap (linesFrom depth) = (q :: qs).flatMap (linesFrom depth)) :
    p.describe = q.describe ∧
      p.children.flatMap (linesFrom (depth + 1)) = q.children.flatMap (linesFrom (depth + 1)) ∧
      ps.flatMap (linesFrom depth) = qs.flatMap (linesFrom depth) := by
  rw [List.flatMap_cons, List.flatMap_cons, linesFrom_eq_cons, linesFrom_eq_cons] at h
  obtain ⟨hline, hmore⟩ := List.cons.inj h
  have hbelow : p.children.flatMap (linesFrom (depth + 1)) =
      q.children.flatMap (linesFrom (depth + 1)) := by
    have htake := congrArg (List.takeWhile (isIndented (depth + 1))) hmore
    exact (takeWhile_isIndented hps depth).symm.trans (htake.trans (takeWhile_isIndented hqs depth))
  refine ⟨?_, hbelow, List.append_cancel_left (hbelow ▸ hmore)⟩
  simpa [← String.toList_inj] using hline

/-- Plans with the same lines are alike, one by one. -/
theorem alike_of_flatMap_linesFrom (hps : ∀ p ∈ ps, p.Flush) (hqs : ∀ q ∈ qs, q.Flush)
    (h : ps.flatMap (linesFrom depth) = qs.flatMap (linesFrom depth)) :
    List.Forall₂ Alike ps qs := by
  -- on the number of operators, as the depth is one more below the first plan but not beside it
  induction hn : stackSize ps using Nat.strong_induction_on generalizing depth ps qs with
  | _ n ih =>
    rcases ps with _ | ⟨p, ps⟩ <;> rcases qs with _ | ⟨q, qs⟩
    · exact .nil
    · rw [List.flatMap_cons, linesFrom_eq_cons] at h
      cases h
    · rw [List.flatMap_cons, linesFrom_eq_cons] at h
      cases h
    · obtain ⟨hp, hps⟩ := List.forall_mem_cons.1 hps
      obtain ⟨hq, hqs⟩ := List.forall_mem_cons.1 hqs
      obtain ⟨hdescribe, hbelow, hbeside⟩ := linesFrom_cons_inj hps hqs h
      have hchildren := stackSize_children_append p []
      have hsize := p.size_pos
      simp only [stackSize, List.append_nil] at hchildren hn
      have halike := ih _ (by omega) (fun c hc => hp.child hc) (fun c hc => hq.child hc) hbelow rfl
      exact .cons (.of_children hdescribe halike) (ih _ (by omega) hps hqs hbeside rfl)

/-- Ways to operators are ways to operators of a plan that is alike. -/
theorem Alike.ways_eq (h : p.Alike q) : p.ways = q.ways := by
  refine p.pairwise_ways.eq_of_mem_iff q.pairwise_ways fun way => ?_
  rw [mem_ways_iff, mem_ways_iff, ← Option.isSome_map, h way, Option.isSome_map]

/-- Plans that are alike have the same lines. -/
theorem Alike.lines_eq (h : p.Alike q) : p.lines = q.lines := by
  have hmap (p : Plan) : (p.preorder.map describe).map some =
      p.ways.map fun way => (p.operatorAt? way).map describe := by
    calc (p.preorder.map describe).map some
        = (p.preorder.map some).map (Option.map describe) := by
          rw [List.map_map, List.map_map]
          rfl
      _ = (p.ways.map p.operatorAt?).map (Option.map describe) := by rw [map_operatorAt?_ways]
      _ = p.ways.map fun way => (p.operatorAt? way).map describe := List.map_map
  -- the ways are the same, and what stands at their ends
  have hdescribe : p.preorder.map describe = q.preorder.map describe := by
    rw [← List.map_inj_right (f := some) (fun _ _ => Option.some.inj), hmap, hmap, h.ways_eq]
    exact List.map_congr_left fun way _ => h way
  have hlines (p : Plan) : p.lines =
      List.zipWith (fun way text => indentation (0 + way.length) ++ text) p.ways
        (p.preorder.map describe) := by
    rw [List.zipWith_map_right]
    exact linesFrom_eq_zipWith 0 p
  rw [hlines, hlines, h.ways_eq, hdescribe]

/-! ### Plans of known operators -/

/-- All operators of a plan are known. -/
def Known : Plan → Prop
  | scan _ _ => True
  | select base _ | project base _ | sorting base _ _ => base.Known
  | join left right _ _ _ => left.Known ∧ right.Known
  | foreign _ _ _ | foreignLeaf _ _ => False

theorem Known.child (hp : p.Known) (hc : c ∈ p.children) : c.Known := by
  cases p with
  | scan => cases hc
  | select | project | sorting =>
    obtain rfl := List.mem_singleton.1 hc
    exact hp
  | join =>
    rcases List.mem_pair.1 hc with rfl | rfl
    · exact hp.1
    · exact hp.2
  | foreign | foreignLeaf => exact hp.elim

/-- The description of a known operator begins with its name. -/
theorem Known.head?_describe (hp : p.Known) : p.describe.toList.head? ≠ some ' ' := by
  cases p with
  | scan | select | project | join => simp [describe]
  | sorting base task =>
    cases task with
    | groupBy | orderBy | sort => simp [describe, describeTask]
    | distinct columns => cases columns <;> simp [describe, describeTask]
  | foreign | foreignLeaf => exact hp.elim

theorem Known.flush (hp : p.Known) : p.Flush := by
  induction p using childrenInduction with
  | step p ih =>
    intro op hop
    rcases isPart_iff.1 hop with rfl | ⟨c, hc, hop⟩
    · exact hp.head?_describe
    · exact ih c hc (hp.child hc) op hop

namespace Sample

/-- A selection from a table of one column of a size, joined with the table itself. -/
def twice (size place : ℤ) : Plan :=
  let column : Attribute := { table := some "T", name := "a", size := size }
  let table : Plan := .scan "T" ⟨[column], size⟩
  .join (.select table { lhs := column, rhs := .integer 1 }) table [] 0 place

end Sample

/-! ### What the text of a plan says -/

/-- Two plans of known operators have the same text just when they have the same shape and the same
description stands at each place, if the descriptions have no line breaks. -/
theorem render_eq_iff (hp : p.Known) (hq : q.Known)
    (hpbreaks : ∀ op : Plan, op.IsPart p → '\n' ∉ op.describe.toList)
    (hqbreaks : ∀ op : Plan, op.IsPart q → '\n' ∉ op.describe.toList) :
    p.render = q.render ↔
      ∀ way, (p.operatorAt? way).map describe = (q.operatorAt? way).map describe := by
  constructor
  · intro h
    have htexts : p.lines.map String.toList = q.lines.map String.toList := by
      rw [← splitOn_render hpbreaks, ← splitOn_render hqbreaks, h]
    have hlines : p.lines = q.lines :=
      (List.map_inj_right fun _ _ => String.toList_inj.1).1 htexts
    have hroots : [p].flatMap (linesFrom 0) = [q].flatMap (linesFrom 0) := by
      simpa [lines] using hlines
    have halike : List.Forall₂ Alike [p] [q] :=
      alike_of_flatMap_linesFrom (by simpa using hp.flush) (by simpa using hq.flush) hroots
    exact (List.forall₂_cons.1 halike).1
  · intro h
    rw [render, render, Alike.lines_eq h]

theorem render_eq_iff_sample :
    Sample.twice 4 0 ≠ Sample.twice 8 1 ∧
      ∀ way, ((Sample.twice 4 0).operatorAt? way).map describe =
        ((Sample.twice 8 1).operatorAt? way).map describe := by
  have hbreaks : ∀ op ∈ (Sample.twice 4 0).preorder, '\n' ∉ op.describe.toList := by
    decide +kernel
  have hbreaks' : ∀ op ∈ (Sample.twice 8 1).preorder, '\n' ∉ op.describe.toList := by
    decide +kernel
  have hknown (size place : ℤ) : (Sample.twice size place).Known := ⟨trivial, trivial⟩
  exact ⟨by decide, (render_eq_iff (hknown 4 0) (hknown 8 1) hbreaks hbreaks').1 rfl⟩

/-- A walk goes through as many rounds as there are operators and visits the operators in preorder,
each occurrence once: the ways to them, in lexicographic order. So the text of a plan has a line for
each visit, with the description of the operator that is visited, indented by two blanks for every
operator above it, the joins are listed in this order, and the tables are those of the scans. -/
theorem walk_takes_ways (p : Plan) :
    (∀ n, visitTop^[n] [p] = [] ↔ p.size ≤ n) ∧
      (∀ n, (visitTop^[n] [p]).head? = p.walk[n]?) ∧
      p.walk = p.preorder ∧
      p.walk.map some = p.ways.map p.operatorAt? ∧
      p.ways.Pairwise (· < ·) ∧
      (∀ way, way ∈ p.ways ↔ (p.operatorAt? way).isSome = true) ∧
      ((∀ op : Plan, op.IsPart p → '\n' ∉ op.describe.toList) →
        p.render.toList.splitOn '\n' =
          List.zipWith (fun way op => (indentation way.length ++ op.describe).toList)
            p.ways p.walk) ∧
      p.joins = (p.ways.filterMap p.operatorAt?).filter isJoin ∧
      ∀ table, table ∈ p.scannedTables ↔
        ∃ way schema, p.operatorAt? way = some (scan table schema) := by
  refine ⟨fun n => ?_, fun n => head?_iterate_visitTop n [p], walk_eq_preorder p, ?_,
    pairwise_ways p, fun way => mem_ways_iff, fun h => ?_, ?_, fun table => ?_⟩
  · rw [iterate_visitTop_eq_nil_iff, stackSize, stackSize, Nat.add_zero]
  · rw [walk_eq_preorder, map_operatorAt?_ways]
  · rw [splitOn_render h, lines, linesFrom_eq_zipWith, List.map_zipWith, walk_eq_preorder]
    simp only [Nat.zero_add]
  · have hvisited : p.ways.filterMap p.operatorAt? = p.preorder := by
      simpa [List.filterMap_map] using congrArg (List.filterMap id) (map_operatorAt?_ways p)
    rw [joins, walk_eq_preorder, hvisited]
  · simp only [mem_scannedTables_iff, isPart_iff_exists_way]
    exact exists_comm

theorem walk_takes_ways_sample :
    (Sample.twice 4 0).render.toList.splitOn '\n' =
      ["Join[NESTED_LOOP]()".toList, "  Select(T.a = 1)".toList, "    Scan(T)".toList,
        "  Scan(T)".toList] := by
  have hbreaks : ∀ op ∈ (Sample.twice 4 0).preorder, '\n' ∉ op.describe.toList := by
    decide +kernel
  obtain ⟨-, -, -, -, -, -, hlines, -⟩ := walk_takes_ways (Sample.twice 4 0)
  rw [hlines hbreaks]
  decide +kernel

end QueryPlan.Plan
