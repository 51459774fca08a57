import Mathlib
import QueryPlan.Proofs.Build.Disguises
import QueryPlan.Proofs.Build.Tallies
import QueryPlan.Proofs.Estimate.Scope
import QueryPlan.Random.Draws

/-!
# What the source of codes decides

The source of random codes decides the algorithms of joins, and nothing else. What a construction
does from any state is what it does from the blank one, whose source gives zeros, with the codes of
its own source at the places of the joins that they are drawn for. Two constructions of one query
therefore fail alike or build the same plan up to the codes of its joins, whatever was built before.

A code is drawn for every join that is made, in the order of the joins, and for nothing else. This
also holds of a construction that fails after some joins.

## Main definitions

* `Plan.codes` : the codes of the joins of a plan by place.
* `BuildState.recoding` : the codes of the source of a state, put at the places of joins.
* `Draws.Spent` : the codes that were drawn are those of the joins that were made.

## Main results

* `BuildM.run_build_eq` : a construction from any state, by that from the blank one.
* `BuildM.build_oblivious` : two constructions with any two sources, and the codes that they draw.
-/

namespace QueryPlan

/-! ### Sources in range -/

namespace Twister

theorem drawBelowThree_fst (fuel : ℕ) (t : Twister) :
    0 ≤ (drawBelowThree fuel t).1 ∧ (drawBelowThree fuel t).1 < 3 := by
  induction fuel generalizing t with
  | zero => exact ⟨le_rfl, by simp [drawBelowThree]⟩
  | succ fuel ih =>
    rw [drawBelowThree]
    dsimp only
    split
    · omega
    · exact ih _

theorem code_range (t : Twister) (n : ℕ) : 0 ≤ t.code n ∧ t.code n < 3 := by
  induction n generalizing t with
  | zero => exact drawBelowThree_fst 624 t
  | succ n ih => exact ih _

end Twister

namespace Draws

/-- The source that a seed determines gives codes of algorithms. -/
theorem inRange_ofSeed (seed : ℤ) : (ofSeed seed).InRange := fun n =>
  (Twister.ofSeed seed).code_range n

end Draws

/-! ### The codes of a plan -/

namespace Plan

variable {D : Disguise} {p : Plan}

/-- The codes of the joins of a plan, each after the place of its join. -/
def codes (p : Plan) : List (ℤ × ℤ) :=
  p.joins.filterMap fun
    | join _ _ _ code place => some (place, code)
    | _ => none

theorem codes_core (p : Plan) : p.core.codes = p.codes := by
  rw [codes, joins_core, codes]

theorem joins_plan (p : Plan) : (D.plan p).joins = p.joins.map D.plan := by
  induction p with
  | foreign base name output ih =>
    simpa [Disguise.plan, joins, walk_eq_preorder, preorder, isJoin] using ih
  | foreignLeaf name output =>
    simp [Disguise.plan, joins, walk_eq_preorder, preorder, isJoin]
  | _ => simp_all [Disguise.plan]

theorem codes_plan (p : Plan) :
    (D.plan p).codes = p.codes.map fun c => (c.1, D.code c.1 c.2) := by
  rw [codes, joins_plan, codes, List.filterMap_map, List.map_filterMap]
  refine List.filterMap_congr fun q _ => ?_
  cases q <;> rfl

theorem map_fst_codes (p : Plan) : p.codes.map Prod.fst = p.places := by
  rw [codes, places, List.map_filterMap]
  refine List.filterMap_congr fun q _ => ?_
  cases q <;> rfl

theorem withoutAlgorithms_plan (hcolumn : ∀ a, D.column a = a) (p : Plan) :
    (D.plan p).withoutAlgorithms = p.withoutAlgorithms := by
  have hid : D.column = id := funext hcolumn
  induction p <;> simp_all [Disguise.plan, withoutAlgorithms]

end Plan

theorem OrderedMap.values_mapValues {α β γ : Type} (f : β → γ) (m : OrderedMap α β) :
    (m.mapValues f).values = m.values.map f := by
  simp [mapValues, values]

/-! ### Recoding -/

namespace BuildState

/-- The next codes of the source of a state, each at the place of the join that it is drawn for. The
events of the state come first. -/
def recoding (s : BuildState) (hs : s.draws.InRange) : Disguise where
  algorithm place _ :=
    (JoinAlgorithm.ofCode? (s.draws.code (s.draws.taken + place.toNat))).getD .nestedLoop
  code place _ := s.draws.code (s.draws.taken + place.toNat)
  draws d := s.draws.skip d.taken
  before := s.events
  code_algorithm place _ := by
    obtain ⟨a, ha, hcode⟩ := hs.exists_algorithm (s.draws.taken + place.toNat)
    rw [ha]
    exact hcode.symm

/-- The state before the first construction, with a source of zeros. -/
def blank : BuildState := { draws := Draws.cycle #[] }

theorem inRange_blank : blank.draws.InRange := Draws.inRange_cycle (by simp)

variable {catalog : Catalog} {tables : List String} {s : BuildState}

/-- The blank state recoded is the state of a construction that is begun anew. -/
theorem state_recoding_blank (hs : s.draws.InRange) :
    (s.recoding hs).state blank = { draws := s.draws, events := s.events } := by
  have hevents : s.events ++ ([] : List Event) = s.events := List.append_nil _
  exact congrArg (fun events => ({ draws := s.draws, events := events } : BuildState)) hevents

/-- A construction that began in the blank state draws the code of a join when the recoded one draws
that of the same join. -/
theorem takes_recoding (hs : s.draws.InRange) :
    (s.recoding hs).Takes (Tallied catalog tables blank.draws) where
  fits {t} ht := by
    have hdraws : (s.recoding hs).draws t.draws = s.draws.skip t.joinCount := by
      rw [ht.draws]
      exact congrArg s.draws.skip (Nat.zero_add t.joinCount)
    have hzero : JoinAlgorithm.ofCode? t.draws.next.1 = some .nestedLoop := by
      rw [ht.draws, Draws.next_fst, Draws.code_skip, blank, Draws.cycle]
      rfl
    obtain ⟨a, ha, -⟩ := hs.exists_algorithm (s.draws.taken + t.joinCount)
    refine ⟨?_, fun hnone => ?_, ?_⟩
    · rw [hdraws, hzero]
      change JoinAlgorithm.ofCode? (s.draws.code (s.draws.taken + t.joinCount)) =
        some ((JoinAlgorithm.ofCode? (s.draws.code (s.draws.taken + t.joinCount))).getD _)
      rw [ha]
      rfl
    · rw [hzero] at hnone
      cases hnone
    · rw [hdraws, ht.draws, Draws.next_snd, Draws.next_snd, Draws.skip_skip, Draws.skip_skip]
      exact congrArg s.draws.skip (Nat.zero_add _).symm
  record ht hrun := (BuildM.record_ends (K := BuildM.Invalid) ht _).state_of_run hrun
  qualify ht hrun := (BuildM.qualifyAll_ends ht _).state_of_run hrun
  select ht hrun := (BuildM.createSelects_ends ht (.inr fun _ => id)).state_of_run hrun
  edge ht hrun :=
    (BuildM.createEdge_ends inRange_blank ht (.inr fun _ => id) _).state_of_run hrun

end BuildState

/-- The codes that were drawn from a source are those of the joins that were made: one for each, and
the join at a place has the code that was drawn after as many others. -/
structure Draws.Spent (d : Draws) (s : BuildState) : Prop where
  draws : s.draws = d.skip s.joinCount
  codes : (s.tops.values.flatMap Plan.codes).Perm
    ((List.range s.joinCount).map fun n : ℕ => ((n : ℤ), d.code (d.taken + n)))

namespace BuildM

open Program BuildState

variable {catalog : Catalog} {settings : Settings} {q : Query} {s s' : BuildState}

/-- A construction that is begun anew is that from the blank state, recoded. -/
theorem run_build_eq (hs : s.draws.InRange) (hq : q.tables ≠ []) :
    (build catalog settings q).run s =
      (((build catalog settings q).run blank).1.map (s.recoding hs).plan,
        (s.recoding hs).state ((build catalog settings q).run blank).2) := by
  have hcolumn (a : Attribute) : (s.recoding hs).column a = a := rfl
  have hbuild : build catalog settings q =
      scanStage catalog q.tables >>= fun _ => planScanned settings q := by
    rw [build, if_neg (by simpa using hq)]
  have hreset : (build catalog settings q).run s =
      (build catalog settings q).run ((s.recoding hs).state blank) := by
    rw [state_recoding_blank, hbuild]
    rfl
  have hfollows : Follows (s.recoding hs) (s.recoding hs).plan (build catalog settings q)
      (build catalog settings q) blank := by
    rw [hbuild]
    refine (follows_scanStage hcolumn catalog q.tables).bind_of_run fun _ t ht => ?_
    obtain ⟨scanned, hscanned, hdraws⟩ := (scanStage_ends catalog q.tables blank).state_of_run ht
    exact follows_planScanned hcolumn (takes_recoding hs) (hscanned.scanned.tallied hdraws)
      settings q
  rw [hreset, hfollows]
  cases ((build catalog settings q).run blank).1 with
  | error e => rw [Except.mapError, failure_eq_self hcolumn]
  | ok p => rfl

/-- What a construction from the blank state comes to has, recoded, spent the codes of the
source. -/
theorem spent_recoding (hs : s.draws.InRange) {tables : List String} {u : BuildState}
    (hu : u.Tallied catalog tables blank.draws) : s.draws.Spent ((s.recoding hs).state u) where
  draws := by
    change s.draws.skip u.draws.taken = s.draws.skip u.joinCount
    rw [hu.draws]
    exact congrArg s.draws.skip (Nat.zero_add u.joinCount)
  codes := by
    have hcodes : ((s.recoding hs).state u).tops.values.flatMap Plan.codes =
        (u.tops.values.flatMap Plan.places).map fun n =>
          (n, s.draws.code (s.draws.taken + n.toNat)) := by
      rw [Disguise.state, OrderedMap.values_mapValues, List.flatMap_map, List.map_flatMap]
      refine List.flatMap_congr fun p _ => ?_
      rw [Plan.codes_plan, ← Plan.map_fst_codes, List.map_map]
      rfl
    rw [hcodes]
    refine (hu.places_perm.map _).trans (List.Perm.of_eq ?_)
    rw [List.map_map]
    rfl

/-- The codes of the plan that is returned are some of those that were drawn. -/
theorem codes_subperm {p : Plan} {u : BuildState}
    (hrun : (build catalog settings q).run s = (.ok p, u)) :
    p.codes.Subperm (u.tops.values.flatMap Plan.codes) := by
  obtain ⟨t, cs, v, ht, htaken, hroot, hsame, -⟩ := build_returns hrun
  obtain ⟨r, hr⟩ := htaken.root_top ht.root hroot
  obtain ⟨before, after, hvalues⟩ :=
    List.append_of_mem (OrderedMap.mem_values_of_get? (hsame.tops ▸ hr : u.tops.get? r = _))
  rw [hvalues, List.flatMap_append, List.flatMap_cons, ← Plan.codes_core]
  exact ((List.sublist_append_left _ _).trans (List.sublist_append_right _ _)).subperm

/-- Two constructions of a query with sources in range, whatever was built before, fail alike or
return plans that are equal up to the codes of their joins, after the same number of joins. Without
tables nothing is drawn and nothing changes; otherwise, whether the construction fails or not, one
code is drawn for every join, and the join at a place has the code that was drawn after as many
others. -/
theorem build_oblivious (hs : s.draws.InRange) (hs' : s'.draws.InRange) :
    ((build catalog settings q).run s).1.map Plan.withoutAlgorithms =
        ((build catalog settings q).run s').1.map Plan.withoutAlgorithms ∧
      (q.tables = [] → ((build catalog settings q).run s).2 = s) ∧
      (q.tables ≠ [] → ((build catalog settings q).run s).2.joinCount =
        ((build catalog settings q).run s').2.joinCount ∧
          s.draws.Spent ((build catalog settings q).run s).2) ∧
      ∀ p, ((build catalog settings q).run s).1 = .ok p →
        p.codes.Subperm (((build catalog settings q).run s).2.tops.values.flatMap Plan.codes) := by
  have hcolumn (t : BuildState) (ht : t.draws.InRange) (a : Attribute) :
      (t.recoding ht).column a = a := rfl
  refine ⟨?_, fun hq => ?_, fun hq => ⟨?_, ?_⟩, fun p hp => codes_subperm (Prod.ext hp rfl)⟩
  · by_cases hq : q.tables = []
    · rw [build, if_pos (by simpa using hq)]
      rfl
    · rw [run_build_eq hs hq, run_build_eq hs' hq]
      cases ((build catalog settings q).run blank).1 with
      | error e => rfl
      | ok p =>
        exact congrArg Except.ok ((Plan.withoutAlgorithms_plan (hcolumn s hs) p).trans
          (Plan.withoutAlgorithms_plan (hcolumn s' hs') p).symm)
  · rw [build, if_pos (by simpa using hq)]
    rfl
  · rw [run_build_eq hs hq, run_build_eq hs' hq]
    rfl
  · obtain ⟨scanned, hu⟩ := (build_ends inRange_blank hq catalog settings).state
    rw [run_build_eq hs hq]
    exact spent_recoding hs hu

theorem build_oblivious_sample :
    Sample.start.draws.InRange ∧ (Draws.ofSeed 7).InRange ∧
      (∃ p, ((build Sample.catalog default Sample.query).run { draws := Draws.ofSeed 7 }).1 =
        .ok p ∧ p.withoutAlgorithms = Sample.plan.withoutAlgorithms) ∧
      Sample.start.draws.Spent Sample.finish ∧
      Sample.plan.codes.Subperm (Sample.finish.tops.values.flatMap Plan.codes) := by
  have hs : Sample.start.draws.InRange := Draws.inRange_cycle (by decide)
  have hs' : (Draws.ofSeed 7).InRange := Draws.inRange_ofSeed 7
  obtain ⟨hplans, -, hspent, hcodes⟩ := @build_oblivious Sample.catalog default Sample.query
    Sample.start { draws := Draws.ofSeed 7 } hs hs'
  rw [Sample.run_start] at hplans hspent hcodes
  obtain ⟨p, hp, hsame⟩ := map_eq_ok_iff.1 hplans.symm
  exact ⟨hs, hs', ⟨p, hp, hsame⟩, (hspent (by decide)).2, hcodes Sample.plan rfl⟩

end BuildM

end QueryPlan
