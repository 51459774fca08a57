import Mathlib
import QueryPlan.Proofs.Estimate.Visits
import QueryPlan.Proofs.Plan.Parts

/-!
# Which plans are feasible

Whether a pass ends feasible is read off the plan and the settings: some operators obstruct a plan
wherever they stand, and nothing else does. Statistics, conditions and schemas play no part in it,
as long as the pass returns. Once the plan is infeasible nothing that a pass still visits changes
that, so it does not matter that the pass goes on with the right side of a join after its left side
was given up, nor that it does not look below an operator that is not known.

## Main definitions

* `Plan.Obstructs` : an operator that cannot be carried out.
* `Visit.Settles` : visits that lead from a state to another and after which a plan stays
  infeasible.

## Main results

* `Plan.feasible_iff_of_returns` : a pass ends feasible when it started so and nothing obstructs it.
* `Plan.settles_visitsAs` : a plan stays infeasible through the visits of a pass.
* `Plan.estimateAs_feasible` : which estimates are feasible.
-/

namespace QueryPlan

namespace PassM

variable {settings : Settings} {s t : PassState} {left right : Schema} {cs : List Condition}
  {c : Condition} {code leftTuples rightTuples tuples n : ℤ}

theorem feasible_evaluateSelect {schema : Schema}
    (h : (evaluateSelect schema c tuples).Returns s n t) : t.feasible = s.feasible := by
  cases hs : s.feasible with
  | false =>
    obtain ⟨-, rfl⟩ := (returns_evaluateSelect_of_not_feasible hs).1 h
    exact hs
  | true =>
    obtain ⟨m, -, rfl⟩ := (returns_evaluateSelect_iff hs).1 h
    exact hs

theorem feasible_evaluateJoin_iff
    (h : (evaluateJoin settings left right cs code leftTuples rightTuples).Returns s n t) :
    t.feasible = true ↔ s.feasible = true ∧ settings.Supports code := by
  refine ⟨fun ht => ?_, fun ⟨hs, hcode⟩ => ?_⟩
  · obtain ⟨hs, hcode, -⟩ := matches_of_returns h ht
    exact ⟨hs, hcode⟩
  · obtain ⟨l, r, tuples, m, -, -, -, hcharge⟩ := (returns_evaluateJoin_iff hs).1 h
    obtain ⟨events, hreturns⟩ := chargeJoin_returns hcode l r tuples { s with distinct := m }
    obtain ⟨-, rfl⟩ := hcharge.unique hreturns
    exact hs

theorem feasible_evaluateSorting_iff {operator : String} {size : ℤ}
    (h : (evaluateSorting settings operator size tuples).Returns s n t) :
    t.feasible = true ↔ s.feasible = true ∧ minBuffers ≤ settings.numBuffers := by
  refine ⟨fun ht => ?_, fun ⟨hs, hbuffers⟩ => ?_⟩
  · obtain ⟨hs, hbuffers, -⟩ := sorts_of_returns h ht
    exact ⟨hs, hbuffers⟩
  · obtain ⟨pages, cost, -, -, -, rfl⟩ := (returns_evaluateSorting_iff hs hbuffers).1 h
    exact hs

end PassM

@[simp] theorem feasible_estimateOf (n : ℤ) (s : PassState) :
    (estimateOf n s).feasible = s.feasible := by
  unfold estimateOf
  cases s.feasible <;> rfl

/-! ### Visits after which a plan stays infeasible -/

namespace Visit

/-- A visit that ended infeasible was followed by another one that did. -/
def Persists (v w : Visit) : Prop := v.after.feasible = false → w.after.feasible = false

/-- Some visits on the way from the state `s` to the state `t`: a plan that was infeasible before
them, or after one of them, is so after all that follow. -/
structure Settles (visits : List Visit) (s t : PassState) : Prop where
  inherits : s.feasible = false → ∀ v ∈ visits, v.after.feasible = false
  persists : visits.Pairwise Persists
  ends : ∀ v ∈ visits, v.after.feasible = false → t.feasible = false
  through : s.feasible = false → t.feasible = false

theorem Settles.append {vs ws : List Visit} {s t u : PassState} (hvs : Settles vs s t)
    (hws : Settles ws t u) : Settles (vs ++ ws) s u where
  inherits hs v hv := (List.mem_append.1 hv).elim (hvs.inherits hs v)
    (hws.inherits (hvs.through hs) v)
  persists := List.pairwise_append.2 ⟨hvs.persists, hws.persists,
    fun v hv w hw hfeasible => hws.inherits (hvs.ends v hv hfeasible) w hw⟩
  ends v hv hfeasible := (List.mem_append.1 hv).elim
    (fun hv => hws.through (hvs.ends v hv hfeasible)) (fun hv => hws.ends v hv hfeasible)
  through hs := hws.through (hvs.through hs)

theorem settles_singleton {v : Visit} {s : PassState}
    (h : s.feasible = false → v.after.feasible = false) : Settles [v] s v.after where
  inherits hs _ hw := List.mem_singleton.1 hw ▸ h hs
  persists := List.pairwise_singleton _ _
  ends _ hw hfeasible := List.mem_singleton.1 hw ▸ hfeasible
  through := h

end Visit

namespace Plan

open PassM Visit

variable {catalog : Catalog} {settings : Settings} {outputs : Outputs} {p base left right : Plan}
  {s t u v : PassState} {n : ℤ}

/-! ### Obstructions -/

/-- An operator that cannot be carried out: one that is not known, a join whose code no algorithm
has or whose algorithm needs more buffers, or a sorting operator that needs more buffers. -/
def Obstructs (settings : Settings) : Plan → Prop
  | join _ _ _ code _ => code ≠ 0 ∧ code ≠ 1 ∧ code ≠ 2 ∨
      (code = 1 ∨ code = 2) ∧ settings.buffersPerJoin < 3
  | sorting _ _ _ => settings.numBuffers < 3
  | foreign _ _ _ | foreignLeaf _ _ => True
  | scan _ _ | select _ _ | project _ _ => False

theorem not_obstructs_join_iff {cs : List Condition} {code place : ℤ} :
    ¬ (join left right cs code place).Obstructs settings ↔ settings.Supports code := by
  unfold Obstructs Settings.Supports minBuffers
  omega

/-- Nothing that cannot be carried out is part of a plan. -/
def Unobstructed (settings : Settings) (p : Plan) : Prop :=
  ∀ q : Plan, q.IsPart p → ¬ q.Obstructs settings

theorem unobstructed_iff : p.Unobstructed settings ↔
    ¬ p.Obstructs settings ∧ ∀ c ∈ p.children, c.Unobstructed settings := by
  constructor
  · exact fun h => ⟨h p (.refl p), fun c hc q hq => h q (hq.child hc)⟩
  · rintro ⟨hp, hchildren⟩ q hq
    obtain rfl | ⟨c, hc, hqc⟩ := isPart_iff.1 hq
    · exact hp
    · exact hchildren c hc q hqc

theorem unobstructed_scan (table : String) (schema : Schema) :
    (scan table schema).Unobstructed settings :=
  unobstructed_iff.2 ⟨id, nofun⟩

theorem unobstructed_select_iff {c : Condition} :
    (select base c).Unobstructed settings ↔ base.Unobstructed settings := by
  simp [unobstructed_iff (p := select base c), Obstructs, children]

theorem unobstructed_project_iff {columns : List Attribute} :
    (project base columns).Unobstructed settings ↔ base.Unobstructed settings := by
  simp [unobstructed_iff (p := project base columns), Obstructs, children]

theorem unobstructed_join_iff {cs : List Condition} {code place : ℤ} :
    (join left right cs code place).Unobstructed settings ↔
      left.Unobstructed settings ∧ right.Unobstructed settings ∧ settings.Supports code := by
  simp [unobstructed_iff (p := join left right cs code place), not_obstructs_join_iff, children,
    and_comm, and_assoc]

theorem unobstructed_sorting_iff {task : SortTask} {buffers : ℤ} :
    (sorting base task buffers).Unobstructed settings ↔
      base.Unobstructed settings ∧ minBuffers ≤ settings.numBuffers := by
  simp [unobstructed_iff (p := sorting base task buffers), Obstructs, children, minBuffers,
    and_comm]

/-- A pass ends feasible when it started so and nothing obstructs the plan. -/
theorem feasible_iff_of_returns (h : (p.evaluateAs catalog settings outputs).Returns s n t) :
    t.feasible = true ↔ s.feasible = true ∧ p.Unobstructed settings := by
  induction p generalizing outputs s n t with
  | scan table schema =>
    simp only [evaluateAs, returns_bind_iff, returns_recordEstimate_iff] at h
    obtain ⟨_, u, hscan, rfl, rfl⟩ := h
    obtain ⟨statistics, pages, -, -, -, rfl⟩ := returns_evaluateScan_iff.1 hscan
    exact (and_iff_left (unobstructed_scan table schema)).symm
  | select base c ih =>
    simp only [evaluateAs, returns_bind_iff, returns_recordEstimate_iff] at h
    obtain ⟨tuples, u, hbase, _, v, hselect, rfl, rfl⟩ := h
    rw [unobstructed_select_iff, ← ih hbase, ← feasible_evaluateSelect hselect]
  | project base columns ih =>
    simp only [evaluateAs, returns_bind_iff, returns_recordEstimate_iff] at h
    obtain ⟨_, u, hbase, rfl, rfl⟩ := h
    rw [unobstructed_project_iff, ← ih hbase]
  | join left right cs code place ihl ihr =>
    simp only [evaluateAs, returns_bind_iff, returns_recordEstimate_iff] at h
    obtain ⟨l, u, hleft, r, v, hright, _, w, hjoin, rfl, rfl⟩ := h
    rw [unobstructed_join_iff, ← and_assoc, ← ihl hleft, ← and_assoc, ← ihr hright,
      ← feasible_evaluateJoin_iff hjoin]
  | sorting base task buffers ih =>
    simp only [evaluateAs, returns_bind_iff, returns_recordEstimate_iff] at h
    obtain ⟨tuples, u, hbase, _, v, hsort, rfl, rfl⟩ := h
    rw [unobstructed_sorting_iff, ← and_assoc, ← ih hbase, ← feasible_evaluateSorting_iff hsort]
  | foreign base name output | foreignLeaf name output =>
    obtain ⟨events, hforeign⟩ := evaluateForeign_gives_up s name
    obtain ⟨rfl, rfl⟩ := Returns.unique h hforeign
    refine iff_of_false Bool.false_ne_true ?_
    rintro ⟨-, hp⟩
    exact hp _ (.refl _) trivial

/-- A pass that starts infeasible stays so. -/
theorem not_feasible_of_returns (h : (p.evaluateAs catalog settings outputs).Returns s n t)
    (hs : s.feasible = false) : t.feasible = false := by
  rw [← Bool.not_eq_true, feasible_iff_of_returns h, hs]
  simp

/-- A plan is infeasible when the visit of what stands directly below its root ended so, but had not
started so. -/
theorem not_feasible_of_child {outputs' : Outputs} {q : Plan} {k : ℤ} (hq : q ∈ p.children)
    (h : (p.evaluateAs catalog settings outputs).Returns s n t)
    (hbelow : (q.evaluateAs catalog settings outputs').Returns u k v)
    (hu : t.feasible = true → u.feasible = true) (hv : v.feasible = false) :
    t.feasible = false := by
  by_contra ht
  have ht' : t.feasible = true := by simpa using ht
  obtain ⟨-, hp⟩ := (feasible_iff_of_returns h).1 ht'
  have hvisit := (feasible_iff_of_returns hbelow).2 ⟨hu ht', (unobstructed_iff.1 hp).2 q hq⟩
  exact absurd (hv.symm.trans hvisit) nofun

/-- A plan stays infeasible through the visits of a pass. -/
theorem settles_visitsAs (h : (p.evaluateAs catalog settings outputs).Returns s n t) :
    Settles (p.visitsAs catalog settings outputs s) s t := by
  have hstart := (feasible_iff_of_returns h).1
  induction p generalizing outputs s n t with
  | select base _ ih | project base _ ih | sorting base _ _ ih =>
    obtain ⟨tuples, u, hbase⟩ := returns_input rfl h
    rw [visitsAs_of_input rfl hbase h]
    refine (ih hbase (feasible_iff_of_returns hbase).1).append (settles_singleton ?_)
    exact not_feasible_of_child List.mem_cons_self h hbase fun ht => (hstart ht).1
  | join left right cs code place ihl ihr =>
    obtain ⟨l, u, hleft, hrest⟩ := returns_bind_iff.1 h
    obtain ⟨r, v, hright, -⟩ := returns_bind_iff.1 hrest
    rw [visitsAs_join hleft hright h]
    have hleftSettles := ihl hleft (feasible_iff_of_returns hleft).1
    have hrightSettles := ihr hright (feasible_iff_of_returns hright).1
    refine (hleftSettles.append hrightSettles).append (settles_singleton ?_)
    refine not_feasible_of_child (List.mem_cons_of_mem _ List.mem_cons_self) h hright fun ht => ?_
    obtain ⟨hs, hp⟩ := hstart ht
    exact (feasible_iff_of_returns hleft).2 ⟨hs, (unobstructed_join_iff.1 hp).1⟩
  | scan | foreign | foreignLeaf =>
    rw [visitsAs, visitAs_of_returns h]
    exact settles_singleton fun hs => not_feasible_of_returns h hs

/-- An estimate is infeasible exactly when something that cannot be carried out is part of the plan,
for output schemas of any origin. It then has the cost that stands for such plans. No visit after
one that ended infeasible ends feasible, that of the root among them, and the verdict is the same
with any other statistics. -/
theorem estimateAs_feasible (catalog : Catalog) (settings : Settings) (p : Plan) :
    p.estimateAs catalog settings p.outputs = p.estimate catalog settings ∧
      ∀ (outputs : Outputs) (e : Estimate), p.estimateAs catalog settings outputs = .ok e →
        (e.feasible = false ↔ ∃ q : Plan, q.IsPart p ∧ q.Obstructs settings) ∧
        (e.feasible = false → e.cost = maxCost) ∧
        (p.visitsAs catalog settings outputs {}).Pairwise Persists ∧
        (∀ v ∈ p.visitsAs catalog settings outputs {}, v.after.feasible = false →
          e.feasible = false) ∧
        ∀ (catalog' : Catalog) (outputs' : Outputs) (e' : Estimate),
          p.estimateAs catalog' settings outputs' = .ok e' → e'.feasible = e.feasible := by
  have hverdict {catalog : Catalog} {outputs : Outputs} {e : Estimate}
      (h : p.estimateAs catalog settings outputs = .ok e) :
      e.feasible = true ↔ p.Unobstructed settings := by
    obtain ⟨n, t, hreturns, rfl⟩ := estimateAs_eq_ok_iff.1 h
    rw [feasible_estimateOf, feasible_iff_of_returns hreturns]
    exact and_iff_right rfl
  refine ⟨p.estimateAs_outputs catalog settings, fun outputs e h => ?_⟩
  obtain ⟨n, t, hreturns, rfl⟩ := estimateAs_eq_ok_iff.1 h
  have hsettles := settles_visitsAs hreturns
  refine ⟨?_, ?_, hsettles.persists, fun v hv hfeasible => ?_, fun catalog' outputs' e' h' => ?_⟩
  · rw [← Bool.not_eq_true, hverdict h]
    simp [Unobstructed]
  · intro hfeasible
    rw [feasible_estimateOf] at hfeasible
    simp [estimateOf, hfeasible]
  · rw [feasible_estimateOf]
    exact hsettles.ends v hv hfeasible
  · exact Bool.eq_iff_iff.2 ((hverdict h').trans (hverdict h).symm)

theorem estimateAs_feasible_sample :
    (Sample.plan 0 7).estimate Sample.catalog Sample.settings = .ok ⟨maxCost, 0, false⟩ ∧
      (∃ q : Plan, q.IsPart (Sample.plan 0 7) ∧ q.Obstructs Sample.settings) ∧
      ((Sample.plan 0 7).visitsAs Sample.catalog Sample.settings (Sample.plan 0 7).outputs
        {}).Pairwise Persists := by
  have hestimate : (Sample.plan 0 7).estimate Sample.catalog Sample.settings =
      .ok ⟨maxCost, 0, false⟩ := by decide +kernel
  obtain ⟨houtputs, hfeasible⟩ :=
    estimateAs_feasible Sample.catalog Sample.settings (Sample.plan 0 7)
  obtain ⟨hverdict, -, hpersists, -⟩ := hfeasible _ _ (houtputs.trans hestimate)
  exact ⟨hestimate, hverdict.1 rfl, hpersists⟩

end Plan

end QueryPlan
