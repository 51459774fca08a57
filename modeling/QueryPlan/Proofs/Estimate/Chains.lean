import Mathlib
import QueryPlan.Proofs.Estimate.Context
import QueryPlan.Proofs.Estimate.Remainders
import QueryPlan.Proofs.Estimate.Resources

/-!
# Chains of selections

A selection sets the distinct counts of all its columns to the number of tuples that it keeps. So of
several selections in a row only the first one reads a statistic. From then on every column has as
many distinct values as there are tuples, and what a further selection keeps depends on its
comparator and on the number of its tuples alone.

## Main definitions

* `Comparator.keptOf`, `Plan.keptBy` : what a comparison keeps of tuples that are all different, and
  what several of them keep one after the other.
* `Counts.Level` : all columns of a schema have the same distinct count.

## Main results

* `selectedTuples_self` : a selection from a column without repeated values.
* `Condition.Keeps.level`, `Condition.keeps_of_level` : a selection makes the counts level, and from
  level counts it keeps what its comparator says.
* `Plan.Yields.chain` : the selections of a chain, and their visits, one after the other.
* `Plan.estimate_chain` : the estimate of a chain of selections.
-/

namespace QueryPlan

/-- What a comparison with a value keeps of `tuples` tuples that all differ in the compared column:
one of them, all but one, or half of them. -/
def Comparator.keptOf (c : Comparator) (tuples : ℤ) : ℤ :=
  if tuples = 0 then 0
  else
    match c with
    | .equal => 1
    | .notEqual => tuples - 1
    | .less | .lessEqual | .greater | .greaterEqual => ⌈(tuples / 2 : ℚ)⌉

namespace Comparator

variable {c : Comparator} {n : ℤ}

theorem keptOf_zero (c : Comparator) : c.keptOf 0 = 0 := if_pos rfl

/-- A comparison keeps no more tuples than there are, and not a negative number. -/
theorem keptOf_mem_Icc (c : Comparator) (hn : 0 ≤ n) : c.keptOf n ∈ Set.Icc 0 n := by
  obtain rfl | hne := eq_or_ne n 0
  · rw [keptOf_zero]
    exact Set.left_mem_Icc.2 le_rfl
  have hpos : 1 ≤ n := by omega
  have hpos' : (0 : ℚ) ≤ n := by exact_mod_cast hn
  unfold keptOf
  rw [if_neg hne]
  cases c with
  | equal => exact ⟨zero_le_one, hpos⟩
  | notEqual => exact ⟨sub_nonneg.2 hpos, sub_le_self n zero_le_one⟩
  | less | lessEqual | greater | greaterEqual =>
    exact ⟨Int.ceil_nonneg (by positivity), Int.ceil_le.2 (half_le_self hpos')⟩

end Comparator

/-- A selection from a column without repeated values keeps what its comparator says. -/
theorem selectedTuples_self {n : ℤ} (c : Comparator) (hn0 : 0 ≤ n) (hn : n ≤ 2 ^ 53) :
    selectedTuples c n n = .ok (c.keptOf n) := by
  lift n to ℕ using hn0
  have hn' : n ≤ twoPow 53 := by exact_mod_cast hn
  obtain rfl | hpos := Nat.eq_zero_or_pos n
  · exact congrArg Except.ok c.keptOf_zero.symm
  have hne : (n : ℤ) ≠ 0 := Int.natCast_ne_zero.2 hpos.ne'
  have hone : (n / n : ℚ) = 1 := div_self (Nat.cast_ne_zero.2 hpos.ne')
  unfold Comparator.keptOf
  rw [if_neg hne]
  cases c with
  | equal => rw [selectedTuples_equal hn' hpos hn', hone, Int.ceil_one]
  | notEqual =>
    rw [selectedTuples_notEqual hn' hpos hn', if_neg fun h => h.1 dvd_rfl, ceil_sub_div,
      Int.ediv_self hne, sub_zero]
  | less | lessEqual | greater | greaterEqual =>
    exact selectedTuples_range nofun nofun hn' hpos

/-! ### Level counts -/

/-- All columns of a schema have the same distinct count. -/
def Counts.Level (schema : Schema) (m : Counts) (n : ℤ) : Prop :=
  ∀ k ∈ schema.keys, m.get? k = some n

/-- Keys that are bound to one value all have it afterwards. -/
theorem OrderedMap.get?_insertAll_const {α β : Type} [DecidableEq α] {m : OrderedMap α β}
    {ks : List α} {k : α} {v : β} (hk : k ∈ ks) :
    (m.insertAll (ks.map fun j => (j, v))).get? k = some v := by
  induction ks generalizing m with
  | nil => cases hk
  | cons j ks ih =>
    by_cases hmem : k ∈ ks
    · exact ih hmem
    · obtain rfl : k = j := (List.mem_cons.1 hk).resolve_right hmem
      have hfst : k ∉ (ks.map fun j => (j, v)).map Prod.fst := by
        rwa [List.map_map, Function.comp_def, List.map_id']
      rw [List.map_cons, insertAll, get?_insertAll_of_not_mem hfst, get?_insert_self]

namespace Condition

variable {schema : Schema} {c : Condition} {m m' : Counts} {tuples kept n : ℤ}

/-- A selection sets the counts of all its columns to what it keeps. -/
theorem Keeps.level (h : c.Keeps schema m tuples kept m') : Counts.Level schema m' kept := by
  obtain ⟨_, _, -, -, -, rfl⟩ := h
  intro k hk
  have hmap := List.map_map (f := Attribute.key) (g := fun k => (k, kept)) (l := schema.attributes)
  rw [← show _ = schema.attributes.map fun column => (column.key, kept) from hmap]
  exact OrderedMap.get?_insertAll_const hk

/-- Where every column has as many distinct values as there are tuples, a selection keeps what its
comparator says, whatever its column is. -/
theorem keeps_of_level (hlevel : Counts.Level schema m n) (hc : schema.contains c.lhs = true)
    (hn0 : 0 ≤ n) (hn : n ≤ 2 ^ 53) : ∃ m', c.Keeps schema m n (c.comparator.keptOf n) m' := by
  obtain ⟨a, ha⟩ := Option.isSome_iff_exists.1 hc
  have hcount := hlevel _ (Schema.key_mem_keys_of_resolve? ha)
  exact ⟨_, a, n, ha, hcount, selectedTuples_self _ hn0 hn, rfl⟩

end Condition

/-- In a visit of a selection with this condition, what its comparator says of the tuples that it
got was put out. -/
def Condition.Narrows (c : Condition) (v : Visit) : Prop :=
  ∃ base tuples, v.operator = .select base c ∧ v.inputs = [tuples] ∧
    v.result = .ok (c.comparator.keptOf tuples)

namespace Plan

open PassM

variable {catalog : Catalog} {settings : Settings} {p : Plan} {m m' : Counts} {n cost : ℤ}
  {c : Condition} {cs : List Condition}

/-! ### Chains -/

/-- What is kept of `tuples` different tuples by selections with the given comparators, one after
the other. -/
def keptBy (comparators : List Comparator) (tuples : ℤ) : ℤ :=
  comparators.foldl (fun n c => c.keptOf n) tuples

/-- A selection that returns something over a plan that yields something keeps it. -/
theorem Yields.keeps_of_returns {s t : PassState} {kept : ℤ}
    (h : p.Yields catalog settings m n m' cost) (hs : s.feasible = true) (hm : s.distinct = m)
    (hreturns : ((Plan.select p c).evaluate catalog settings).Returns s kept t) :
    ∃ m'', c.Keeps p.schema m' n kept m'' ∧ t.feasible = true := by
  simp only [evaluate, returns_bind_iff, returns_recordEstimate_iff] at hreturns
  obtain ⟨_, u, hbase, _, v, hselect, rfl, rfl⟩ := hreturns
  obtain ⟨u', hbase', hu, hdistinct, -⟩ := h.returns hs hm
  obtain ⟨rfl, rfl⟩ := hbase.unique hbase'
  obtain ⟨m'', hkeeps, rfl⟩ := (returns_evaluateSelect_iff hu).1 hselect
  exact ⟨m'', hdistinct ▸ hkeeps, hu⟩

/-- One more selection over level counts. -/
theorem Yields.select_of_level (h : p.Yields catalog settings m n m' cost)
    (hlevel : Counts.Level p.schema m' n) (hc : p.schema.contains c.lhs = true) (hn0 : 0 ≤ n)
    (hn : n ≤ 2 ^ 53) :
    ∃ m'', (Plan.select p c).Yields catalog settings m (c.comparator.keptOf n) m'' cost ∧
      Counts.Level p.schema m'' (c.comparator.keptOf n) := by
  obtain ⟨m'', hkeeps⟩ := Condition.keeps_of_level hlevel hc hn0 hn
  exact ⟨m'', .select h hkeeps, hkeeps.level⟩

/-- A chain of selections over level counts keeps what the comparators say, at no cost, and in a
pass over it each of them is visited once and narrows what it gets. -/
theorem Yields.chain (h : p.Yields catalog settings m n m' cost)
    (hlevel : Counts.Level p.schema m' n) (hcs : ∀ c ∈ cs, p.schema.contains c.lhs = true)
    (hn0 : 0 ≤ n) (hn : n ≤ 2 ^ 53) {s : PassState} (hs : s.feasible = true)
    (hm : s.distinct = m) :
    (∃ m'', (cs.foldl Plan.select p).Yields catalog settings m
        (keptBy (cs.map (·.comparator)) n) m'' cost) ∧
      ∃ vs, (cs.foldl Plan.select p).visits catalog settings s =
        p.visits catalog settings s ++ vs ∧ List.Forall₂ Condition.Narrows cs vs := by
  induction cs generalizing p n m' with
  | nil => exact ⟨⟨m', h⟩, [], (List.append_nil _).symm, .nil⟩
  | cons c cs ih =>
    obtain ⟨hc, hcs⟩ := List.forall_mem_cons.1 hcs
    obtain ⟨m'', hyields, hlevel'⟩ := h.select_of_level hlevel hc hn0 hn
    obtain ⟨hkept0, hkept⟩ := c.comparator.keptOf_mem_Icc hn0
    obtain ⟨hchain, vs, hvs, hnarrow⟩ := ih hyields hlevel' hcs hkept0 (hkept.trans hn)
    obtain ⟨u, hbase, -⟩ := h.returns hs hm
    obtain ⟨t, hreturns, -⟩ := hyields.returns hs hm
    refine ⟨hchain, ⟨Plan.select p c, [n], s, .ok _, t⟩ :: vs, ?_,
      .cons ⟨p, n, rfl, rfl, rfl⟩ hnarrow⟩
    rw [List.foldl_cons, hvs, visits_of_input rfl hbase hreturns, List.append_assoc,
      List.singleton_append]

/-- Of several selections in a row over a feasible plan, those after the first one do not depend on
statistics. If the first one puts out at most `2 ^ 53` tuples, each of them puts out what its
comparator says of the tuples that it gets, so the chain puts out what is left by the comparators
one after the other, and costs what the plan below it costs. Other columns in the later selections
make no difference. -/
theorem estimate_chain {base : Plan} {first : Condition} {later : List Condition}
    {below e : Estimate} (hbelow : base.estimate catalog settings = .ok below)
    (hfeasible : below.feasible = true)
    (hfirst : (select base first).estimate catalog settings = .ok e)
    (hsmall : e.cardinality ≤ 2 ^ 53)
    (hlater : ∀ c ∈ later, base.schema.contains c.lhs = true) :
    (later.foldl select (select base first)).estimate catalog settings =
        .ok ⟨below.cost, keptBy (later.map (·.comparator)) e.cardinality, true⟩ ∧
      (∃ vs, (later.foldl select (select base first)).visits catalog settings {} =
        (select base first).visits catalog settings {} ++ vs ∧
          List.Forall₂ Condition.Narrows later vs) ∧
      ∀ other : List Condition, other.map (·.comparator) = later.map (·.comparator) →
        (∀ c ∈ other, base.schema.contains c.lhs = true) →
        (other.foldl select (select base first)).estimate catalog settings =
          (later.foldl select (select base first)).estimate catalog settings := by
  have hbase := yields_of_estimate hbelow hfeasible
  obtain ⟨n, t, hreturns, rfl⟩ := estimate_eq_ok_iff.1 hfirst
  obtain ⟨m, hkeeps, ht⟩ := hbase.keeps_of_returns rfl rfl hreturns
  have hyields : (select base first).Yields catalog settings {} n m below.cost :=
    .select hbase hkeeps
  obtain ⟨hn0, -⟩ := hyields.nonneg .empty
  rw [estimateOf, if_pos ht] at hsmall ⊢
  have hchain {cs : List Condition} (hcs : ∀ c ∈ cs, base.schema.contains c.lhs = true) :=
    hyields.chain hkeeps.level hcs hn0 hsmall (s := {}) rfl rfl
  have hestimate {cs : List Condition} (hcs : ∀ c ∈ cs, base.schema.contains c.lhs = true) :
      (cs.foldl select (select base first)).estimate catalog settings =
        .ok ⟨below.cost, keptBy (cs.map (·.comparator)) n, true⟩ := by
    obtain ⟨⟨m', hwhole⟩, -⟩ := hchain hcs
    exact hwhole.estimate.1
  refine ⟨hestimate hlater, (hchain hlater).2, fun other hsame hother => ?_⟩
  rw [hestimate hother, hestimate hlater, hsame]

/-- Further selections on both columns of the table `A`. -/
def Sample.further : List Condition :=
  [{ lhs := column "A" "x", rhs := .integer 7, comparator := .less },
    { lhs := column "A" "w", rhs := .integer 1, comparator := .notEqual },
    { lhs := column "A" "x", rhs := .integer 4 }]

/-- The same comparisons, all of them on the other column. -/
def Sample.exchanged : List Condition :=
  [{ lhs := column "A" "w", rhs := .integer 7, comparator := .less },
    { lhs := column "A" "x", rhs := .integer 1, comparator := .notEqual },
    { lhs := column "A" "w", rhs := .integer 4 }]

theorem estimate_chain_sample :
    (Sample.table "A" "x" "w").estimate Sample.catalog Sample.settings = .ok ⟨10, 20, true⟩ ∧
      Sample.left.estimate Sample.catalog Sample.settings = .ok ⟨10, 10, true⟩ ∧
      (Sample.further.foldl select Sample.left).estimate Sample.catalog Sample.settings =
        .ok ⟨10, 1, true⟩ ∧
      (Sample.exchanged.foldl select Sample.left).estimate Sample.catalog Sample.settings =
        .ok ⟨10, 1, true⟩ := by
  have hbelow : (Sample.table "A" "x" "w").estimate Sample.catalog Sample.settings =
      .ok ⟨10, 20, true⟩ := by decide +kernel
  have hfirst : Sample.left.estimate Sample.catalog Sample.settings = .ok ⟨10, 10, true⟩ := by
    decide +kernel
  have hkept : keptBy [.less, .notEqual, .equal] 10 = 1 := by
    norm_num [keptBy, Comparator.keptOf]
  have hlater : ∀ c ∈ Sample.further, (Sample.table "A" "x" "w").schema.contains c.lhs = true := by
    decide +kernel
  obtain ⟨hestimate, -, hother⟩ := estimate_chain hbelow rfl hfirst (by decide) hlater
  have hfurther : (Sample.further.foldl select Sample.left).estimate Sample.catalog
      Sample.settings = .ok ⟨10, 1, true⟩ := hestimate.trans (by rw [← hkept]; rfl)
  exact ⟨hbelow, hfirst, hfurther,
    (hother Sample.exchanged rfl (by decide +kernel)).trans hfurther⟩

end Plan

end QueryPlan
