import Mathlib
import QueryPlan.Proofs.Estimate.Costs

/-!
# What the steps of a pass do

A step of a pass that returns a value does so from one state into another. What each step does to
the state is said here once, for the primitive steps by an equation of states and for the operators
by the computations that they are made of. What is recorded as events is left open where nothing
depends on it.

## Main definitions

* `PassM.Returns` : a step returns a value from a state into a state.
* `Condition.Keeps`, `Condition.Narrow`, `Condition.Match` : what a selection and the conditions of
  a join do to numbers of tuples and distinct counts.

## Main results

* `PassM.returns_bind_iff` : a sequence returns when both of its parts do.
* `PassM.returns_evaluateScan_iff`, `PassM.returns_evaluateSelect_iff`,
  `PassM.returns_evaluateJoin_iff`, `PassM.returns_evaluateSorting_iff` : the operators, from a
  state that is feasible.
* `PassM.chargeJoin_returns`, `PassM.chargeJoin_gives_up` : joins that can be carried out, and those
  that cannot.
-/

namespace QueryPlan

theorem JoinAlgorithm.ofCode?_eq (code : ℤ) : ofCode? code =
    if code = 0 then some nestedLoop else if code = 1 then some blockNested
    else if code = 2 then some sortMerge else none := by
  by_cases h0 : 0 = code
  · simp [ofCode?, all, JoinAlgorithm.code, ← h0]
  by_cases h1 : 1 = code
  · simp [ofCode?, all, JoinAlgorithm.code, ← h1]
  by_cases h2 : 2 = code
  · simp [ofCode?, all, JoinAlgorithm.code, ← h2]
  simp [ofCode?, all, JoinAlgorithm.code, h0, h1, h2, Ne.symm h0, Ne.symm h1, Ne.symm h2]

/-- The map with entries bound one after the other. -/
def OrderedMap.insertAll {α β : Type} [DecidableEq α] (m : OrderedMap α β) :
    List (α × β) → OrderedMap α β
  | [] => m
  | (k, v) :: es => (m.insert k v).insertAll es

namespace OrderedMap

variable {α β : Type} [DecidableEq α] {m m' : OrderedMap α β} {es : List (α × β)} {k : α} {v : β}

theorem get?_insertAll_of_not_mem (h : k ∉ es.map Prod.fst) :
    (m.insertAll es).get? k = m.get? k := by
  induction es generalizing m with
  | nil => rfl
  | cons e es ih =>
    rw [List.map_cons, List.mem_cons, not_or] at h
    rw [insertAll, ih h.2, get?_insert_of_ne _ (Ne.symm h.1)]

/-- What a key is bound to afterwards is among the entries or was there before. -/
theorem mem_or_of_get?_insertAll (h : (m.insertAll es).get? k = some v) :
    (k, v) ∈ es ∨ m.get? k = some v := by
  induction es generalizing m with
  | nil => exact .inr h
  | cons e es ih =>
    obtain hmem | hget := ih h
    · exact .inl (List.mem_cons_of_mem _ hmem)
    · rw [get?_insert] at hget
      split_ifs at hget with hk
      · obtain rfl := Option.some.inj hget
        exact .inl (hk ▸ List.mem_cons_self)
      · exact .inr hget

theorem mem_keys_insertAll : k ∈ (m.insertAll es).keys ↔ k ∈ m.keys ∨ k ∈ es.map Prod.fst := by
  induction es generalizing m with
  | nil => simp [insertAll]
  | cons e es ih =>
    rw [insertAll, ih, mem_keys_insert, List.map_cons, List.mem_cons, or_comm (a := k = e.1),
      or_assoc]

/-- The entries that are bound afterwards hide what was there before. -/
theorem get?_insertAll_congr (h : k ∈ es.map Prod.fst ∨ m.get? k = m'.get? k) :
    (m.insertAll es).get? k = (m'.insertAll es).get? k := by
  induction es generalizing m m' with
  | nil => exact h.resolve_left List.not_mem_nil
  | cons e es ih =>
    refine ih ?_
    rw [get?_insert, get?_insert]
    rw [List.map_cons, List.mem_cons, or_assoc] at h
    obtain rfl | h | h := h
    · exact .inr (by simp)
    · exact .inl h
    · exact .inr (by rw [h])

end OrderedMap

/-- The distinct counts that the statistics of a table give its columns. -/
def Schema.measured (schema : Schema) (statistics : Statistics) : List (AttributeKey × ℤ) :=
  (schema.attributes.zip (statistics.distinctCounts.map Int.ofNat)).map fun e => (e.1.key, e.2)

/-- The distinct counts of columns. -/
abbrev Counts := OrderedMap AttributeKey ℤ

/-- What a selection with a condition keeps of `tuples` tuples with the given columns, and the
distinct counts it leaves. -/
def Condition.Keeps (c : Condition) (schema : Schema) (m : Counts) (tuples kept : ℤ) (m' : Counts) :
    Prop :=
  ∃ a distinct, schema.resolve? c.lhs = some a ∧ m.get? a.key = some distinct ∧
    selectedTuples c.comparator tuples distinct = .ok kept ∧
    m' = m.insertAll (schema.attributes.map fun column => (column.key, kept))

/-- What the conditions of a join keep of a number of pairs, one condition after the other, and the
distinct counts they leave. -/
inductive Condition.Narrow (left right : Schema) :
    List Condition → Counts → Binary64 → Counts → Binary64 → Prop
  | nil {m pairs} : Narrow left right [] m pairs m pairs
  | cons {c cs m pairs a l r dl dr kept m' pairs'} (hl : left.resolve? c.lhs = some l)
      (hrhs : c.rhs = .column a) (hr : right.resolve? a = some r)
      (hdl : m.get? l.key = some dl) (hdr : m.get? r.key = some dr)
      (hkept : matchingPairs pairs dl dr = .ok kept)
      (hcs : Narrow left right cs ((m.insert l.key (min dl dr)).insert r.key (min dl dr)) kept
        m' pairs') :
      Narrow left right (c :: cs) m pairs m' pairs'

/-- The number of tuples that a join of `leftTuples` with `rightTuples` tuples on some conditions
puts out, and the distinct counts it leaves. -/
def Condition.Match (left right : Schema) (cs : List Condition) (m : Counts)
    (leftTuples rightTuples tuples : ℤ) (m' : Counts) : Prop :=
  ∃ pairs kept, crossProduct leftTuples rightTuples = .ok pairs ∧
    Narrow left right cs m pairs m' kept ∧ ceilReal kept = .ok tuples

namespace PassM

variable {α β : Type} {m : PassM α} {f : α → PassM β} {s t u : PassState} {a : α} {b : β}

/-- What a step returns or fails with from a state, and the state in which it ends. -/
def outcome (m : PassM α) (s : PassState) : Except Failure α × PassState := m.run.run s

/-- From the state `s`, a step returns the value `a` and ends in the state `t`. -/
def Returns (m : PassM α) (s : PassState) (a : α) (t : PassState) : Prop :=
  m.outcome s = (.ok a, t)

theorem Returns.unique {a' : α} {t' : PassState} (h : m.Returns s a t) (h' : m.Returns s a' t') :
    a = a' ∧ t = t' := by
  have hrun : (Except.ok a, t) = (Except.ok a', t') := h.symm.trans h'
  exact ⟨Except.ok.inj (congrArg Prod.fst hrun), congrArg Prod.snd hrun⟩

/-- What is computed from a value and the state at the end, when a value is returned. -/
theorem map_outcome_eq_ok_iff {f : α → PassState → β} :
    ((m.outcome s).1.map fun a => f a (m.outcome s).2) = .ok b ↔
      ∃ a t, m.Returns s a t ∧ b = f a t := by
  rw [map_eq_ok_iff]
  constructor
  · rintro ⟨a, ha, rfl⟩
    exact ⟨a, _, Prod.ext ha rfl, rfl⟩
  · rintro ⟨a, t, hreturns, rfl⟩
    rw [hreturns]
    exact ⟨a, rfl, rfl⟩

/-! ### Primitive steps -/

@[simp] theorem returns_pure_iff {b : α} : (pure b : PassM α).Returns s a t ↔ a = b ∧ t = s := by
  constructor
  · rintro ⟨⟩
    exact ⟨rfl, rfl⟩
  · rintro ⟨rfl, rfl⟩
    rfl

theorem outcome_bind (m : PassM α) (f : α → PassM β) (s : PassState) :
    (m >>= f).outcome s = match m.outcome s with
      | (.ok a, t) => (f a).outcome t
      | (.error e, t) => (.error e, t) := by
  simp only [outcome, ExceptT.run_bind, StateT.run_bind]
  rcases m.run.run s with ⟨_ | a, t⟩ <;> rfl

/-- A sequence returns when both of its parts return. -/
@[simp] theorem returns_bind_iff :
    (m >>= f).Returns s b u ↔ ∃ a t, m.Returns s a t ∧ (f a).Returns t b u := by
  simp only [Returns, outcome_bind]
  rcases m.outcome s with ⟨e | a, t⟩ <;> simp

@[simp] theorem returns_map_iff {g : α → β} :
    (g <$> m).Returns s b t ↔ ∃ a, b = g a ∧ m.Returns s a t := by
  simp [map_eq_pure_bind, -bind_pure_comp, and_comm]

@[simp] theorem not_returns_throw {e : Failure} : ¬ (throw e : PassM α).Returns s a t := nofun

@[simp] theorem returns_lift_iff {result : Except Failure α} :
    (liftM result : PassM α).Returns s a t ↔ result = .ok a ∧ t = s := by
  cases result with
  | error e => exact ⟨by rintro ⟨⟩, by rintro ⟨⟨⟩, -⟩⟩
  | ok b =>
    have hpure : (liftM (.ok b : Except Failure α) : PassM α).Returns s a t ↔ a = b ∧ t = s :=
      returns_pure_iff
    rw [hpure, Except.ok.injEq, eq_comm]

theorem returns_modify_iff {g : PassState → PassState} {x : PUnit} :
    (modify g : PassM PUnit).Returns s x t ↔ t = g s :=
  ⟨by rintro ⟨⟩; rfl, by rintro rfl; rfl⟩

@[simp] theorem returns_record_iff {e : Event} {x : Unit} :
    (record e).Returns s x t ↔ t = { s with events := s.events ++ [e] } := returns_modify_iff

@[simp] theorem returns_charge_iff {cost : ℤ} {x : Unit} :
    (charge cost).Returns s x t ↔ t = { s with cost := s.cost + cost } := returns_modify_iff

@[simp] theorem returns_giveUp_iff {x : Unit} :
    giveUp.Returns s x t ↔ t = { s with feasible := false } := returns_modify_iff

@[simp] theorem returns_setDistinct_iff {column : Attribute} {count : ℤ} {x : Unit} :
    (setDistinct column count).Returns s x t ↔
      t = { s with distinct := s.distinct.insert column.key count } := returns_modify_iff

@[simp] theorem returns_get_iff {u : PassState} :
    (get : PassM PassState).Returns s u t ↔ u = s ∧ t = s := returns_pure_iff

@[simp] theorem returns_isFeasible_iff {r : Bool} :
    isFeasible.Returns s r t ↔ r = s.feasible ∧ t = s :=
  returns_pure_iff (b := s.feasible)

@[simp] theorem returns_setDistincts_iff {counts : List (Attribute × ℤ)} {x : Unit} :
    (setDistincts counts).Returns s x t ↔
      t = { s with distinct := s.distinct.insertAll (counts.map fun e => (e.1.key, e.2)) } := by
  induction counts generalizing s with
  | nil => simp [setDistincts, OrderedMap.insertAll]
  | cons e counts ih => simp [setDistincts, OrderedMap.insertAll, ih]

@[simp] theorem returns_distinctOf_iff {column : Attribute} {count : ℤ} :
    (distinctOf column).Returns s count t ↔ s.distinct.get? column.key = some count ∧ t = s := by
  simp only [distinctOf, returns_bind_iff, returns_get_iff]
  constructor
  · rintro ⟨_, _, ⟨hread, hsame⟩, h⟩
    rw [hread, hsame] at h
    cases hcount : s.distinct.get? column.key with
    | none => simp [hcount] at h
    | some n => simpa [hcount, eq_comm] using h
  · rintro ⟨hcount, rfl⟩
    exact ⟨t, t, ⟨rfl, rfl⟩, by simp [hcount]⟩

@[simp] theorem returns_resolve_iff {schema : Schema} {reference column : Attribute} :
    (resolve schema reference).Returns s column t ↔
      schema.resolve? reference = some column ∧ t = s := by
  unfold resolve
  cases schema.resolve? reference with
  | none => exact ⟨by rintro ⟨⟩, by rintro ⟨⟨⟩, -⟩⟩
  | some c => simp [eq_comm]

/-! ### Operators from a state that is feasible -/

variable {catalog : Catalog} {settings : Settings} {schema left right : Schema}
  {cs : List Condition} {c : Condition} {leftTuples rightTuples tuples : ℤ} {n code : ℤ}

@[simp] theorem returns_recordEstimate_iff {operator : String} :
    (recordEstimate operator tuples).Returns s n t ↔
      n = tuples ∧ t = { s with events := s.events ++ [.estimated operator tuples s.cost] } := by
  simp [recordEstimate]

theorem returns_evaluateScan_iff {table : String} :
    (evaluateScan catalog settings table schema).Returns s n t ↔
      ∃ statistics pages, catalog.loadStatistics table schema.width = .ok statistics ∧
        pagesOf settings.pageSize statistics.tupleCount schema.tupleSize = .ok pages ∧
        n = statistics.tupleCount ∧
        t = { s with
          cost := s.cost + pages
          distinct := s.distinct.insertAll (schema.measured statistics) } := by
  simp [evaluateScan, Schema.measured]

theorem returns_evaluateSelect_iff (hs : s.feasible = true) :
    (evaluateSelect schema c tuples).Returns s n t ↔
      ∃ m, c.Keeps schema s.distinct tuples n m ∧ t = { s with distinct := m } := by
  simp [evaluateSelect, Condition.Keeps, hs, and_assoc, Function.comp_def]

theorem returns_applyConditions_iff {pairs kept : Binary64} :
    (applyConditions left right cs pairs).Returns s kept t ↔
      ∃ m, Condition.Narrow left right cs s.distinct pairs m kept ∧
        t = { s with distinct := m } := by
  induction cs generalizing s pairs with
  | nil =>
    constructor
    · intro h
      obtain ⟨rfl, rfl⟩ := returns_pure_iff.1 h
      exact ⟨_, .nil, rfl⟩
    · rintro ⟨m, ⟨⟩, rfl⟩
      exact returns_pure_iff.2 ⟨rfl, rfl⟩
  | cons c cs ih =>
    constructor
    · intro h
      cases hrhs : c.rhs with
      | column a =>
        simp only [applyConditions, hrhs, returns_bind_iff, returns_resolve_iff, pure_bind,
          returns_distinctOf_iff, returns_lift_iff, returns_setDistinct_iff, ih] at h
        obtain ⟨l, _, ⟨hl, rfl⟩, r, _, ⟨hr, rfl⟩, dl, _, ⟨hdl, rfl⟩, dr, _, ⟨hdr, rfl⟩, pairs', _,
          ⟨hpairs, rfl⟩, _, _, rfl, _, _, rfl, m, hm, rfl⟩ := h
        exact ⟨m, .cons hl hrhs hr hdl hdr hpairs hm, rfl⟩
      | integer | real | text =>
        simp [applyConditions, hrhs] at h
    · rintro ⟨m, ⟨⟩, rfl⟩
      simp [*, applyConditions]

theorem returns_enoughBuffers_iff {buffers : ℕ} {operation : String} {enough : Bool}
    (h : minBuffers ≤ buffers) :
    (enoughBuffers buffers operation).Returns s enough t ↔ enough = true ∧ t = s := by
  simp [enoughBuffers, h.not_gt]

theorem enoughBuffers_gives_up {buffers : ℕ} (h : ¬ minBuffers ≤ buffers) (s : PassState)
    (operation : String) :
    ∃ events, (enoughBuffers buffers operation).Returns s false
      { s with feasible := false, events := events } := by
  simp [enoughBuffers, Nat.not_le.1 h]

/-- A join that can be carried out is charged. -/
theorem chargeJoin_returns (h : settings.Supports code) (l r tuples : ℤ) (s : PassState) :
    ∃ events, (chargeJoin settings code l r tuples).Returns s tuples
      { s with
        cost := s.cost + chargeOfCode code l r settings.buffersPerJoin
        events := events } := by
  obtain rfl | ⟨hcode, hbuffers⟩ := h
  · simp [chargeJoin, JoinAlgorithm.ofCode?_eq, joinCharge, chargeOfCode]
  have hthree : 3 ≤ settings.buffersPerJoin := hbuffers
  obtain rfl | rfl := hcode
  · have hblock : (settings.buffersPerJoin : ℤ) - 2 ≠ 0 := by omega
    simp [chargeJoin, JoinAlgorithm.ofCode?_eq, joinCharge, chargeOfCode,
      returns_enoughBuffers_iff hbuffers, ceilDivChecked_of_ne hblock]
  · have hsort : (settings.buffersPerJoin : ℤ) ≠ 0 := by omega
    simp [chargeJoin, JoinAlgorithm.ofCode?_eq, joinCharge, chargeOfCode,
      returns_enoughBuffers_iff hbuffers, sortMergeSortCost, ceilDivChecked_of_ne hsort]

/-- A join that cannot be carried out makes the plan infeasible. -/
theorem chargeJoin_gives_up (h : ¬ settings.Supports code) (l r tuples : ℤ) (s : PassState) :
    ∃ events, (chargeJoin settings code l r tuples).Returns s 0
      { s with feasible := false, events := events } := by
  have hblocks (hcode : code = 1 ∨ code = 2) : ¬ minBuffers ≤ settings.buffersPerJoin :=
    fun hbuffers => h (.inr ⟨hcode, hbuffers⟩)
  unfold chargeJoin
  rw [JoinAlgorithm.ofCode?_eq, if_neg fun hcode => h (.inl hcode)]
  split_ifs with h1 h2
  · obtain ⟨events, he⟩ := enoughBuffers_gives_up (hblocks (.inl h1)) s "block-nested-loop join"
    exact ⟨events, returns_bind_iff.2 ⟨_, _, he, returns_pure_iff.2 ⟨rfl, rfl⟩⟩⟩
  · obtain ⟨events, he⟩ := enoughBuffers_gives_up (hblocks (.inr h2)) s "sort-merge join"
    exact ⟨events, returns_bind_iff.2 ⟨_, _, he, returns_pure_iff.2 ⟨rfl, rfl⟩⟩⟩
  · simp

theorem returns_evaluateJoin_iff (hs : s.feasible = true) :
    (evaluateJoin settings left right cs code leftTuples rightTuples).Returns s n t ↔
      ∃ leftPages rightPages tuples m,
        pagesOf settings.pageSize leftTuples left.tupleSize = .ok leftPages ∧
        pagesOf settings.pageSize rightTuples right.tupleSize = .ok rightPages ∧
        Condition.Match left right cs s.distinct leftTuples rightTuples tuples m ∧
        (chargeJoin settings code leftPages rightPages tuples).Returns { s with distinct := m }
          n t := by
  have hreturns : (evaluateJoin settings left right cs code leftTuples rightTuples).Returns s n t ↔
      ∃ l, pagesOf settings.pageSize leftTuples left.tupleSize = .ok l ∧
      ∃ r, pagesOf settings.pageSize rightTuples right.tupleSize = .ok r ∧
      ∃ pairs, crossProduct leftTuples rightTuples = .ok pairs ∧
      ∃ kept m, Condition.Narrow left right cs s.distinct pairs m kept ∧
      ∃ tuples, ceilReal kept = .ok tuples ∧
        (chargeJoin settings code l r tuples).Returns { s with distinct := m } n t := by
    simp [evaluateJoin, hs, returns_applyConditions_iff]
  rw [hreturns]
  constructor
  · rintro ⟨l, hl, r, hr, pairs, hpairs, kept, m, hnarrow, tuples, htuples, hcharge⟩
    exact ⟨l, r, tuples, m, hl, hr, ⟨pairs, kept, hpairs, hnarrow, htuples⟩, hcharge⟩
  · rintro ⟨l, r, tuples, m, hl, hr, ⟨pairs, kept, hpairs, hnarrow, htuples⟩, hcharge⟩
    exact ⟨l, hl, r, hr, pairs, hpairs, kept, m, hnarrow, tuples, htuples, hcharge⟩

theorem returns_evaluateSorting_iff (hs : s.feasible = true)
    (hbuffers : minBuffers ≤ settings.numBuffers) {operator : String} {size : ℤ} :
    (evaluateSorting settings operator size tuples).Returns s n t ↔
      ∃ pages cost, pagesOf settings.pageSize tuples size = .ok pages ∧
        externalSortCost pages settings.numBuffers = .ok cost ∧
        n = tuples ∧ t = { s with cost := s.cost + cost } := by
  simp [evaluateSorting, hs, returns_enoughBuffers_iff hbuffers]

theorem evaluateSorting_gives_up (hs : s.feasible = true)
    (hbuffers : ¬ minBuffers ≤ settings.numBuffers) (operator : String) (size tuples : ℤ) :
    ∃ events, (evaluateSorting settings operator size tuples).Returns s tuples
      { s with feasible := false, events := events } := by
  obtain ⟨events, he⟩ := enoughBuffers_gives_up hbuffers s (operator ++ " sort")
  refine ⟨events, returns_bind_iff.2 ⟨true, s, returns_isFeasible_iff.2 ⟨hs.symm, rfl⟩, ?_⟩⟩
  exact returns_bind_iff.2 ⟨_, _, he, returns_pure_iff.2 ⟨rfl, rfl⟩⟩

theorem evaluateForeign_gives_up (s : PassState) (name : String) :
    ∃ events, (evaluateForeign name).Returns s 0
      { s with feasible := false, events := events } := by
  simp [evaluateForeign]

/-! ### Operators from a state that is not feasible -/

theorem returns_evaluateSelect_of_not_feasible (hs : s.feasible = false) :
    (evaluateSelect schema c tuples).Returns s n t ↔ n = 0 ∧ t = s := by
  simp [evaluateSelect, hs]

theorem returns_evaluateJoin_of_not_feasible (hs : s.feasible = false) :
    (evaluateJoin settings left right cs code leftTuples rightTuples).Returns s n t ↔
      n = 0 ∧ t = s := by
  simp [evaluateJoin, hs]

theorem returns_evaluateSorting_of_not_feasible (hs : s.feasible = false) {operator : String}
    {size : ℤ} :
    (evaluateSorting settings operator size tuples).Returns s n t ↔ n = 0 ∧ t = s := by
  simp [evaluateSorting, hs]

end PassM

end QueryPlan
