import Mathlib
import QueryPlan.Catalog.Basic
import QueryPlan.Plan.Traversal
import QueryPlan.Proofs.Relation.Resolving

/-!
# Parts of plans

A *part* of a plan is one of its operators with all that lies below it, so the parts of a plan are
its operators in preorder. What a plan scans, joins and compares is collected from its parts, and
follows for every operator from what lies below it.

A plan is *bare* when it consists of selections and joins over scans, whose schemas are those that a
catalog loads. The *core* of a plan is what lies below the projections and sorting operators at its
top.

## Main definitions

* `Plan.IsPart` : a plan is a part of another one.
* `Plan.core` : a plan without the projections and sorting operators at its top.
* `Plan.Bare` : selections and joins over scans of the tables of a catalog.
* `Schema.concat` : the schema of all columns of some schemas.

## Main results

* `Plan.childrenInduction` : induction from what lies directly below an operator.
* `Plan.Bare.schema_eq_concat` : the schema of a bare plan is that of its scans, left to right.
* `Plan.Bare.length_joins_add_one` : a bare plan has one join less than scans.
-/

namespace QueryPlan

/-- The columns of all schemas, in order; a tuple takes the sum of their sizes. -/
def Schema.concat (schemas : List Schema) : Schema :=
  ⟨schemas.flatMap Schema.attributes, (schemas.map Schema.tupleSize).sum⟩

theorem Schema.concat_singleton (s : Schema) : Schema.concat [s] = s := by
  simp [Schema.concat]

theorem Schema.join_concat (ss ts : List Schema) :
    (Schema.concat ss).join (Schema.concat ts) = Schema.concat (ss ++ ts) := by
  simp [Schema.concat, Schema.join]

namespace Plan

variable {catalog : Catalog} {p q r base left right : Plan}

/-- What holds of an operator if it holds of those directly below it holds of every plan. -/
@[elab_as_elim]
theorem childrenInduction {motive : Plan → Prop}
    (step : ∀ p, (∀ c ∈ p.children, motive c) → motive p) (p : Plan) : motive p := by
  induction p with
  | scan | foreignLeaf => exact step _ nofun
  | select base _ ih | project base _ ih | sorting base _ _ ih | foreign base _ _ ih =>
    exact step _ fun c hc => List.mem_singleton.1 hc ▸ ih
  | join left right _ _ _ ihl ihr =>
    refine step _ fun c hc => ?_
    rcases List.mem_pair.1 hc with rfl | rfl
    · exact ihl
    · exact ihr

/-! ### What the parts of a plan hold -/

/-- A plan is another one or lies below one of its operators. -/
def IsPart (p q : Plan) : Prop := p ∈ q.preorder

theorem IsPart.refl (p : Plan) : p.IsPart p := by
  rw [IsPart, preorder_eq_cons]
  exact List.mem_cons_self

theorem isPart_iff : p.IsPart q ↔ p = q ∨ ∃ c ∈ q.children, p.IsPart c := by
  rw [IsPart, preorder_eq_cons, List.mem_cons, List.mem_flatMap]
  rfl

theorem IsPart.child {c : Plan} (hp : p.IsPart c) (hc : c ∈ q.children) : p.IsPart q :=
  isPart_iff.2 (.inr ⟨c, hc, hp⟩)

theorem IsPart.trans (hpq : p.IsPart q) (hqr : q.IsPart r) : p.IsPart r := by
  induction r using childrenInduction with
  | step r ih =>
    obtain rfl | ⟨c, hc, hqc⟩ := isPart_iff.1 hqr
    · exact hpq
    · exact (ih c hc hqc).child hc

theorem isPart_foldl_select (cs : List Condition) (p : Plan) : p.IsPart (cs.foldl select p) := by
  induction cs generalizing p with
  | nil => exact .refl p
  | cons c cs ih => exact ((IsPart.refl p).child (by simp [children])).trans (ih (select p c))

/-- A plan scans the tables of the scans among its parts. -/
theorem mem_scannedTables_iff {t : String} :
    t ∈ p.scannedTables ↔ ∃ schema, (scan t schema).IsPart p := by
  rw [scannedTables, walk_eq_preorder, List.mem_filterMap]
  constructor
  · rintro ⟨op, hop, ht⟩
    cases op with
    | scan table schema =>
      obtain rfl := Option.some.inj ht
      exact ⟨schema, hop⟩
    | select | project | join | sorting | foreign | foreignLeaf => cases ht
  · rintro ⟨schema, hscan⟩
    exact ⟨scan t schema, hscan, rfl⟩

theorem IsPart.scannedTables_subset (hpq : p.IsPart q) : p.scannedTables ⊆ q.scannedTables := by
  intro t ht
  obtain ⟨schema, hscan⟩ := mem_scannedTables_iff.1 ht
  exact mem_scannedTables_iff.2 ⟨schema, hscan.trans hpq⟩

@[simp] theorem scannedTables_scan (t : String) (s : Schema) : (scan t s).scannedTables = [t] := by
  simp [scannedTables, walk_eq_preorder, preorder]

@[simp] theorem scannedTables_select (base : Plan) (c : Condition) :
    (select base c).scannedTables = base.scannedTables := by
  simp [scannedTables, walk_eq_preorder, preorder]

@[simp] theorem scannedTables_project (base : Plan) (columns : List Attribute) :
    (project base columns).scannedTables = base.scannedTables := by
  simp [scannedTables, walk_eq_preorder, preorder]

@[simp] theorem scannedTables_join (left right : Plan) (cs : List Condition) (a n : ℤ) :
    (join left right cs a n).scannedTables = left.scannedTables ++ right.scannedTables := by
  simp [scannedTables, walk_eq_preorder, preorder]

@[simp] theorem scannedTables_sorting (base : Plan) (task : SortTask) (b : ℤ) :
    (sorting base task b).scannedTables = base.scannedTables := by
  simp [scannedTables, walk_eq_preorder, preorder]

@[simp] theorem scannedTables_foldl_select (cs : List Condition) (p : Plan) :
    (cs.foldl select p).scannedTables = p.scannedTables := by
  induction cs generalizing p with
  | nil => rfl
  | cons c cs ih => rw [List.foldl_cons, ih, scannedTables_select]

@[simp] theorem conditions_scan (t : String) (s : Schema) : (scan t s).conditions = [] := by
  simp [conditions, walk_eq_preorder, preorder]

@[simp] theorem conditions_select (base : Plan) (c : Condition) :
    (select base c).conditions = c :: base.conditions := by
  simp [conditions, walk_eq_preorder, preorder]

@[simp] theorem conditions_project (base : Plan) (columns : List Attribute) :
    (project base columns).conditions = base.conditions := by
  simp [conditions, walk_eq_preorder, preorder]

@[simp] theorem conditions_join (left right : Plan) (cs : List Condition) (a n : ℤ) :
    (join left right cs a n).conditions = cs ++ (left.conditions ++ right.conditions) := by
  simp [conditions, walk_eq_preorder, preorder]

@[simp] theorem conditions_sorting (base : Plan) (task : SortTask) (b : ℤ) :
    (sorting base task b).conditions = base.conditions := by
  simp [conditions, walk_eq_preorder, preorder]

theorem conditions_foldl_select (cs : List Condition) (p : Plan) :
    (cs.foldl select p).conditions = cs.reverse ++ p.conditions := by
  induction cs generalizing p with
  | nil => rfl
  | cons c cs ih => simp [ih]

/-- The places of the joins of a plan in the order of construction. -/
def places (p : Plan) : List ℤ :=
  p.joins.filterMap fun
    | join _ _ _ _ place => some place
    | _ => none

@[simp] theorem joins_scan (t : String) (s : Schema) : (scan t s).joins = [] := by
  simp [joins, walk_eq_preorder, preorder, isJoin]

@[simp] theorem joins_select (base : Plan) (c : Condition) :
    (select base c).joins = base.joins := by
  simp [joins, walk_eq_preorder, preorder, isJoin]

@[simp] theorem joins_project (base : Plan) (columns : List Attribute) :
    (project base columns).joins = base.joins := by
  simp [joins, walk_eq_preorder, preorder, isJoin]

@[simp] theorem joins_join (left right : Plan) (cs : List Condition) (a n : ℤ) :
    (join left right cs a n).joins = join left right cs a n :: (left.joins ++ right.joins) := by
  simp [joins, walk_eq_preorder, preorder, List.filter_cons, isJoin]

@[simp] theorem joins_sorting (base : Plan) (task : SortTask) (b : ℤ) :
    (sorting base task b).joins = base.joins := by
  simp [joins, walk_eq_preorder, preorder, isJoin]

@[simp] theorem joins_foldl_select (cs : List Condition) (p : Plan) :
    (cs.foldl select p).joins = p.joins := by
  induction cs generalizing p with
  | nil => rfl
  | cons c cs ih => rw [List.foldl_cons, ih, joins_select]

theorem places_join (left right : Plan) (cs : List Condition) (a n : ℤ) :
    (join left right cs a n).places = n :: (left.places ++ right.places) := by
  simp [places]

theorem mem_joins_iff : p ∈ q.joins ↔ p.IsPart q ∧ p.isJoin = true := by
  simp [joins, walk_eq_preorder, IsPart]

theorem IsPart.joins_subset (hpq : p.IsPart q) : p.joins ⊆ q.joins := by
  intro r hr
  obtain ⟨hrp, hjoin⟩ := mem_joins_iff.1 hr
  exact mem_joins_iff.2 ⟨hrp.trans hpq, hjoin⟩

/-! ### The core of a plan -/

/-- The plan below the projections and sorting operators at the top. -/
def core : Plan → Plan
  | project base _ => base.core
  | sorting base _ _ => base.core
  | p => p

theorem isPart_core (p : Plan) : p.core.IsPart p := by
  induction p with
  | project base _ ih | sorting base _ _ ih => exact ih.child (by simp [children])
  | scan | select | join | foreign | foreignLeaf => exact .refl _

@[simp] theorem scannedTables_core (p : Plan) : p.core.scannedTables = p.scannedTables := by
  induction p with
  | project base _ ih | sorting base _ _ ih => simpa [core] using ih
  | scan | select | join | foreign | foreignLeaf => rfl

@[simp] theorem conditions_core (p : Plan) : p.core.conditions = p.conditions := by
  induction p with
  | project base _ ih | sorting base _ _ ih => simpa [core] using ih
  | scan | select | join | foreign | foreignLeaf => rfl

@[simp] theorem joins_core (p : Plan) : p.core.joins = p.joins := by
  induction p with
  | project base _ ih | sorting base _ _ ih => simpa [core] using ih
  | scan | select | join | foreign | foreignLeaf => rfl

/-! ### Bare plans -/

/-- A plan of selections and joins over scans of tables with the schemas that a catalog loads. -/
def Bare (catalog : Catalog) : Plan → Prop
  | scan table output => catalog.loadSchema table = .ok output
  | select base _ => base.Bare catalog
  | join left right _ _ _ => left.Bare catalog ∧ right.Bare catalog
  | _ => False

theorem Bare.core_eq (hp : p.Bare catalog) : p.core = p := by
  cases p with
  | scan | select | join | foreign | foreignLeaf => rfl
  | project | sorting => exact hp.elim

theorem Bare.select (hp : p.Bare catalog) (c : Condition) : (select p c).Bare catalog := hp

theorem Bare.foldl_select (hp : p.Bare catalog) (cs : List Condition) :
    (cs.foldl Plan.select p).Bare catalog := by
  induction cs generalizing p with
  | nil => exact hp
  | cons c cs ih => exact ih (hp.select c)

/-- The columns of a bare plan are those of its scans, left to right. -/
theorem Bare.schema_eq_concat (hp : p.Bare catalog) :
    ∃ schemas, List.Forall₂ (fun t s => catalog.loadSchema t = .ok s) p.scannedTables schemas ∧
      p.schema = Schema.concat schemas := by
  induction p with
  | scan t s =>
    refine ⟨[s], ?_, (Schema.concat_singleton s).symm⟩
    rw [scannedTables_scan]
    exact .cons hp .nil
  | select base c ih =>
    obtain ⟨schemas, hload, hschema⟩ := ih hp
    exact ⟨schemas, by simpa using hload, hschema⟩
  | join left right cs a n ihl ihr =>
    obtain ⟨ss, hloadl, hl⟩ := ihl hp.1
    obtain ⟨ts, hloadr, hr⟩ := ihr hp.2
    refine ⟨ss ++ ts, ?_, ?_⟩
    · rw [scannedTables_join]
      exact List.rel_append hloadl hloadr
    · rw [schema, hl, hr, Schema.join_concat]
  | project | sorting | foreign | foreignLeaf => exact hp.elim

/-- A bare plan has one join less than scans. -/
theorem Bare.length_joins_add_one (hp : p.Bare catalog) :
    p.joins.length + 1 = p.scannedTables.length := by
  induction p with
  | scan => simp
  | select base c ih => simpa using ih hp
  | join left right cs a n ihl ihr =>
    have hl := ihl hp.1
    have hr := ihr hp.2
    simp only [joins_join, scannedTables_join, List.length_cons, List.length_append]
    omega
  | project | sorting | foreign | foreignLeaf => exact hp.elim

/-- A bare plan has the columns of every table that it scans. -/
theorem Bare.contains_of_mem_scannedTables (hp : p.Bare catalog) {t : String} {a : Attribute}
    (ht : t ∈ p.scannedTables)
    (ha : ∀ s, catalog.loadSchema t = .ok s → s.contains a = true) :
    p.schema.contains a = true := by
  induction p with
  | scan table output =>
    rw [scannedTables_scan, List.mem_singleton] at ht
    subst ht
    exact ha output hp
  | select base c ih => exact ih hp (by simpa using ht)
  | join left right cs a n ihl ihr =>
    rw [schema, Schema.contains_join]
    rw [scannedTables_join] at ht
    obtain ht | ht := List.mem_append.1 ht
    · exact .inl (ihl hp.1 ht)
    · exact .inr (ihr hp.2 ht)
  | project | sorting | foreign | foreignLeaf => exact hp.elim

end Plan

end QueryPlan
