import Mathlib
import QueryPlan.Proofs.Build.Stages
import QueryPlan.Proofs.Join.Links

/-!
# Columns of another type or size

The columns of conditions may be replaced by others with the same table and name. The table and the
name are what the tables of a condition are read from, and with them whether it filters one table or
joins two, so a condition is for a construction what it was.

## Main definitions

* `Condition.mapColumns`, `Plan.mapColumns`, `BuildState.mapColumns` : the columns of conditions
  are replaced.

## Main results

* `Condition.filter?_mapColumns`, `Condition.link?_mapColumns` : what a condition with replaced
  columns is for a construction.
* `JoinGraph.collect_map` : the links with replaced columns, by their keys.
-/

namespace QueryPlan

/-! ### Replaced columns -/

/-- The columns that a condition compares, replaced. -/
def Operand.mapColumns (φ : Attribute → Attribute) : Operand → Operand
  | .column a => .column (φ a)
  | o => o

/-- A condition with replaced columns. -/
def Condition.mapColumns (φ : Attribute → Attribute) (c : Condition) : Condition :=
  { c with lhs := φ c.lhs, rhs := c.rhs.mapColumns φ }

/-- A plan with replaced columns in its conditions. -/
def Plan.mapColumns (φ : Attribute → Attribute) : Plan → Plan
  | scan table output => scan table output
  | select base c => select (base.mapColumns φ) (c.mapColumns φ)
  | project base columns => project (base.mapColumns φ) columns
  | join left right cs algorithm place =>
    join (left.mapColumns φ) (right.mapColumns φ) (cs.map (Condition.mapColumns φ)) algorithm place
  | sorting base task buffers => sorting (base.mapColumns φ) task buffers
  | foreign base name output => foreign (base.mapColumns φ) name output
  | foreignLeaf name output => foreignLeaf name output

/-- A state of a construction with replaced columns in the conditions of its operators. -/
def BuildState.mapColumns (φ : Attribute → Attribute) (s : BuildState) : BuildState :=
  { s with root := s.root.map (Plan.mapColumns φ), tops := s.tops.mapValues (Plan.mapColumns φ) }

/-- A failure to find the table of a column, with the column replaced. -/
def Failure.mapColumns (φ : Attribute → Attribute) : Failure → Failure
  | attributeWithoutTable a => attributeWithoutTable (φ a)
  | ambiguousAttribute a tables => ambiguousAttribute (φ a) tables
  | f => f

@[simp] theorem Operand.mapColumns_id (o : Operand) : o.mapColumns id = o := by
  cases o <;> rfl

@[simp] theorem Condition.mapColumns_id : Condition.mapColumns id = id := by
  funext c
  simp [mapColumns]

@[simp] theorem Plan.mapColumns_id : Plan.mapColumns id = id := by
  funext p
  induction p <;> simp_all [mapColumns]

@[simp] theorem BuildState.mapColumns_id (s : BuildState) : s.mapColumns id = s := by
  simp [mapColumns, OrderedMap.mapValues]

@[simp] theorem Failure.mapColumns_id (f : Failure) : f.mapColumns id = f := by
  cases f <;> rfl

namespace OrderedMap

variable {α β γ : Type} [DecidableEq α] (f : β → γ)

theorem get?_mapValues (m : OrderedMap α β) (k : α) :
    (m.mapValues f).get? k = (m.get? k).map f := by
  obtain ⟨es⟩ := m
  induction es with
  | nil => rfl
  | cons e es ih =>
    obtain ⟨a, b⟩ := e
    by_cases ha : a = k
    · simp [mapValues, get?, lookup, ha]
    · simpa [mapValues, get?, lookup, ha] using ih

theorem mapValues_insert (m : OrderedMap α β) (k : α) (v : β) :
    (m.insert k v).mapValues f = (m.mapValues f).insert k (f v) := by
  obtain ⟨es⟩ := m
  induction es with
  | nil => rfl
  | cons e es ih =>
    obtain ⟨a, b⟩ := e
    by_cases ha : a = k
    · simp [mapValues, insert, put, ha]
    · simpa [mapValues, insert, put, ha] using ih

theorem mapValues_erase (m : OrderedMap α β) (k : α) :
    (m.erase k).mapValues f = (m.mapValues f).erase k := by
  simp [mapValues, erase, List.filter_map, Function.comp_def]

omit [DecidableEq α] in
theorem keys_mapValues (m : OrderedMap α β) : (m.mapValues f).keys = m.keys := by
  simp [mapValues, keys, Function.comp_def]

end OrderedMap

variable {φ : Attribute → Attribute}

section Keys

variable (hφ : ∀ a, (φ a).key = a.key)

include hφ

theorem Attribute.owner?_map (a : Attribute) : (φ a).owner? = a.owner? := by
  have htable : (φ a).table = a.table := congrArg AttributeKey.table (hφ a)
  rw [owner?, owner?, htable]

theorem Attribute.same_map (a b : Attribute) : (φ a).same (φ b) = a.same b := by
  rw [same, same, hφ, hφ]

theorem Operand.same_mapColumns (o o' : Operand) :
    (o.mapColumns φ).same (o'.mapColumns φ) = o.same o' := by
  cases o <;> cases o' <;> first | rfl | exact Attribute.same_map hφ _ _

theorem Schema.means_map (a : Attribute) : means (φ a) = means a := by
  have htable : (φ a).table = a.table := congrArg AttributeKey.table (hφ a)
  have hname : (φ a).name = a.name := congrArg AttributeKey.name (hφ a)
  funext b
  rw [means, means, htable, hname, Attribute.same, Attribute.same, hφ a]

theorem Schema.contains_map (s : Schema) (a : Attribute) : s.contains (φ a) = s.contains a := by
  rw [contains, contains, resolve?, resolve?, means_map hφ]

theorem Catalog.column?_map (catalog : Catalog) (a : Attribute) :
    catalog.column? (φ a) = catalog.column? a := by
  funext t
  rw [column?, column?]
  simp only [Schema.resolve?, Schema.means_map hφ]

namespace Condition

theorem pair?_mapColumns (c : Condition) : (c.mapColumns φ).pair? = c.pair? := by
  obtain ⟨lhs, rhs, comparator, kind⟩ := c
  cases rhs with
  | column a => simp [pair?, mapColumns, Operand.mapColumns, Operand.column?,
      Attribute.owner?_map hφ]
  | integer | real | text => simp [pair?, mapColumns, Operand.mapColumns, Operand.column?]

theorem edge?_mapColumns (c : Condition) : (c.mapColumns φ).edge? = c.edge? := by
  rw [edge?, edge?, pair?_mapColumns hφ]

theorem oriented_mapColumns (c : Condition) :
    (c.mapColumns φ).oriented = c.oriented.mapColumns φ := by
  obtain ⟨lhs, rhs, comparator, kind⟩ := c
  cases rhs with
  | column a =>
    simp only [oriented, mapColumns, Operand.mapColumns, Operand.column?, Option.bind_some,
      Attribute.owner?_map hφ]
    cases lhs.owner? with
    | none => simp
    | some s =>
      cases a.owner? with
      | none => simp
      | some t => by_cases hts : t < s <;> simp [hts, flipped?, Operand.column?]
  | integer | real | text =>
    simp [oriented, mapColumns, Operand.mapColumns, Operand.column?]

theorem placed_mapColumns (c : Condition) :
    (c.mapColumns φ).placed = c.placed.mapColumns φ := by
  unfold placed
  rw [relatesTables_eq, relatesTables_eq, pair?_mapColumns hφ]
  split
  · exact oriented_mapColumns hφ { c with kind := .join }
  · rfl

theorem filter?_mapColumns (c : Condition) :
    (c.mapColumns φ).filter? = c.filter?.map (mapColumns φ) := by
  rw [filter?, filter?, pair?_mapColumns hφ, placed_mapColumns hφ]
  split <;> rfl

theorem link?_mapColumns (c : Condition) :
    (c.mapColumns φ).link? = c.link?.map (Prod.map id (mapColumns φ)) := by
  rw [link?, link?, edge?_mapColumns hφ, placed_mapColumns hφ]
  cases c.edge? <;> rfl

theorem map_fst_links_mapColumns (cs : List Condition) :
    ((cs.map (mapColumns φ)).filterMap link?).map Prod.fst = cs.filterMap edge? := by
  rw [map_fst_filterMap_link?, List.filterMap_map]
  exact List.filterMap_congr fun c _ => edge?_mapColumns hφ c

end Condition

end Keys

theorem JoinGraph.collect_map (ls : List (String × Condition)) :
    collect (ls.map (Prod.map id (Condition.mapColumns φ))) =
      (collect ls).mapValues (List.map (Condition.mapColumns φ)) := by
  have main (m : OrderedMap String (List Condition)) :
      (ls.map (Prod.map id (Condition.mapColumns φ))).foldl enter
          (m.mapValues (List.map (Condition.mapColumns φ))) =
        (ls.foldl enter m).mapValues (List.map (Condition.mapColumns φ)) := by
    induction ls generalizing m with
    | nil => rfl
    | cons l ls ih =>
      rw [List.foldl_cons, ← ih, List.map_cons, List.foldl_cons]
      congr 1
      simp only [enter, Prod.map_fst, Prod.map_snd, id, OrderedMap.mapValues_insert,
        OrderedMap.get?_mapValues, List.map_append, List.map_singleton]
      cases m.get? l.1 <;> rfl
  exact main {}

theorem JoinGraph.edges_eq_of_mapValues {graph graph' : JoinGraph}
    (h : graph'.conditions = graph.conditions.mapValues (List.map (Condition.mapColumns φ))) :
    graph'.edges = graph.edges := by
  rw [edges, h, OrderedMap.keys_mapValues, edges]

end QueryPlan
