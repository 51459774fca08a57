import Mathlib
import QueryPlan.Proofs.Build.Alike
import QueryPlan.Proofs.Build.Naming
import QueryPlan.Proofs.Build.Tallies

/-!
# How conditions are filed

A query is given its conditions in two lists, and each condition with a kind. Neither is taken at
its word. The conditions are read as one list, those of the joins first, and sorted anew by the
tables of their columns. So a construction is determined by what the conditions say: queries whose
lists say the same, one after the other, have the same plan or the same failure, and the same state
at the end. Sorting conditions once more after they are qualified leaves them as they are.

Columns are the same if their tables and names are. Lists that are the same in this sense have the
same plan up to the types and sizes of the columns in conditions.

## Main definitions

* `Condition.unfiled` : a condition whatever it was filed as.
* `Agree` : two results that are values alike or failures alike.
* `BuildM.sortConditions` : conditions qualified and sorted by what they are used for.

## Main results

* `BuildState.Scanned.qualified_agree` : conditions that say the same are qualified alike.
* `Condition.classify_inOrder` : sorting a second time changes nothing.
* `BuildM.build_refiled` : a construction does not depend on how the conditions are filed.
-/

namespace QueryPlan

/-! ### Results that agree -/

/-- Two results that are both values, related by `R`, or both failures, related by `K`. -/
inductive Agree {ε α β : Type} (K : ε → ε → Prop) (R : α → β → Prop) :
    Except ε α → Except ε β → Prop
  | ok {a : α} {b : β} (h : R a b) : Agree K R (.ok a) (.ok b)
  | error {e e' : ε} (h : K e e') : Agree K R (.error e) (.error e')

namespace Agree

variable {ε α β γ δ : Type} {K : ε → ε → Prop} {R : α → β → Prop} {S : γ → δ → Prop}
  {r : Except ε α} {r' : Except ε β}

theorem bind {f : α → Except ε γ} {g : β → Except ε δ} (h : Agree K R r r')
    (hfg : ∀ a b, R a b → Agree K S (f a) (g b)) : Agree K S (r >>= f) (r' >>= g) := by
  cases h with
  | ok h => exact hfg _ _ h
  | error h => exact .error h

/-- Lists that look the same by `g` are gone through with values that look the same by `h`. -/
theorem mapM {f : α → Except ε β} {g : α → γ} {h : β → δ}
    (hf : ∀ x y, g x = g y → Agree K (fun a b => h a = h b) (f x) (f y)) {xs ys : List α}
    (hxy : xs.map g = ys.map g) :
    Agree K (fun as bs => as.map h = bs.map h) (xs.mapM f) (ys.mapM f) := by
  induction xs generalizing ys with
  | nil =>
    obtain rfl := List.map_eq_nil_iff.1 hxy.symm
    exact .ok rfl
  | cons x xs ih =>
    cases ys with
    | nil => cases hxy
    | cons y ys =>
      obtain ⟨hhead, htail⟩ := List.cons.inj hxy
      rw [List.mapM_cons, List.mapM_cons]
      refine (hf x y hhead).bind fun a b hab => (ih htail).bind fun as bs habs => .ok ?_
      rw [List.map_cons, List.map_cons, hab, habs]

end Agree

/-! ### What conditions say -/

variable {φ : Attribute → Attribute} {catalog : Catalog} {tables : List String} {a b : Attribute}

namespace Condition

/-- The condition whatever it was filed as. -/
def unfiled (c : Condition) : Condition := { c with kind := .select }

variable {c d : Condition} {cs ds : List Condition}

theorem unfiled_mapColumns_eq_iff : (c.mapColumns φ).unfiled = (d.mapColumns φ).unfiled ↔
    φ c.lhs = φ d.lhs ∧ c.rhs.mapColumns φ = d.rhs.mapColumns φ ∧ c.comparator = d.comparator := by
  simp [unfiled, mapColumns]

theorem filter?_unfiled (c : Condition) : c.unfiled.filter? = c.filter? :=
  filter?_congr rfl rfl

theorem link?_unfiled (c : Condition) : c.unfiled.link? = c.link? :=
  link?_congr rfl rfl

/-- Conditions that say the same are alike. -/
theorem alike_of_map_unfiled (h : cs.map (fun c => (c.mapColumns φ).unfiled) =
    ds.map fun c => (c.mapColumns φ).unfiled) : Alike φ cs ds where
  filters := by
    have h := congrArg (List.filterMap filter?) h
    simpa [List.filterMap_map, Function.comp_def, filter?_unfiled] using h.symm
  links := by
    have h := congrArg (List.filterMap link?) h
    simpa [List.filterMap_map, Function.comp_def, link?_unfiled] using congrArg _ h.symm

/-- Sorting conditions a second time changes nothing. -/
theorem classify_inOrder (cs : List Condition) : classify (inOrder cs) = classify cs := by
  have hkind (c : Condition) (kind : ConditionKind) :
      ({ c with kind := kind } : Condition).relatesTables = c.relatesTables := rfl
  simp [inOrder, classify, List.filter_append, List.filter_map, List.filter_filter,
    Function.comp_def, hkind]

end Condition

namespace BuildState

open Condition

variable {s : BuildState} {c d : Condition} {o o' : Operand}

/-- Failures that are the same up to the columns they name. -/
abbrev FailsAlike (φ : Attribute → Attribute) (e e' : Failure) : Prop :=
  e.mapColumns φ = e'.mapColumns φ

/-- A column is looked up by its table and its name. -/
theorem Scanned.column_agree (hs : s.Scanned catalog tables) (hφ : ∀ a, (φ a).key = a.key)
    (h : φ a = φ b) :
    Agree (FailsAlike φ) (fun x y => φ x = φ y) (s.column a) (s.column b) := by
  have howner : a.owner? = b.owner? := by
    rw [← Attribute.owner?_map hφ a, h, Attribute.owner?_map hφ b]
  have hcolumn : catalog.column? a = catalog.column? b := by
    rw [← Catalog.column?_map hφ catalog a, h, Catalog.column?_map hφ catalog b]
  cases hb : b.owner? with
  | some t =>
    rw [column_of_owner? hb, column_of_owner? (howner.trans hb)]
    exact .ok h
  | none =>
    rw [hs.column_eq_match hb, hs.column_eq_match (howner.trans hb), hcolumn]
    split
    · rename_i t _
      cases catalog.column? b t with
      | none => exact .ok h
      | some x => exact .ok rfl
    · exact .error (congrArg Failure.attributeWithoutTable h)
    · exact .error (by rw [FailsAlike, Failure.mapColumns, Failure.mapColumns, h])

theorem Scanned.operand_agree (hs : s.Scanned catalog tables) (hφ : ∀ a, (φ a).key = a.key)
    (h : o.mapColumns φ = o'.mapColumns φ) :
    Agree (FailsAlike φ) (fun x y => x.mapColumns φ = y.mapColumns φ) (s.operand o)
      (s.operand o') := by
  cases o <;> cases o' <;> try cases h
  case column.column a b =>
    have hcolumn := hs.column_agree hφ (Operand.column.inj h)
    rw [operand, operand]
    generalize s.column a = r at hcolumn ⊢
    generalize s.column b = r' at hcolumn ⊢
    cases hcolumn with
    | ok hxy => exact .ok (congrArg Operand.column hxy)
    | error he => exact .error he
  all_goals exact .ok rfl

/-- Conditions that say the same are qualified to conditions that say the same. -/
theorem Scanned.qualified_agree (hs : s.Scanned catalog tables) (hφ : ∀ a, (φ a).key = a.key)
    (h : (c.mapColumns φ).unfiled = (d.mapColumns φ).unfiled) :
    Agree (FailsAlike φ) (fun x y => (x.mapColumns φ).unfiled = (y.mapColumns φ).unfiled)
      (s.qualified c) (s.qualified d) := by
  obtain ⟨hlhs, hrhs, hcomparator⟩ := unfiled_mapColumns_eq_iff.1 h
  rw [qualified_eq hs, qualified_eq hs]
  refine (hs.column_agree hφ hlhs).bind fun l l' hl => ?_
  refine (hs.operand_agree hφ hrhs).bind fun r r' hr => .ok ?_
  have hsamel : l.same c.lhs = l'.same d.lhs := by
    rw [← Attribute.same_map hφ, hl, hlhs, Attribute.same_map hφ]
  have hsamer : r.same c.rhs = r'.same d.rhs := by
    rw [← Operand.same_mapColumns hφ, hr, hrhs, Operand.same_mapColumns hφ]
  rw [hsamel, hsamer]
  split
  · exact h
  · exact unfiled_mapColumns_eq_iff.2 ⟨hl, hr, hcomparator⟩

end BuildState

namespace BuildM

open Program BuildState Condition

variable {settings : Settings} {q : Query} {s t u : BuildState}
  {selections joins selections' joins' : List Condition}

/-- Queries whose lists of conditions say the same have the same plan, up to the columns that are
replaced. -/
theorem image_build_refiled (catalog : Catalog) (settings : Settings) (q : Query)
    (hφ : ∀ a, (φ a).key = a.key)
    (h : (joins' ++ selections').map (fun c => (c.mapColumns φ).unfiled) =
      (joins ++ selections).map fun c => (c.mapColumns φ).unfiled) (start : BuildState) :
    image φ ((build catalog settings
        { q with selections := selections', joins := joins' }).run start) =
      image φ ((build catalog settings
        { q with selections := selections, joins := joins }).run start) := by
  obtain ⟨e, u, hfail⟩ | ⟨s, hs, hplan⟩ := build_filed catalog settings q start
  · rw [hfail, hfail]
  · rw [hplan, hplan, run_bind, run_bind, run_ofExcept, run_ofExcept]
    have hagree := Agree.mapM (fun c d => hs.qualified_agree hφ (c := c) (d := d)) h
    generalize (joins' ++ selections').mapM s.qualified = result' at hagree ⊢
    generalize (joins ++ selections).mapM s.qualified = result at hagree ⊢
    cases hagree with
    | ok h => exact (image_planQualified hφ (alike_of_map_unfiled h) settings q s).symm
    | error h => simpa [image, Except.mapError, Except.map] using h

/-! ### Sorting conditions -/

/-- The conditions that are given as selections and as joins, qualified and sorted by what they are
used for. -/
def sortConditions (selections joins : List Condition) :
    BuildM (List Condition × List Condition) := do
  let conditions ← qualifyAll (joins ++ selections)
  return classify conditions

/-- The conditions of a query are sorted before they are taken into the plan. -/
theorem run_conditionStage (q : Query) (s : BuildState) :
    (conditionStage q).run s = (sortConditions q.selections q.joins >>= fun sorted =>
      createSelects sorted.1 >>= fun _ => joinStage q.tables sorted.2).run s := by
  rw [conditionStage, sortConditions, run_bind, run_bind, run_bind]
  rcases (qualifyAll (q.joins ++ q.selections)).run s with ⟨_ | cs, t⟩ <;> rfl

/-- Conditions whose columns name their tables are qualified already. -/
theorem qualifyAll_of_qualified {cs : List Condition} (hcs : ∀ c ∈ cs, c.Qualified) :
    qualifyAll cs = pure cs := by
  have hqualify {a : Attribute} {t : String} (ha : a.owner? = some t) : qualify a = pure a := by
    rw [qualify, ha]
  induction cs with
  | nil => rfl
  | cons c cs ih =>
    obtain ⟨hc, hcs⟩ := List.forall_mem_cons.1 hcs
    obtain ⟨t, ht⟩ := hc.lhs
    have hoperand : qualifyOperand c.rhs = pure c.rhs := by
      cases hr : c.rhs with
      | column a =>
        obtain ⟨x, hx⟩ := hc.rhs hr
        rw [qualifyOperand, hqualify hx]
        rfl
      | integer | real | text => rfl
    have hkeep : (if c.lhs.same c.lhs && c.rhs.same c.rhs then c
        else { c with lhs := c.lhs, rhs := c.rhs }) = c := ite_self c
    rw [qualifyAll, qualifyCondition, hqualify ht, hoperand, ih hcs]
    exact congrArg (fun d : Condition => (pure (d :: cs) : BuildM (List Condition))) hkeep

/-- Conditions that were sorted before are sorted into the same two lists, in any state, as long as
all their columns name their tables. -/
theorem run_sortConditions_sorted {sorted : List Condition × List Condition}
    (hrun : (sortConditions selections joins).run s = (.ok sorted, u))
    (hsorted : ∀ c ∈ sorted.2 ++ sorted.1, c.Qualified) (t : BuildState) :
    (sortConditions sorted.1 sorted.2).run t = (.ok sorted, t) := by
  obtain ⟨cs, _, -, hclassify⟩ := run_bind_eq_ok.1 hrun
  obtain rfl : classify cs = sorted := Except.ok.inj (Prod.mk.inj hclassify).1
  rw [sortConditions, qualifyAll_of_qualified hsorted]
  change (Except.ok (classify (inOrder cs)), t) = _
  rw [classify_inOrder]

/-- Conditions whose columns all name their tables are sorted without a failure, and without a
change of the state. -/
theorem run_sortConditions_of_qualified (h : ∀ c ∈ joins ++ selections, c.Qualified)
    (s : BuildState) :
    (sortConditions selections joins).run s = (.ok (classify (joins ++ selections)), s) := by
  rw [sortConditions, qualifyAll_of_qualified h]
  rfl

/-- A construction does not depend on how the conditions are filed. Two lists of selections and
joins, of which the joins followed by the selections say the same one by one, have the same result
and the same state at the end. If they say the same up to the types and sizes of columns, then so do
the results. Sorted conditions whose columns all name their tables are sorted into the same two
lists again; if the columns of the given conditions do, then so do those of the sorted ones. -/
theorem build_refiled (catalog : Catalog) (settings : Settings) (q : Query) :
    (∀ selections joins selections' joins' : List Condition,
      (joins' ++ selections').map unfiled = (joins ++ selections).map unfiled →
      ∀ s, (build catalog settings { q with selections := selections', joins := joins' }).run s =
        (build catalog settings { q with selections := selections, joins := joins }).run s) ∧
    (∀ selections joins selections' joins' : List Condition,
      (joins' ++ selections').map (fun c => (c.mapColumns Attribute.plain).unfiled) =
        (joins ++ selections).map (fun c => (c.mapColumns Attribute.plain).unfiled) →
      ∀ s, image Attribute.plain
          ((build catalog settings { q with selections := selections', joins := joins' }).run s) =
        image Attribute.plain
          ((build catalog settings { q with selections := selections, joins := joins }).run s)) ∧
    (∀ selections joins s sorted u, (sortConditions selections joins).run s = (.ok sorted, u) →
      (∀ c ∈ sorted.2 ++ sorted.1, c.Qualified) →
      ∀ t, (sortConditions sorted.1 sorted.2).run t = (.ok sorted, t)) ∧
    ∀ selections joins : List Condition, (∀ c ∈ joins ++ selections, c.Qualified) →
      ∃ sorted, (∀ c ∈ sorted.2 ++ sorted.1, c.Qualified) ∧
        ∀ s, (sortConditions selections joins).run s = (.ok sorted, s) := by
  refine ⟨fun _ _ _ _ h s => ?_,
    fun _ _ _ _ h s => image_build_refiled catalog settings q Attribute.key_plain h s,
    fun _ _ _ _ _ => run_sortConditions_sorted,
    fun selections joins h => ⟨_, fun c hc => ?_, run_sortConditions_of_qualified h⟩⟩
  · have hid (a : Attribute) : (id a).key = a.key := rfl
    simpa using image_build_refiled catalog settings q hid (by simpa using h) s
  · have hkind {d : Condition} (hd : d.Qualified) (kind : ConditionKind) :
        ({ d with kind := kind } : Condition).Qualified := ⟨hd.lhs, hd.rhs⟩
    obtain hc | hc := List.mem_append.1 hc <;> obtain ⟨d, hd, rfl⟩ := List.mem_map.1 hc <;>
      exact hkind (h d (List.mem_of_mem_filter hd)) _

/-- The conditions of the query of three tables, all with the kind of a join. -/
def Sample.misfiled : List Condition :=
  (Sample.query.joins ++ Sample.query.selections).map ({ · with kind := .join })

/-- Where these are given as selections, the plan is that of the query. The qualified conditions are
sorted in the state before the construction, and once more in the state after it. -/
theorem build_refiled_sample :
    ([] ++ Sample.misfiled).map unfiled =
        (Sample.query.joins ++ Sample.query.selections).map unfiled ∧
      (build Sample.catalog default
        { Sample.query with selections := Sample.misfiled, joins := [] }).run Sample.start =
          (.ok Sample.plan, Sample.finish) ∧
      (∀ c ∈ [] ++ Sample.query.conditions Sample.catalog, c.Qualified) ∧
      ∃ sorted, (sortConditions (Sample.query.conditions Sample.catalog) []).run Sample.start =
          (.ok sorted, Sample.start) ∧
        (sortConditions sorted.1 sorted.2).run Sample.finish = (.ok sorted, Sample.finish) := by
  have hsame : ([] ++ Sample.misfiled).map unfiled =
      (Sample.query.joins ++ Sample.query.selections).map unfiled := by decide +kernel
  have hqualified : ∀ c ∈ [] ++ Sample.query.conditions Sample.catalog, c.Qualified := by
    obtain ⟨_, _, _, -, -, -, -, hcs⟩ := build_returns Sample.run_start
    obtain ⟨rfl, hqualified⟩ := hcs (by decide +kernel)
    exact hqualified
  obtain ⟨hbuild, -, hagain, hreturns⟩ := build_refiled Sample.catalog default Sample.query
  obtain ⟨sorted, hsorted, hrun⟩ := hreturns (Sample.query.conditions Sample.catalog) [] hqualified
  exact ⟨hsame, (hbuild _ _ _ _ hsame Sample.start).trans Sample.run_start, hqualified, sorted,
    hrun Sample.start, hagain _ _ _ _ _ (hrun Sample.start) hsorted Sample.finish⟩

end BuildM

end QueryPlan
