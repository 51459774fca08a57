import Mathlib
import QueryPlan.Proofs.Build.Stages

/-!
# Looking up columns leaves the scans alone

While every table is under its scan, no way to a leader can be shortened, so looking up the table of
a column changes nothing. What a column is qualified to is then a function of the column alone, and
so is what a condition is qualified to: conditions can be compared one by one, in whatever order
they are looked up.

## Main definitions

* `Program.Stays` : a run ends in the state that it starts in.
* `BuildState.column`, `BuildState.qualified` : what a column and a condition are qualified to.

## Main results

* `BuildM.run_qualifyAll` : conditions are qualified one by one, in the state of the scans.
* `BuildState.qualified_eq_ok_iff` : a condition is qualified when its columns are.
* `BuildState.Scanned.pair?_qualified` : the tables of a condition that is qualified.
-/

namespace QueryPlan

namespace Program

variable {σ ε α β : Type} {m : Program σ ε α} {f : α → Program σ ε β} {s : σ}

/-- A run from `s` ends in `s`, with a value or with a failure. -/
def Stays (m : Program σ ε α) (s : σ) : Prop := (m.run s).2 = s

theorem Stays.run_eq (hm : m.Stays s) : m.run s = ((m.run s).1, s) := Prod.ext rfl hm

theorem stays_pure (a : α) (s : σ) : (pure a : Program σ ε α).Stays s := rfl

/-- The result of a sequence is made of those of its parts, all of them from the same state. -/
theorem Stays.run_bind (hm : m.Stays s) (hf : ∀ a, (f a).Stays s) :
    (m >>= f).run s = ((m.run s).1 >>= fun a => ((f a).run s).1, s) := by
  rw [Program.run_bind, hm.run_eq]
  cases (m.run s).1 with
  | error e => rfl
  | ok a => exact (hf a).run_eq

theorem Stays.bind (hm : m.Stays s) (hf : ∀ a, (f a).Stays s) : (m >>= f).Stays s :=
  congrArg Prod.snd (hm.run_bind hf)

theorem stays_get_bind {f : σ → Program σ ε β} (hf : (f s).Stays s) :
    ((get : Program σ ε σ) >>= f).Stays s := hf

end Program

open Program

variable {catalog : Catalog} {tables : List String} {s : BuildState}

namespace BuildState

/-- Where no table is linked to another one, its leader is found without shortening a way. -/
theorem Scanned.eq_of_find (hs : s.Scanned catalog tables) {table leader : String} {g : Grouping}
    (h : s.groups.find table = some (leader, g)) : g = s.groups := by
  have hmem : table ∈ s.groups.tables := by
    by_contra hnot
    rw [Grouping.find_of_notMem hnot] at h
    cases h
  obtain ⟨r, hr⟩ := hs.rooted table hmem
  obtain rfl := hs.alone hr
  have hself : s.groups.links.get? r = some r := Grouping.ledBy_self_iff.1 hr
  rw [Grouping.find, Grouping.findAlong] at h
  split at h
  · cases h
  · rename_i next hnext
    obtain rfl := Option.some.inj (hself.symm.trans hnext)
    rw [if_pos rfl] at h
    exact (Prod.mk.inj (Option.some.inj h)).2.symm

end BuildState

namespace BuildM

open BuildState

theorem stays_leaderOf (hs : s.Scanned catalog tables) (table : String) :
    (leaderOf table).Stays s := by
  refine stays_get_bind ?_
  split
  · rename_i leader groups hfind
    obtain rfl := hs.eq_of_find hfind
    rfl
  · rfl

theorem stays_topOf (hs : s.Scanned catalog tables) (table : String) : (topOf table).Stays s := by
  refine (stays_leaderOf hs table).bind fun leader => stays_get_bind ?_
  split
  · rfl
  · rfl

theorem stays_tablesWith (hs : s.Scanned catalog tables) (a : Attribute) (ts : List String) :
    (tablesWith a ts).Stays s := by
  induction ts with
  | nil => rfl
  | cons t ts ih =>
    exact (stays_topOf hs t).bind fun _ => ih.bind fun _ => stays_pure _ s

theorem stays_ownerOf (hs : s.Scanned catalog tables) (a : Attribute) : (ownerOf a).Stays s := by
  unfold ownerOf
  split
  · rfl
  · refine stays_get_bind ((stays_tablesWith hs a _).bind fun found => ?_)
    split <;> rfl

theorem stays_qualify (hs : s.Scanned catalog tables) (a : Attribute) : (qualify a).Stays s := by
  unfold qualify
  split
  · rfl
  · refine (stays_ownerOf hs a).bind fun table => (stays_topOf hs table).bind fun top => ?_
    split <;> rfl

theorem stays_qualifyOperand (hs : s.Scanned catalog tables) (o : Operand) :
    (qualifyOperand o).Stays s := by
  cases o with
  | column a => exact (stays_qualify hs a).bind fun _ => stays_pure _ s
  | integer | real | text => rfl

theorem stays_qualifyCondition (hs : s.Scanned catalog tables) (c : Condition) :
    (qualifyCondition c).Stays s :=
  (stays_qualify hs c.lhs).bind fun _ => (stays_qualifyOperand hs c.rhs).bind fun _ =>
    stays_pure _ s

end BuildM

namespace BuildState

open BuildM

/-- What a column is qualified to in a state, or why it is not. -/
def column (s : BuildState) (a : Attribute) : Except Failure Attribute := ((qualify a).run s).1

/-- What an operand is qualified to in a state, or why it is not. -/
def operand (s : BuildState) : Operand → Except Failure Operand
  | .column a => (s.column a).map .column
  | o => .ok o

/-- What a condition is qualified to in a state, or why it is not. -/
def qualified (s : BuildState) (c : Condition) : Except Failure Condition :=
  ((qualifyCondition c).run s).1

theorem run_qualifyOperand (hs : s.Scanned catalog tables) (o : Operand) :
    (qualifyOperand o).run s = (s.operand o, s) := by
  cases o with
  | column a =>
    refine ((stays_qualify hs a).run_bind fun _ => stays_pure _ s).trans ?_
    exact congrArg (·, s) (by rw [operand, column]; cases ((qualify a).run s).1 <;> rfl)
  | integer | real | text => rfl

/-- The columns of a condition are looked up from left to right. -/
theorem qualified_eq (hs : s.Scanned catalog tables) (c : Condition) :
    s.qualified c = (do
      let lhs ← s.column c.lhs
      let rhs ← s.operand c.rhs
      return if lhs.same c.lhs && rhs.same c.rhs then c else { c with lhs := lhs, rhs := rhs }) := by
  have hpure (lhs : Attribute) (rhs : Operand) : (pure
      (if lhs.same c.lhs && rhs.same c.rhs then c else { c with lhs := lhs, rhs := rhs }) :
        BuildM Condition).Stays s := stays_pure _ s
  have hrhs (lhs : Attribute) := (stays_qualifyOperand hs c.rhs).bind (hpure lhs)
  refine (congrArg Prod.fst ((stays_qualify hs c.lhs).run_bind hrhs)).trans ?_
  refine congrArg (s.column c.lhs >>= ·) (funext fun lhs => ?_)
  rw [(stays_qualifyOperand hs c.rhs).run_bind (hpure lhs), run_qualifyOperand hs]
  rfl

/-- A condition is qualified when its columns are. -/
theorem qualified_eq_ok_iff (hs : s.Scanned catalog tables) {c d : Condition} :
    s.qualified c = .ok d ↔ ∃ lhs rhs, s.column c.lhs = .ok lhs ∧ s.operand c.rhs = .ok rhs ∧
      d = if lhs.same c.lhs && rhs.same c.rhs then c else { c with lhs := lhs, rhs := rhs } := by
  rw [qualified_eq hs]
  constructor
  · intro h
    obtain ⟨lhs, hlhs, h⟩ := bind_eq_ok_iff.1 h
    obtain ⟨rhs, hrhs, h⟩ := bind_eq_ok_iff.1 h
    exact ⟨lhs, rhs, hlhs, hrhs, (Except.ok.inj h).symm⟩
  · rintro ⟨lhs, rhs, hlhs, hrhs, rfl⟩
    rw [hlhs, hrhs]
    rfl

theorem Scanned.column_eq (hs : s.Scanned catalog tables) {a b : Attribute}
    (h : s.column a = .ok b) : b = a.qualifiedIn catalog tables := by
  have hrun : (qualify a).run s = (.ok b, s) := by
    rw [(stays_qualify hs a).run_eq]
    exact congrArg (·, s) h
  exact ((qualify_meets hs a).returns hrun).2.1

theorem Scanned.operand_eq (hs : s.Scanned catalog tables) {o o' : Operand}
    (h : s.operand o = .ok o') : o' = o.qualifiedIn catalog tables := by
  cases o with
  | column a =>
    obtain ⟨b, hb, rfl⟩ := map_eq_ok_iff.1 h
    rw [hs.column_eq hb]
    rfl
  | integer | real | text => exact (Except.ok.inj h).symm

end BuildState

namespace BuildM

open BuildState

/-- Conditions are qualified one by one, in the state of the scans. -/
theorem run_qualifyAll (hs : s.Scanned catalog tables) (cs : List Condition) :
    (qualifyAll cs).run s = (cs.mapM s.qualified, s) := by
  induction cs with
  | nil => rfl
  | cons c cs ih =>
    have hrest (d : Condition) : (qualifyAll cs >>= fun ds => pure (d :: ds) :
        BuildM (List Condition)).Stays s :=
      Stays.bind (congrArg Prod.snd ih) fun _ => stays_pure _ s
    refine ((stays_qualifyCondition hs c).run_bind hrest).trans ?_
    rw [List.mapM_cons]
    refine congrArg (fun f => (s.qualified c >>= f, s)) (funext fun d => ?_)
    rw [(show (qualifyAll cs).Stays s from congrArg Prod.snd ih).run_bind fun _ => stays_pure _ s, ih]
    rfl

end BuildM

/-! ### What columns and conditions are qualified to -/

theorem Attribute.owner?_of_same {a b : Attribute} (h : a.same b = true) :
    a.owner? = b.owner? := by
  have htable : a.table = b.table := congrArg AttributeKey.table ((same_iff a b).1 h)
  rw [owner?, owner?, htable]

theorem Operand.owner?_of_same {o o' : Operand} (h : o.same o' = true) :
    o.column?.bind Attribute.owner? = o'.column?.bind Attribute.owner? := by
  cases o <;> cases o'
  case column.column a b => exact Attribute.owner?_of_same h
  all_goals first | rfl | cases h

namespace BuildState

open BuildM

variable {table : String} {a b : Attribute} {c d : Condition}

/-- The operator over a table that is scanned is found. -/
theorem Scanned.run_topOf (hs : s.Scanned catalog tables) (ht : table ∈ tables) :
    ∃ schema, catalog.loadSchema table = .ok schema ∧
      (topOf table).run s = (.ok (.scan table schema), s) := by
  obtain ⟨p, r, hr, hp⟩ := hs.exists_top ht
  obtain rfl := hs.alone hr
  obtain ⟨schema, hload, rfl⟩ := hs.scan hp
  obtain ⟨g, hfind, -⟩ := hr.find
  obtain rfl := hs.eq_of_find hfind
  have hleader : (leaderOf r).run s = (.ok r, s) := by
    rw [leaderOf, Program.run_bind, run_get]
    simp only [hfind]
    rfl
  refine ⟨schema, hload, ?_⟩
  rw [topOf, Program.run_bind, hleader]
  simp only [Program.run_bind, run_get, hp, run_pure]

/-- Of the tables that are scanned, those are found that have the column. -/
theorem Scanned.run_tablesWith (hs : s.Scanned catalog tables) (a : Attribute) {ts : List String}
    (hts : ts ⊆ tables) :
    (tablesWith a ts).run s = (.ok (ts.filter fun t => (catalog.column? a t).isSome), s) := by
  induction ts with
  | nil => rfl
  | cons t ts ih =>
    obtain ⟨ht, hts⟩ := List.cons_subset.1 hts
    obtain ⟨schema, hload, htop⟩ := hs.run_topOf ht
    have hcolumn : catalog.column? a t = schema.resolve? a := by rw [Catalog.column?, hload]
    rw [tablesWith, Program.run_bind, htop]
    simp only [Program.run_bind, ih hts, run_pure, List.filter_cons, hcolumn]
    rfl

/-- A column that names no table is qualified to that of the only table that has one. -/
theorem Scanned.column_eq_match (hs : s.Scanned catalog tables) (ha : a.owner? = none) :
    s.column a = match s.groups.tables.filter fun t => (catalog.column? a t).isSome with
      | [t] => .ok ((catalog.column? a t).getD a)
      | [] => .error (.attributeWithoutTable a)
      | found => .error (.ambiguousAttribute a found) := by
  have htables : (tablesWith a s.groups.tables).run s =
      (.ok (s.groups.tables.filter fun t => (catalog.column? a t).isSome), s) :=
    hs.run_tablesWith a fun t => (hs.mem_tables_iff t).1
  rcases hfound : s.groups.tables.filter fun t => (catalog.column? a t).isSome with
    _ | ⟨t, _ | ⟨t', ts⟩⟩ <;> rw [hfound] at htables <;>
    simp only [column, qualify, ownerOf, ha, Program.run_bind, run_get, htables, run_fail, run_pure]
  -- the operator over the only table that has the column is its scan
  have hmem : t ∈ s.groups.tables.filter fun t => (catalog.column? a t).isSome := by simp [hfound]
  obtain ⟨ht, hcolumn⟩ := List.mem_filter.1 hmem
  obtain ⟨b, hb⟩ := Option.isSome_iff_exists.1 hcolumn
  obtain ⟨schema, hload, htop⟩ := hs.run_topOf ((hs.mem_tables_iff t).1 ht)
  have hresolve : schema.resolve? a = some b := by
    rw [← hb, Catalog.column?, hload]
  simp only [htop, Plan.schema, hresolve, hb, Option.getD_some, run_pure]

theorem Scanned.column_of_unique (hs : s.Scanned catalog tables) (ha : a.owner? = none)
    (ht : table ∈ tables) (hb : catalog.column? a table = some b)
    (honly : ∀ t ∈ tables, (catalog.column? a t).isSome → t = table) : s.column a = .ok b := by
  have hfound : (s.groups.tables.filter fun t => (catalog.column? a t).isSome) = [table] := by
    have hmem : table ∈ s.groups.tables.filter fun t => (catalog.column? a t).isSome :=
      List.mem_filter.2 ⟨(hs.mem_tables_iff table).2 ht, by simp [hb]⟩
    refine List.perm_singleton.1 ((List.perm_ext_iff_of_nodup (hs.nodup_tables.filter _)
      (List.nodup_singleton table)).2 fun t => ⟨fun h => ?_, fun h => ?_⟩)
    · obtain ⟨hmem, hcolumn⟩ := List.mem_filter.1 h
      exact List.mem_singleton.2 (honly t ((hs.mem_tables_iff t).1 hmem) hcolumn)
    · exact List.mem_singleton.1 h ▸ hmem
  rw [hs.column_eq_match ha, hfound]
  exact congrArg Except.ok (by rw [hb]; rfl)

theorem column_of_owner? (ha : a.owner? = some table) : s.column a = .ok a := by
  rw [column, qualify, ha]
  rfl

/-- A condition that joins two tables as it is written stays as it is. -/
theorem qualified_of_pair? (hs : s.Scanned catalog tables) {p : String × String}
    (h : c.pair? = some p) : s.qualified c = .ok c := by
  obtain ⟨_, _, x, hl, hx, hr, -⟩ := Condition.pair?_eq_some h
  refine (qualified_eq_ok_iff hs).2 ⟨c.lhs, c.rhs, column_of_owner? hl, ?_, by simp⟩
  rw [hx, operand, column_of_owner? hr]
  rfl

/-- A condition whose sides are swapped is qualified to the swapped one. -/
theorem qualified_of_flipped? (hs : s.Scanned catalog tables) {e : Condition}
    (h : c.flipped? = some d) (hc : s.qualified c = .ok e) :
    ∃ e', s.qualified d = .ok e' ∧ e.flipped? = some e' := by
  obtain ⟨l, rhs, comparator, kind⟩ := c
  cases rhs with
  | column r =>
    cases h
    obtain ⟨l', _, hl, hr, rfl⟩ := (qualified_eq_ok_iff hs).1 hc
    obtain ⟨r', hr', rfl⟩ := map_eq_ok_iff.1 hr
    refine ⟨_, (qualified_eq_ok_iff hs).2
      ⟨r', .column l', hr', map_eq_ok_iff.2 ⟨l', hl, rfl⟩, rfl⟩, ?_⟩
    cases hlhs : l'.same l <;> cases hrhs : r'.same r <;>
      simp [Operand.same, hlhs, hrhs, Condition.flipped?, Operand.column?]
  | integer | real | text => cases h

/-- A condition that is qualified relates the tables that the schemas of the catalog give its
columns. -/
theorem Scanned.pair?_qualified (hs : s.Scanned catalog tables) (h : s.qualified c = .ok d) :
    d.pair? = (c.qualifiedIn catalog tables).pair? := by
  obtain ⟨lhs, rhs, hl, hr, rfl⟩ := (qualified_eq_ok_iff hs).1 h
  obtain rfl := hs.column_eq hl
  obtain rfl := hs.operand_eq hr
  split
  · rename_i hsame
    obtain ⟨hlhs, hrhs⟩ := (Bool.and_eq_true _ _).mp hsame
    rw [Condition.pair?, Condition.pair?, Condition.qualifiedIn,
      Attribute.owner?_of_same hlhs, Operand.owner?_of_same hrhs]
  · rfl

end BuildState

end QueryPlan
