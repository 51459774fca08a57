import Mathlib
import QueryPlan.Proofs.Build.Joins
import QueryPlan.Proofs.Build.Partition
import QueryPlan.Proofs.Join.Links

/-!
# How a construction fails

A construction that fails keeps what it came to, and what it came to is in good order: the tables
are divided among the operators at the top, the joins made are counted, and one code was drawn for
each of them. The only step that draws a code is the one that makes a join, and once its code is
drawn nothing in it can fail.

Apart from a schema that cannot be loaded, every failure is one of a query that names what is not
there, or names it ambiguously.

## Main definitions

* `Catalog.FailsFirst` : why the first schema that cannot be loaded cannot.
* `Draws.InRange`, `Draws.skip` : sources that give codes of algorithms, and sources that are
  further on.
* `BuildState.Tallied` : the state of a construction that has drawn one code for every join.
* `BuildM.OrInvalid` : a step has what it needs, or may fail as invalid. Each step is described once
  with it, for a run that may fail and for one that may not.

## Main results

* `BuildM.planScanned_ends` : the stages after the scans end in such a state, also when they fail,
  and fail only on the names that a query gives.
* `BuildM.build_ends` : so does a whole construction, unless a schema cannot be loaded.
-/

namespace QueryPlan

/-- Different numbers below `n`, as many as there are, are all of them. -/
theorem perm_range_of_nodup {l : List ℤ} {n : ℕ} (hnodup : l.Nodup)
    (hrange : ∀ k ∈ l, 0 ≤ k ∧ k < n) (hlength : l.length = n) :
    l.Perm ((List.range n).map Nat.cast) := by
  refine (hnodup.subperm fun k hk => ?_).perm_of_length_le (by simp [hlength])
  obtain ⟨hlow, hhigh⟩ := hrange k hk
  exact List.mem_map.2 ⟨k.toNat, List.mem_range.2 (by omega), by omega⟩

/-- What is collected from the elements of a list, where each gives one item less by one reading
than by another. -/
theorem length_flatMap_add_length {α β γ : Type} {f : α → List β} {g : α → List γ} {l : List α}
    (h : ∀ a ∈ l, (f a).length + 1 = (g a).length) :
    (l.flatMap f).length + l.length = (l.flatMap g).length := by
  induction l with
  | nil => rfl
  | cons a l ih =>
    obtain ⟨ha, hl⟩ := List.forall_mem_cons.1 h
    simp only [List.flatMap_cons, List.length_append, List.length_cons, ← ha, ← ih hl]
    omega

/-- The first of the tables whose schema cannot be loaded fails for the given reason. -/
def Catalog.FailsFirst (catalog : Catalog) (tables : List String) (f : Failure) : Prop :=
  ∃ before t after, tables = before ++ t :: after ∧
    (∀ x ∈ before, ∃ schema, catalog.loadSchema x = .ok schema) ∧ catalog.loadSchema t = .error f

theorem Catalog.FailsFirst.exists_table {catalog : Catalog} {tables : List String} {f : Failure}
    (h : catalog.FailsFirst tables f) : ∃ t ∈ tables, catalog.loadSchema t = .error f := by
  obtain ⟨before, t, after, rfl, -, ht⟩ := h
  exact ⟨t, by simp, ht⟩

namespace Draws

/-- Every code is that of an algorithm. -/
def InRange (d : Draws) : Prop := ∀ n, 0 ≤ d.code n ∧ d.code n < JoinAlgorithm.all.length

/-- The source after some more codes are taken. -/
def skip (d : Draws) (k : ℕ) : Draws := { d with taken := d.taken + k }

variable {d : Draws}

theorem inRange_cycle {codes : Array ℤ}
    (h : ∀ c ∈ codes, 0 ≤ c ∧ c < JoinAlgorithm.all.length) : (cycle codes).InRange := by
  intro n
  change 0 ≤ codes.getD (n % codes.size) 0 ∧ codes.getD (n % codes.size) 0 < _
  rw [Array.getD_eq_getD_getElem?]
  cases hget : codes[n % codes.size]? with
  | none => exact ⟨le_rfl, by decide⟩
  | some c => exact h c (Array.mem_of_getElem? hget)

@[simp] theorem skip_zero (d : Draws) : d.skip 0 = d := rfl

@[simp] theorem code_skip (d : Draws) (k : ℕ) : (d.skip k).code = d.code := rfl

@[simp] theorem next_snd (d : Draws) : d.next.2 = d.skip 1 := rfl

@[simp] theorem skip_skip (d : Draws) (j k : ℕ) : (d.skip j).skip k = d.skip (j + k) := by
  simp [skip, Nat.add_assoc]

theorem InRange.skip (hd : d.InRange) (k : ℕ) : (d.skip k).InRange := hd

/-- The next code of a source in range is that of an algorithm. -/
theorem InRange.exists_algorithm (hd : d.InRange) (n : ℕ) :
    ∃ a, JoinAlgorithm.ofCode? (d.code n) = some a ∧ a.code = d.code n := by
  obtain ⟨hlow, hhigh⟩ := hd n
  rw [show (JoinAlgorithm.all.length : ℤ) = 3 from rfl] at hhigh
  generalize d.code n = c at hlow hhigh
  obtain rfl | rfl | rfl : c = 0 ∨ c = 1 ∨ c = 2 := by omega
  · exact ⟨.nestedLoop, rfl, rfl⟩
  · exact ⟨.blockNested, rfl, rfl⟩
  · exact ⟨.sortMerge, rfl, rfl⟩

end Draws

namespace Plan

theorem length_places (p : Plan) : p.places.length = p.joins.length := by
  have hjoins : ∀ q ∈ p.joins, q.isJoin = true := fun q hq => (mem_joins_iff.1 hq).2
  rw [places]
  generalize p.joins = l at hjoins
  induction l with
  | nil => rfl
  | cons q l ih =>
    obtain ⟨hq, hl⟩ := List.forall_mem_cons.1 hjoins
    cases q with
    | join => simpa using ih hl
    | scan | select | project | sorting | foreign | foreignLeaf => cases hq

end Plan

namespace BuildState

/-- The tables are divided among the operators at the top, the joins made are counted, and one code
of the source `d` was drawn for each of them. -/
structure Tallied (catalog : Catalog) (tables : List String) (d : Draws) (s : BuildState) : Prop
    extends s.Frontier catalog tables, s.Counted where
  draws : s.draws = d.skip s.joinCount

variable {catalog : Catalog} {tables : List String} {d : Draws} {s t u : BuildState}
  {l r left right table : String} {p pl pr : Plan} {cs : List Condition}

theorem Counted.of_same (hs : s.Counted) (hsu : s.SameFrontier u) : u.Counted where
  count := by rw [hsu.joinCount, hsu.tops, hsu.groups.tables, hs.count]
  nodup := hsu.tops ▸ hs.nodup
  range := by
    rw [hsu.tops, hsu.joinCount]
    exact hs.range
  disjoint := hsu.tops ▸ hs.disjoint

theorem Tallied.of_same (hs : s.Tallied catalog tables d) (hsu : s.SameFrontier u)
    (hdraws : u.draws = s.draws) : u.Tallied catalog tables d where
  toFrontier := hs.toFrontier.of_same hsu
  toCounted := hs.toCounted.of_same hsu
  draws := by rw [hdraws, hs.draws, hsu.joinCount]

theorem Tallied.of_raises (hs : s.Tallied catalog tables d) (hp : s.tops.get? r = some p)
    (hsu : s.Raises r (cs.foldl Plan.select p) u) (hdraws : u.draws = s.draws) :
    u.Tallied catalog tables d where
  toFrontier := hs.toFrontier.of_raises hsu hp ((hs.bare hp).foldl_select cs)
    (Plan.scannedTables_foldl_select cs p)
  toCounted := hs.toCounted.of_raises hp hsu
  draws := by rw [hdraws, hs.draws, hsu.joinCount]

theorem Scanned.tallied (hs : s.Scanned catalog tables) (hdraws : s.draws = d) :
    s.Tallied catalog tables d where
  toFrontier := hs.toFrontier
  toCounted := hs.chained.counted hs.toFrontier
  draws := by rw [hs.joinCount, hdraws, Draws.skip_zero]

/-- The places of all joins are the numbers below the number of joins made, each once. -/
theorem Tallied.places_perm (hs : s.Tallied catalog tables d) :
    (s.tops.values.flatMap Plan.places).Perm ((List.range s.joinCount).map Nat.cast) := by
  have hget {e} (he : e ∈ s.tops.entries) : s.tops.get? e.1 = some e.2 :=
    OrderedMap.get?_of_mem_entries hs.nodup_keys he
  have hkeys : s.tops.values.length = s.tops.keys.length := by
    simp [OrderedMap.values, OrderedMap.keys]
  refine perm_range_of_nodup ?_ (fun n hn => ?_) ?_
  · rw [OrderedMap.values, List.flatMap_map, List.nodup_flatMap]
    refine ⟨fun e he => hs.nodup (hget he), ?_⟩
    refine (List.pairwise_map.1 hs.nodup_keys).imp_of_mem fun {e f} he hf hne n hn hn' => ?_
    exact hs.disjoint (hget he) (hget hf) hne n hn hn'
  · obtain ⟨p, hp, hn⟩ := List.mem_flatMap.1 hn
    obtain ⟨e, he, rfl⟩ := List.mem_map.1 hp
    exact hs.range (hget he) n hn
  · have hone : ∀ p ∈ s.tops.values, p.places.length + 1 = p.scannedTables.length := by
      intro p hp
      obtain ⟨e, he, rfl⟩ := List.mem_map.1 hp
      rw [Plan.length_places]
      exact (hs.bare (hget he)).length_joins_add_one
    have htotal := length_flatMap_add_length hone
    rw [hs.toFrontier.partitions.perm.length_eq, hkeys, ← hs.count] at htotal
    omega

end BuildState

namespace BuildM

open Program BuildState

variable {catalog : Catalog} {tables : List String} {d : Draws} {s : BuildState}
  {l r left right table : String} {p pl pr : Plan}

/-! ### Steps that cannot fail -/

theorem run_leaderOf (hr : s.groups.LedBy table r) :
    ∃ g, s.groups.SameLeaders g ∧
      (leaderOf table).run s = (.ok r, { s with groups := g }) := by
  obtain ⟨g, hfind, hg⟩ := hr.find
  refine ⟨g, hg, ?_⟩
  rw [leaderOf, run_bind, run_get]
  simp only [hfind]
  rfl

theorem run_leaderOf_of_notMem (ht : table ∉ s.groups.tables) :
    (leaderOf table).run s = (.error (.tableNotListed table), s) := by
  rw [leaderOf, run_bind, run_get]
  simp only [Grouping.find_of_notMem ht]
  rfl

theorem run_topOf (hr : s.groups.LedBy table r) (hp : s.tops.get? r = some p) :
    ∃ g, s.groups.SameLeaders g ∧ (topOf table).run s = (.ok p, { s with groups := g }) := by
  obtain ⟨g, hg, hleader⟩ := run_leaderOf hr
  refine ⟨g, hg, ?_⟩
  rw [topOf, run_bind, hleader]
  simp only [run_bind, run_get, hp, run_pure]

theorem run_setTop (hr : s.groups.LedBy table r) (q : Plan) :
    ∃ g, s.groups.SameLeaders g ∧
      (setTop table q).run s = (.ok ⟨⟩, { s with groups := g, tops := s.tops.insert r q }) := by
  obtain ⟨g, hg, hleader⟩ := run_leaderOf hr
  refine ⟨g, hg, ?_⟩
  rw [setTop, run_bind, hleader]
  rfl

theorem run_merge (hl : s.groups.LedBy left l) (hr : s.groups.LedBy right r) (q : Plan) :
    ∃ g, (merge left right q).run s =
      (.ok ⟨⟩, { s with groups := g, tops := (s.tops.erase r).insert l q }) := by
  obtain ⟨g, hg, hleft⟩ := run_leaderOf hl
  obtain ⟨g', -, hright⟩ :=
    run_leaderOf (s := { s with groups := g }) ((hg.ledBy_iff right r).2 hr)
  refine ⟨g'.bind r l, ?_⟩
  rw [merge, run_bind, hleft]
  simp only
  rw [run_bind, hright]
  rfl

/-- Two groups with their operators are joined as soon as the next code is that of an algorithm. -/
theorem run_createJoin {a : JoinAlgorithm} (hl : s.groups.LedBy left l)
    (hr : s.groups.LedBy right r) (hpl : s.tops.get? l = some pl) (hpr : s.tops.get? r = some pr)
    (ha : JoinAlgorithm.ofCode? s.draws.next.1 = some a) (cs : List Condition) :
    ∃ u, (createJoin left right cs).run s = (.ok ⟨⟩, u) ∧ u.draws = s.draws.next.2 := by
  obtain ⟨g, hg, hleft⟩ := run_topOf hl hpl
  obtain ⟨g', hg', hright⟩ :=
    run_topOf (s := { s with groups := g }) ((hg.ledBy_iff right r).2 hr) hpr
  have hsame := hg.trans hg'
  obtain ⟨g'', hmerge⟩ := run_merge (s := { s with groups := g', draws := s.draws.next.2 })
    ((hsame.ledBy_iff left l).2 hl) ((hsame.ledBy_iff right r).2 hr)
    (.join pl pr cs a.code s.joinCount)
  have hdraw : drawAlgorithm.run { s with groups := g' } =
      (.ok a, { s with groups := g', draws := s.draws.next.2 }) := by
    rw [drawAlgorithm, run_bind, run_get]
    simp only [run_bind, run_modify, ha]
    rfl
  refine ⟨{ s with
    joinCount := s.joinCount + 1
    groups := g''
    tops := (s.tops.erase r).insert l (.join pl pr cs a.code s.joinCount)
    draws := s.draws.next.2
    events := s.events ++ [.joined s.joinCount left right a] }, ?_, rfl⟩
  rw [createJoin, run_bind, hleft]
  simp only
  rw [run_bind, hright]
  simp only
  rw [run_bind, hdraw]
  simp only
  rw [run_bind, run_get]
  simp only
  rw [run_bind, hmerge]
  rfl

/-! ### How the steps end -/

/-- The failure is one of what a query names. -/
abbrev Invalid (f : Failure) : Prop := f.kind = .invalid

/-- What a step needs in order to return holds, or it may fail as invalid. -/
abbrev OrInvalid (P : Prop) (K : Failure → Prop) : Prop := P ∨ ∀ f, Invalid f → K f

/-- An edge is read as two listed tables. -/
def JoinsListed (tables : List String) (edge : String) : Prop :=
  ∃ left right, Pair.split? edge = some (left, right) ∧ left ∈ tables ∧ right ∈ tables

theorem JoinsListed.of_split? {edge : String} (h : JoinsListed tables edge)
    (hsplit : Pair.split? edge = some (left, right)) : left ∈ tables ∧ right ∈ tables := by
  obtain ⟨l, r, hlr, hlisted⟩ := h
  obtain ⟨rfl, rfl⟩ := Prod.mk.inj (Option.some.inj (hlr.symm.trans hsplit))
  exact hlisted

variable {K : Failure → Prop}

theorem record_ends (hs : s.Tallied catalog tables d) (e : Event) :
    (record e).Ends (Tallied catalog tables d) K s :=
  .modify (hs.of_same ⟨.refl _, rfl, rfl⟩ rfl)

theorem setRoot_ends (hs : s.Tallied catalog tables d) (p : Plan) :
    (setRoot p).Ends (Tallied catalog tables d) K s :=
  .modify (hs.of_same ⟨.refl _, rfl, rfl⟩ rfl)

theorem leaderOf_ends (hs : s.Tallied catalog tables d) (ht : OrInvalid (table ∈ tables) K) :
    (leaderOf table).Ends (Tallied catalog tables d) K s := by
  by_cases hmem : table ∈ s.groups.tables
  · obtain ⟨r, hr⟩ := hs.rooted table hmem
    obtain ⟨g, hg, hrun⟩ := run_leaderOf hr
    exact .of_run hrun (hs.of_same ⟨hg, rfl, rfl⟩ rfl)
  · have hK := ht.resolve_left fun ht => hmem ((hs.mem_tables_iff table).2 ht)
    have hrun := run_leaderOf_of_notMem hmem
    refine ⟨hrun ▸ hs, fun he => hK _ ?_⟩
    rw [hrun] at he
    exact Except.error.inj he ▸ rfl

theorem topOf_ends (hs : s.Tallied catalog tables d) (ht : OrInvalid (table ∈ tables) K) :
    (topOf table).Ends (Tallied catalog tables d) K s := by
  refine (leaderOf_ends hs ht).bind_of_meets (leaderOf_meets hs.toFrontier table) ?_
  rintro r t ⟨hr, hst⟩ ht
  obtain ⟨p, hp⟩ := OrderedMap.mem_keys_iff.1 ((hs.mem_keys_iff r).2 hr.leader)
  refine .get_bind ?_
  rw [hst.tops, hp]
  exact .pure ht p

/-- A chain of selections is put above the operator over a table. -/
theorem setTop_ends (hs : s.Tallied catalog tables d) (hr : s.groups.LedBy table r)
    (hp : s.tops.get? r = some p) (cs : List Condition) :
    (setTop table (cs.foldl Plan.select p)).Ends (Tallied catalog tables d) K s := by
  obtain ⟨g, hg, hrun⟩ := run_setTop hr (cs.foldl Plan.select p)
  exact .of_run hrun (hs.of_raises hp ⟨hg, rfl, rfl⟩ rfl)

theorem tablesWith_ends (hs : s.Tallied catalog tables d) (a : Attribute) (ts : List String) :
    (tablesWith a ts).Ends (Tallied catalog tables d) Invalid s := by
  induction ts generalizing s with
  | nil => exact .pure hs _
  | cons t ts ih =>
    refine (topOf_ends hs (.inr fun _ => id)).bind fun top s₁ _ h₁ => ?_
    exact (ih h₁).bind fun others s₂ _ h₂ => .pure h₂ _

theorem ownerOf_ends (hs : s.Tallied catalog tables d) {a : Attribute}
    (ha : OrInvalid (∃ t, a.owner? = some t) K) :
    (ownerOf a).Ends (Tallied catalog tables d) K s := by
  unfold ownerOf
  split
  · exact .pure hs _
  · rename_i howner
    have hK := ha.resolve_left (by simp [howner])
    have hfound := (tablesWith_ends hs a s.groups.tables).mono (fun _ => id) hK
    refine .get_bind (hfound.bind fun found u _ hu => ?_)
    split
    · exact .pure hu _
    · exact .fail hu (hK _ rfl)
    · exact .fail hu (hK _ rfl)

theorem qualify_ends (hs : s.Tallied catalog tables d) (a : Attribute) :
    (qualify a).Ends (Tallied catalog tables d) Invalid s := by
  unfold qualify
  split
  · exact .pure hs _
  · refine (ownerOf_ends hs (.inr fun _ => id)).bind fun table s₁ _ h₁ => ?_
    refine (topOf_ends h₁ (.inr fun _ => id)).bind fun top s₂ _ h₂ => ?_
    split
    · exact .pure h₂ _
    · exact .fail h₂ rfl

theorem qualifyOperand_ends (hs : s.Tallied catalog tables d) (o : Operand) :
    (qualifyOperand o).Ends (Tallied catalog tables d) Invalid s := by
  cases o with
  | column a => exact (qualify_ends hs a).bind fun b u _ hu => .pure hu _
  | integer | real | text => exact .pure hs _

theorem qualifyCondition_ends (hs : s.Tallied catalog tables d) (c : Condition) :
    (qualifyCondition c).Ends (Tallied catalog tables d) Invalid s := by
  refine (qualify_ends hs c.lhs).bind fun lhs s₁ _ h₁ => ?_
  exact (qualifyOperand_ends h₁ c.rhs).bind fun rhs s₂ _ h₂ => .pure h₂ _

theorem qualifyAll_ends (hs : s.Tallied catalog tables d) (cs : List Condition) :
    (qualifyAll cs).Ends (Tallied catalog tables d) Invalid s := by
  induction cs generalizing s with
  | nil => exact .pure hs _
  | cons c cs ih =>
    refine (qualifyCondition_ends hs c).bind fun c' s₁ _ h₁ => ?_
    exact (ih h₁).bind fun others s₂ _ h₂ => .pure h₂ _

theorem createSelect_ends (hs : s.Tallied catalog tables d) {c : Condition}
    (hc : OrInvalid (∃ t ∈ tables, c.lhs.owner? = some t) K) :
    (createSelect c).Ends (Tallied catalog tables d) K s := by
  have hnamed : OrInvalid (∃ t, c.lhs.owner? = some t) K := by
    refine hc.imp_left ?_
    rintro ⟨t, -, ht⟩
    exact ⟨t, ht⟩
  refine (ownerOf_ends hs hnamed).bind_of_meets (ownerOf_meets hs.toFrontier c.lhs) ?_
  rintro table s₁ ⟨-, howner, -⟩ h₁
  have ht : OrInvalid (table ∈ tables) K := by
    refine hc.imp_left ?_
    rintro ⟨t, ht, hct⟩
    exact howner t hct ▸ ht
  refine (topOf_ends h₁ ht).bind_of_meets (topOf_meets h₁.toFrontier table) ?_
  rintro p s₂ ⟨⟨r, hr, hp⟩, h₁₂⟩ h₂
  have hr₂ := (h₁₂.groups.ledBy_iff table r).2 hr
  exact (setTop_ends h₂ hr₂ (h₁₂.tops ▸ hp) [c]).bind fun _ s₃ _ h₃ => setRoot_ends h₃ _

theorem createSelects_ends (hs : s.Tallied catalog tables d) {cs : List Condition}
    (hcs : OrInvalid (∀ c ∈ cs, ∃ t ∈ tables, c.lhs.owner? = some t) K) :
    (createSelects cs).Ends (Tallied catalog tables d) K s := by
  induction cs generalizing s with
  | nil => exact .pure hs _
  | cons c cs ih =>
    have hfirst := hcs.imp_left fun h => h c List.mem_cons_self
    have hrest := hcs.imp_left fun h d hd => h d (List.mem_cons_of_mem c hd)
    exact (createSelect_ends hs hfirst).bind fun _ t _ ht => ih ht hrest

/-- The join of two groups counts one more, and takes one code more. -/
theorem createJoin_ends (hd : d.InRange) (hs : s.Tallied catalog tables d)
    (hl : s.groups.LedBy left l) (hr : s.groups.LedBy right r) (hne : l ≠ r)
    (cs : List Condition) :
    (createJoin left right cs).Ends (Tallied catalog tables d) K s := by
  obtain ⟨pl, hpl⟩ := OrderedMap.mem_keys_iff.1 ((hs.mem_keys_iff l).2 hl.leader)
  obtain ⟨pr, hpr⟩ := OrderedMap.mem_keys_iff.1 ((hs.mem_keys_iff r).2 hr.leader)
  have hcode : s.draws.InRange := hs.draws ▸ hd.skip s.joinCount
  obtain ⟨a, ha, -⟩ := hcode.exists_algorithm s.draws.taken
  obtain ⟨u, hrun, hdraws⟩ := run_createJoin hl hr hpl hpr ha cs
  have htakes := (createJoin_meets hs.toFrontier hl hr hne cs).returns hrun
  refine .of_run hrun ⟨hs.toFrontier.of_takesPair htakes,
    hs.toCounted.of_takesPair hs.toFrontier htakes, ?_⟩
  cases htakes with
  | chain hl' hr' => exact absurd ((hl.unique hl').trans (hr'.unique hr)) hne
  | join _ _ _ _ _ _ _ hcount =>
    rw [hdraws, hcount, hs.draws, Draws.next_snd, Draws.skip_skip]

theorem createChain_ends (hs : s.Tallied catalog tables d)
    (hleft : OrInvalid (left ∈ tables) K) (right : String) (cs : List Condition) :
    (createChain left right cs).Ends (Tallied catalog tables d) K s := by
  refine (topOf_ends hs hleft).bind_of_meets (topOf_meets hs.toFrontier left) ?_
  rintro p s₁ ⟨⟨r, hr, hp⟩, hsame⟩ h₁
  have hr₁ := (hsame.groups.ledBy_iff left r).2 hr
  exact (setTop_ends h₁ hr₁ (hsame.tops ▸ hp) cs).bind fun _ s₂ _ h₂ => record_ends h₂ _

theorem createEdge_ends (hd : d.InRange) (hs : s.Tallied catalog tables d)
    (hlisted : OrInvalid (left ∈ tables ∧ right ∈ tables) K) (cs : List Condition) :
    (createEdge left right cs).Ends (Tallied catalog tables d) K s := by
  have hleft := hlisted.imp_left And.left
  refine (leaderOf_ends hs hleft).bind_of_meets (leaderOf_meets hs.toFrontier left) ?_
  rintro l s₁ ⟨hl, hsame⟩ h₁
  have hl₁ := (hsame.groups.ledBy_iff left l).2 hl
  refine (leaderOf_ends h₁ (hlisted.imp_left And.right)).bind_of_meets
    (leaderOf_meets h₁.toFrontier right) ?_
  rintro r s₂ ⟨hr, hsame'⟩ h₂
  split
  · exact createChain_ends h₂ hleft right cs
  · rename_i hne
    exact createJoin_ends hd h₂ ((hsame'.groups.ledBy_iff left l).2 hl₁)
      ((hsame'.groups.ledBy_iff right r).2 hr) hne cs

theorem createEdges_ends (hd : d.InRange) (hs : s.Tallied catalog tables d) (graph : JoinGraph)
    {edges : List String} (hedges : OrInvalid (∀ edge ∈ edges, JoinsListed tables edge) K)
    (last : Option String) :
    (createEdges graph edges last).Ends (Tallied catalog tables d) K s := by
  induction edges generalizing s last with
  | nil => exact .pure hs _
  | cons edge edges ih =>
    have hfirst := hedges.imp_left fun h => h edge List.mem_cons_self
    have hrest := hedges.imp_left fun h e he => h e (List.mem_cons_of_mem edge he)
    unfold createEdges
    split
    · rename_i hsplit
      have hK := hfirst.resolve_left (by simp [JoinsListed, hsplit])
      exact .fail hs (hK _ rfl)
    · rename_i left right hsplit
      have hlisted := hfirst.imp_left fun h => h.of_split? hsplit
      exact (createEdge_ends hd hs hlisted _).bind fun _ t _ ht => ih ht hrest _

theorem checkConnected_ends (hs : s.Tallied catalog tables d) (ts : List String)
    (graph : JoinGraph) :
    (checkConnected ts graph).Ends (Tallied catalog tables d) K s := by
  refine .get_bind ?_
  dsimp only
  split
  · exact record_ends hs _
  · exact .pure hs _

theorem createJoins_ends (hd : d.InRange) (hs : s.Tallied catalog tables d)
    {cs : List Condition} {graph : JoinGraph} (hgraph : JoinGraph.ofConditions cs = .ok graph)
    (hedges : OrInvalid (∀ edge ∈ graph.edges, JoinsListed tables edge) K) :
    (createJoins cs).Ends (Tallied catalog tables d) K s := by
  rw [createJoins, hgraph]
  refine (createEdges_ends hd hs graph hedges none).bind_of_meets
    (createEdges_meets graph graph.edges hs.toFrontier) ?_
  rintro result t ⟨-, ⟨-, rfl⟩ | ⟨edge, left, right, hlast, hsplit, rfl⟩⟩ ht
  · exact .pure ht _
  · have hlisted := hedges.imp_left fun h => (h edge (List.mem_of_getLast? hlast)).of_split? hsplit
    refine (topOf_ends ht (hlisted.imp_left And.left)).bind fun top u _ hu => ?_
    exact (setRoot_ends hu top).bind fun _ v _ hv => .pure hv _

theorem joinStage_ends (hd : d.InRange) (hs : s.Tallied catalog tables d) (ts : List String)
    {cs : List Condition} {graph : JoinGraph} (hgraph : JoinGraph.ofConditions cs = .ok graph)
    (hedges : OrInvalid (∀ edge ∈ graph.edges, JoinsListed tables edge) K) :
    (joinStage ts cs).Ends (Tallied catalog tables d) K s := by
  unfold joinStage
  split
  · exact .pure hs _
  · exact (createJoins_ends hd hs hgraph hedges).bind fun graph t _ ht =>
      checkConnected_ends ht ts graph

theorem conditionStage_ends (hd : d.InRange) (hs : s.Tallied catalog tables d) (q : Query) :
    (conditionStage q).Ends (Tallied catalog tables d) Invalid s := by
  refine (qualifyAll_ends hs _).bind fun cs t _ ht => ?_
  obtain ⟨graph, hgraph, -⟩ := JoinGraph.ofConditions_classify cs
  exact (createSelects_ends ht (.inr fun _ => id)).bind fun _ u _ hu =>
    joinStage_ends hd hu q.tables hgraph (.inr fun _ => id)

theorem wrapRoot_ends (hs : s.Tallied catalog tables d) {wrap : Plan → Except Failure Plan}
    (hwrap : ∀ p e, wrap p = .error e → Invalid e) :
    (wrapRoot wrap).Ends (Tallied catalog tables d) Invalid s := by
  refine .get_bind ?_
  split
  · exact .fail hs rfl
  · exact (Ends.ofExcept hs (hwrap _)).bind fun p t _ ht => setRoot_ends ht p

theorem createSorting_ends (hs : s.Tallied catalog tables d) (settings : Settings)
    (task : SortTask) :
    (createSorting settings task).Ends (Tallied catalog tables d) Invalid s :=
  wrapRoot_ends hs fun _ _ => nofun

theorem createProject_ends (hs : s.Tallied catalog tables d) (columns : List Attribute) :
    (createProject columns).Ends (Tallied catalog tables d) Invalid s :=
  wrapRoot_ends hs fun p e he => by
    split at he
    · cases he
    · exact Except.error.inj he ▸ rfl

theorem stage_ends (hs : s.Tallied catalog tables d) (columns : List Attribute)
    {create : List Attribute → BuildM Unit}
    (hcreate : (create columns).Ends (Tallied catalog tables d) Invalid s) :
    (stage columns create).Ends (Tallied catalog tables d) Invalid s := by
  unfold stage
  split
  · exact .pure hs _
  · exact hcreate

theorem wrapStage_ends (hs : s.Tallied catalog tables d) (settings : Settings) (q : Query) :
    (wrapStage settings q).Ends (Tallied catalog tables d) Invalid s := by
  refine (stage_ends hs q.groupBy (createSorting_ends hs settings _)).bind fun _ s₁ _ h₁ => ?_
  refine (stage_ends h₁ q.orderBy (createSorting_ends h₁ settings _)).bind fun _ s₂ _ h₂ => ?_
  refine (stage_ends h₂ q.projection (createProject_ends h₂ _)).bind fun _ s₃ _ h₃ => ?_
  split
  · exact createSorting_ends h₃ settings _
  · exact .pure h₃ _

theorem theRoot_ends (hs : s.Tallied catalog tables d) :
    theRoot.Ends (Tallied catalog tables d) Invalid s := by
  refine .get_bind ?_
  split
  · exact .pure hs _
  · exact .fail hs rfl

/-- The stages after the scans draw one code for every join, also when they fail. -/
theorem planScanned_ends (hd : d.InRange) (hs : s.Tallied catalog tables d) (settings : Settings)
    (q : Query) : (planScanned settings q).Ends (Tallied catalog tables d) Invalid s := by
  refine (record_ends hs _).bind fun _ s₁ _ h₁ => ?_
  refine (conditionStage_ends hd h₁ q).bind fun _ s₂ _ h₂ => ?_
  exact (wrapStage_ends h₂ settings q).bind fun _ s₃ _ h₃ => theRoot_ends h₃

/-! ### The scans -/

/-- Where a schema cannot be loaded, the tables before it are scanned. -/
theorem createScans_ends (ts : List String) {done : List String} (hs : s.Scanning catalog done)
    (hdraws : s.draws = d) :
    (createScans catalog ts).Ends (fun u => ∃ scanned, u.Scanning catalog scanned ∧ u.draws = d)
      (catalog.FailsFirst ts) s := by
  induction ts generalizing done s with
  | nil => exact .pure ⟨done, hs, hdraws⟩ _
  | cons table ts ih =>
    refine .bind (.ofExcept ⟨done, hs, hdraws⟩ fun e he => ⟨[], table, ts, rfl, nofun, he⟩) ?_
    rintro schema t hrun -
    obtain ⟨hload, rfl⟩ := Prod.mk.inj hrun
    have h := hs.addScan hload
    let u : BuildState :=
      { s with
        groups := s.groups.bind table table
        tops := s.tops.insert table (.scan table schema)
        root := some (.scan table schema)
        events := s.events ++ [.schemaLoaded table schema.width schema.tupleSize] }
    have hu : u.Scanning catalog (done ++ [table]) :=
      ⟨h.flat, h.nodup_tables, h.mem_tables_iff, h.nodup_keys, h.mem_keys_iff, h.scan,
        h.joinCount, h.root⟩
    have hrest := ih hu hdraws
    refine ⟨hrest.state, fun he => ?_⟩
    obtain ⟨before, x, after, rfl, hbefore, hx⟩ := hrest.fails he
    exact ⟨table :: before, x, after, rfl, List.forall_mem_cons.2 ⟨⟨schema, hload⟩, hbefore⟩, hx⟩

theorem scanStage_ends (catalog : Catalog) (ts : List String) (s : BuildState) :
    (scanStage catalog ts).Ends
      (fun u => ∃ scanned, u.Scanning catalog scanned ∧ u.draws = s.draws)
      (catalog.FailsFirst ts) s := by
  have hbegin : Scanning catalog [] { draws := s.draws, events := s.events } :=
    ⟨nofun, .nil, fun _ => .rfl, .nil, fun _ => .rfl, nofun, rfl, nofun⟩
  have hscans := createScans_ends ts hbegin rfl
  exact ⟨hscans.state, hscans.fails⟩

/-- A construction draws one code for every join that it makes, also when it fails. Apart from
schemas that cannot be loaded, it fails only on the names that a query gives. -/
theorem build_ends (hs : s.draws.InRange) {q : Query} (hq : q.tables ≠ []) (catalog : Catalog)
    (settings : Settings) :
    (build catalog settings q).Ends (fun u => ∃ scanned, u.Tallied catalog scanned s.draws)
      (fun e => Invalid e ∨ ∃ t ∈ q.tables, catalog.loadSchema t = .error e) s := by
  rw [build, if_neg (by simpa using hq)]
  refine ((scanStage_ends catalog q.tables s).mono ?_ fun e he => .inr he.exists_table).bind ?_
  · rintro u ⟨scanned, hu, hdraws⟩
    exact ⟨scanned, hu.scanned.tallied hdraws⟩
  · rintro _ t - ⟨scanned, ht⟩
    exact (planScanned_ends hs ht settings q).mono (fun u hu => ⟨scanned, hu⟩) fun e => .inl

end BuildM

end QueryPlan
