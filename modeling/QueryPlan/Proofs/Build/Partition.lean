import Mathlib
import QueryPlan.Proofs.Build.Stages

/-!
# The tables are divided among the operators at the top

From the moment when all tables are scanned, every state that a construction passes through divides
the tables among the operators at the top. This is the invariant of the frontier, said by what the
construction itself looks up: the leader of a table is the one that is found for it, and the leaders
are the tables that are linked to themselves.

## Main definitions

* `BuildState.Partitions` : the operators at the top divide the tables among them.

## Main results

* `BuildM.build_partitions` : so it is in all states after the scans, and the plan that is returned
  is one of these operators.
-/

namespace QueryPlan

namespace BuildState

/-- The operators at the top divide the given tables among them. -/
structure Partitions (catalog : Catalog) (tables : List String) (s : BuildState) : Prop where
  /-- The links are those of the given tables, one for each. -/
  nodup_tables : s.groups.tables.Nodup
  mem_tables_iff : ∀ t, t ∈ s.groups.tables ↔ t ∈ tables
  /-- No links form a cycle, apart from those of tables to themselves. -/
  acyclic : s.groups.Acyclic
  /-- There is one operator for every table that is linked to itself. -/
  nodup_keys : s.tops.keys.Nodup
  mem_keys_iff : ∀ r, r ∈ s.tops.keys ↔ s.groups.next? r = some r
  /-- An operator scans those tables that its key is found for, each once. -/
  nodup_scannedTables : ∀ {r p}, s.tops.get? r = some p → p.scannedTables.Nodup
  mem_scannedTables_iff : ∀ {r p}, s.tops.get? r = some p →
    ∀ t, t ∈ p.scannedTables ↔ ∃ g, s.groups.find t = some (r, g)
  /-- All scans together are those of the tables. -/
  perm : (s.tops.values.flatMap Plan.scannedTables).Perm s.groups.tables
  /-- The columns of an operator are those of its tables, left to right. -/
  schema : ∀ {r p}, s.tops.get? r = some p → ∃ schemas,
    List.Forall₂ (fun t schema => catalog.loadSchema t = .ok schema) p.scannedTables schemas ∧
      p.schema = Schema.concat schemas

variable {catalog : Catalog} {tables : List String} {s : BuildState}

/-- No table is scanned under two operators at the top. -/
theorem Frontier.nodup_flatMap_scannedTables (hs : s.Frontier catalog tables) :
    (s.tops.values.flatMap Plan.scannedTables).Nodup := by
  rw [OrderedMap.values, List.flatMap_map, List.nodup_flatMap]
  have hget {e} (he : e ∈ s.tops.entries) : s.tops.get? e.1 = some e.2 :=
    OrderedMap.get?_of_mem_entries hs.nodup_keys he
  refine ⟨fun e he => hs.nodup_scannedTables (hget he), ?_⟩
  refine (List.pairwise_map.1 hs.nodup_keys).imp_of_mem fun {e f} he hf hne t hte htf => hne ?_
  exact ((hs.mem_scannedTables_iff (hget he) t).1 hte).unique
    ((hs.mem_scannedTables_iff (hget hf) t).1 htf)

theorem Frontier.mem_flatMap_scannedTables_iff (hs : s.Frontier catalog tables) (t : String) :
    t ∈ s.tops.values.flatMap Plan.scannedTables ↔ t ∈ s.groups.tables := by
  rw [List.mem_flatMap]
  constructor
  · rintro ⟨p, hp, ht⟩
    obtain ⟨e, he, rfl⟩ := List.mem_map.1 hp
    have hget := OrderedMap.get?_of_mem_entries hs.nodup_keys he
    exact ((hs.mem_scannedTables_iff hget t).1 ht).mem_tables
  · intro ht
    obtain ⟨p, hp⟩ := hs.exists_top ((hs.mem_tables_iff t).1 ht)
    obtain ⟨htp, r, hr⟩ := hs.top_iff.1 hp
    exact ⟨p, OrderedMap.mem_values_of_get? hr, htp⟩

theorem Frontier.partitions (hs : s.Frontier catalog tables) : s.Partitions catalog tables where
  nodup_tables := hs.nodup_tables
  mem_tables_iff := hs.mem_tables_iff
  acyclic := hs.rooted.acyclic
  nodup_keys := hs.nodup_keys
  mem_keys_iff r := by rw [hs.mem_keys_iff, Grouping.ledBy_self_iff]
  nodup_scannedTables := hs.nodup_scannedTables
  mem_scannedTables_iff hp t := by
    rw [hs.mem_scannedTables_iff hp, hs.rooted.find_eq_some_iff]
  perm := (List.perm_ext_iff_of_nodup hs.nodup_flatMap_scannedTables hs.nodup_tables).2
    hs.mem_flatMap_scannedTables_iff
  schema hp := (hs.bare hp).schema_eq_concat

end BuildState

namespace BuildM

open Program BuildState

/-- In every state after the scans the tables are divided among the operators at the top. A plan
that is returned is one of them, below the operators that group, order and project it. -/
theorem build_partitions {q : Query} (hq : q.tables ≠ []) (catalog : Catalog)
    (settings : Settings) (s : BuildState) :
    ∃ later, (build catalog settings q).trail s =
        (scanStage catalog q.tables).trail s ++ later ∧
      (∀ u ∈ later, u.Partitions catalog q.tables) ∧
      ∀ p u, (build catalog settings q).run s = (.ok p, u) →
        u.Partitions catalog q.tables ∧ ∃ r, u.tops.get? r = some p.core := by
  have hbuild : build catalog settings q =
      scanStage catalog q.tables >>= fun _ => planScanned settings q := by
    rw [build, if_neg (by simpa using hq)]
  rw [hbuild, trail_bind, run_bind]
  rcases hscan : (scanStage catalog q.tables).run s with ⟨_ | ⟨⟩, t⟩
  · exact ⟨[], rfl, nofun, fun p u h => by cases h⟩
  · have hmeets := planScanned_meets (scanStage_returns hscan) settings q
    refine ⟨_, rfl, fun u hu => (hmeets.always u hu).partitions, fun p u hrun => ?_⟩
    obtain ⟨t', cs, v, ht', htaken, hroot, hsame, -⟩ := hmeets.returns hrun
    have ht := (scanStage_returns hscan).of_unchanged ht'
    have hv := ht.of_conditionsTaken htaken
    obtain ⟨r, hr⟩ := htaken.root_top ht.root hroot
    exact ⟨(hv.of_same hsame).partitions, r, hsame.tops ▸ hr⟩

theorem build_partitions_sample :
    Sample.query.tables ≠ [] ∧
      ∃ later, (build Sample.catalog default Sample.query).trail Sample.start =
          (scanStage Sample.catalog Sample.query.tables).trail Sample.start ++ later ∧
        (∀ u ∈ later, u.Partitions Sample.catalog Sample.query.tables) ∧
        Sample.finish.Partitions Sample.catalog Sample.query.tables ∧
        ∃ r, Sample.finish.tops.get? r = some Sample.plan.core := by
  have hq : Sample.query.tables ≠ [] := by decide
  obtain ⟨later, htrail, hlater, hreturns⟩ :=
    build_partitions hq Sample.catalog default Sample.start
  exact ⟨hq, later, htrail, hlater, hreturns Sample.plan Sample.finish Sample.run_start⟩

end BuildM

end QueryPlan
