import Mathlib
import QueryPlan.Proofs.Build.Frontier

/-!
# The scans that a plan begins with

A construction that is begun anew puts every table in a group of its own under its scan. A table
that is listed twice is scanned again, and its scan replaces the first one. Afterwards the tables
are divided among their scans, so the invariant of the frontier holds.

## Main definitions

* `BuildState.Scanned` : every table is in a group of its own under its scan.

## Main results

* `BuildM.scanStage_returns` : how the tables are divided when the scans are there.
-/

namespace QueryPlan

/-- Where every table is bound to itself, it leads itself and no other table. -/
theorem Grouping.ledBy_iff_of_flat {g : Grouping} (hflat : ∀ t u, g.next? t = some u → u = t)
    {t r : String} : g.LedBy t r ↔ t ∈ g.tables ∧ r = t := by
  constructor
  · rintro ⟨n, hn⟩
    refine ⟨hn.mem_tables, ?_⟩
    cases hn with
    | leader hr => rfl
    | follow ht hne hu => exact absurd (hflat _ _ ht) hne
  · rintro ⟨ht, rfl⟩
    obtain ⟨u, hu⟩ := mem_tables_iff.1 ht
    obtain rfl := hflat r u hu
    exact ledBy_self_iff.2 hu

namespace BuildState

/-- Every listed table is in a group of its own under its scan, and nothing is joined yet. The root
is one of the scans. -/
structure Scanned (catalog : Catalog) (tables : List String) (s : BuildState) : Prop
    extends s.Frontier catalog tables where
  alone : ∀ {t r}, s.groups.LedBy t r → r = t
  scan : ∀ {r p}, s.tops.get? r = some p → ∃ schema, catalog.loadSchema r = .ok schema ∧
    p = .scan r schema
  joinCount : s.joinCount = 0
  root : ∀ {p}, s.root = some p → ∃ r, s.tops.get? r = some p

/-- The tables of a list are scanned. Unlike in `Scanned`, the links themselves are spoken of. -/
structure Scanning (catalog : Catalog) (tables : List String) (s : BuildState) : Prop where
  flat : ∀ t u, s.groups.next? t = some u → u = t
  nodup_tables : s.groups.tables.Nodup
  mem_tables_iff : ∀ t, t ∈ s.groups.tables ↔ t ∈ tables
  nodup_keys : s.tops.keys.Nodup
  mem_keys_iff : ∀ r, r ∈ s.tops.keys ↔ r ∈ tables
  scan : ∀ {r p}, s.tops.get? r = some p → ∃ schema, catalog.loadSchema r = .ok schema ∧
    p = .scan r schema
  joinCount : s.joinCount = 0
  root : ∀ {p}, s.root = some p → ∃ r, s.tops.get? r = some p

variable {catalog : Catalog} {tables : List String} {s u : BuildState} {table : String}
  {schema : Schema} {p : Plan}

theorem Scanning.scanned (hs : s.Scanning catalog tables) : s.Scanned catalog tables := by
  have ledBy_iff {t r} : s.groups.LedBy t r ↔ t ∈ s.groups.tables ∧ r = t :=
    Grouping.ledBy_iff_of_flat hs.flat
  refine ⟨⟨fun t ht => ⟨t, ledBy_iff.2 ⟨ht, rfl⟩⟩, hs.nodup_tables, hs.mem_tables_iff,
    hs.nodup_keys, fun r => ?_, ?_, ?_, ?_⟩, fun htr => (ledBy_iff.1 htr).2, hs.scan,
    hs.joinCount, hs.root⟩
  · rw [hs.mem_keys_iff, ledBy_iff, hs.mem_tables_iff, and_iff_left rfl]
  · intro r p hp
    obtain ⟨schema, hload, rfl⟩ := hs.scan hp
    exact hload
  · intro r p hp
    obtain ⟨schema, -, rfl⟩ := hs.scan hp
    simp
  · intro r p hp t
    have hr : r ∈ tables := (hs.mem_keys_iff r).1 (OrderedMap.mem_keys_iff.2 ⟨p, hp⟩)
    obtain ⟨schema, -, rfl⟩ := hs.scan hp
    rw [Plan.scannedTables_scan, List.mem_singleton, ledBy_iff, hs.mem_tables_iff]
    refine ⟨?_, fun h => h.2.symm⟩
    rintro rfl
    exact ⟨hr, rfl⟩

/-- One more table is scanned. -/
theorem Scanning.addScan (hs : s.Scanning catalog tables)
    (hload : catalog.loadSchema table = .ok schema) :
    Scanning catalog (tables ++ [table])
      { s with
        groups := s.groups.bind table table,
        tops := s.tops.insert table (.scan table schema),
        root := some (.scan table schema) } where
  flat t u htu := by
    rw [Grouping.next?_bind] at htu
    split at htu
    · simp_all
    · exact hs.flat t u htu
  nodup_tables := OrderedMap.nodup_keys_insert hs.nodup_tables _ _
  mem_tables_iff t := by
    have h := OrderedMap.mem_keys_insert (m := s.groups.links) (k := table) (j := t) (v := table)
    rw [List.mem_append, List.mem_singleton, ← hs.mem_tables_iff, or_comm]
    exact h
  nodup_keys := OrderedMap.nodup_keys_insert hs.nodup_keys _ _
  mem_keys_iff r := by
    rw [OrderedMap.mem_keys_insert, hs.mem_keys_iff, List.mem_append, List.mem_singleton, or_comm]
  scan {r p} hp := by
    rw [OrderedMap.get?_insert] at hp
    split at hp
    · simp_all
    · exact hs.scan hp
  joinCount := hs.joinCount
  root {p} hp := ⟨table, by rw [OrderedMap.get?_insert_self, ← hp]⟩

theorem Scanned.of_unchanged (hs : s.Scanned catalog tables) (hsu : s.Unchanged u) :
    u.Scanned catalog tables where
  toFrontier := hs.of_same hsu.toSameFrontier
  alone htr := hs.alone ((hsu.groups.ledBy_iff _ _).1 htr)
  scan hp := hs.scan (hsu.tops ▸ hp)
  joinCount := hsu.joinCount.trans hs.joinCount
  root hp := by
    rw [hsu.tops]
    exact hs.root (hsu.root ▸ hp)

/-- The operator over a table is its scan. -/
theorem Scanned.top_iff (hs : s.Scanned catalog tables) :
    s.Top table p ↔
      table ∈ tables ∧
        ∃ schema, catalog.loadSchema table = .ok schema ∧ p = .scan table schema := by
  constructor
  · rintro ⟨r, hr, hp⟩
    obtain rfl := hs.alone hr
    exact ⟨hs.mem_of_ledBy hr, hs.scan hp⟩
  · rintro ⟨ht, schema, hload, rfl⟩
    obtain ⟨p, r, hr, hp⟩ := hs.exists_top ht
    obtain rfl := hs.alone hr
    obtain ⟨schema', hload', rfl⟩ := hs.scan hp
    obtain rfl := Except.ok.inj (hload.symm.trans hload')
    exact ⟨r, hr, hp⟩

end BuildState

namespace BuildM

open Program BuildState

variable {catalog : Catalog} {s : BuildState}

theorem createScans_meets (tables : List String) {done : List String}
    (hs : s.Scanning catalog done) :
    (createScans catalog tables).Meets (fun _ => True) s fun _ u =>
      u.Scanning catalog (done ++ tables) := by
  induction tables generalizing done s with
  | nil => exact .pure (by simpa using hs)
  | cons table tables ih =>
    refine .bind (Q := fun schema t => catalog.loadSchema table = .ok schema ∧ t = s)
      (.ofExcept fun schema hload => ⟨hload, rfl⟩) ?_
    rintro schema _ ⟨hload, rfl⟩
    have h := hs.addScan hload
    rw [List.append_cons]
    refine .modify_bind trivial (.modify_bind trivial (.modify_bind trivial (ih ?_)))
    exact ⟨h.flat, h.nodup_tables, h.mem_tables_iff, h.nodup_keys, h.mem_keys_iff, h.scan,
      h.joinCount, h.root⟩

/-- When the scans are there, every table is in a group of its own under its scan. -/
theorem scanStage_returns {tables : List String} {t : BuildState}
    (hrun : (scanStage catalog tables).run s = (.ok ⟨⟩, t)) : t.Scanned catalog tables := by
  have hscan : (scanStage catalog tables).Meets (fun _ => True) s fun _ u =>
      u.Scanning catalog tables := by
    have hbegin : Scanning catalog [] { draws := s.draws, events := s.events } :=
      ⟨nofun, .nil, fun _ => .rfl, .nil, fun _ => .rfl, nofun, rfl, nofun⟩
    exact .modify_bind trivial (createScans_meets tables hbegin)
  exact (hscan.returns hrun).scanned

end BuildM

end QueryPlan
