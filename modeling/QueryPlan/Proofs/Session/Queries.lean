import Mathlib
import QueryPlan.Proofs.Program
import QueryPlan.Session

/-!
# Queries do not influence each other

A session keeps the construction and the estimator of its last query, in whatever state a failure
left them. A construction begins by forgetting all of its state but the source of codes, and a pass
of an estimator begins with a state of its own. So what becomes of a query is decided by the
catalog, the settings and the source of codes: after any queries it is what becomes of it in a new
session whose source is in the same state.

## Main definitions

* `Session.SameSource` : sessions that agree on all that is read of them.
* `SessionM.Agrees` : a step has the same result in two sessions, and they agree afterwards.
* `Submission`, `Session.after` : queries, and the session after some of them.

## Main results

* `SessionM.agrees_process` : sessions that agree process a query alike.
* `Session.outcome_after` : a query after others, and in a new session.
-/

namespace QueryPlan

namespace BuildM

open Program

/-- A construction reads nothing of a state but the source of codes and the events recorded. Without
tables it fails and leaves the state as it is. -/
theorem run_build_congr {s s' : BuildState} (hdraws : s'.draws = s.draws)
    (hevents : s'.events = s.events) (catalog : Catalog) (settings : Settings) (q : Query) :
    (build catalog settings q).run s' = (build catalog settings q).run s ∨
      (build catalog settings q).run s' = (.error .noTables, s') ∧
        (build catalog settings q).run s = (.error .noTables, s) := by
  by_cases hq : q.tables.isEmpty = true
  · rw [build, if_pos hq]
    exact .inr ⟨rfl, rfl⟩
  · have hreset : reset.run s' = reset.run s := by
      rw [reset, run_modify, run_modify, hdraws, hevents]
    rw [build, if_neg hq, run_bind, run_bind, scanStage, run_bind, run_bind, hreset]
    exact .inl rfl

end BuildM

/-- Two sessions agree on the catalog, the settings, the source of codes and the events recorded. -/
structure Session.SameSource (s s' : Session) : Prop where
  catalog : s'.catalog = s.catalog
  settings : s'.settings = s.settings
  draws : s'.construction.draws = s.construction.draws
  events : s'.events = s.events

namespace SessionM

variable {α β : Type}

theorem run_bind (m : SessionM α) (f : α → SessionM β) (s : Session) :
    (m >>= f).run.run s =
      match m.run.run s with
      | (.ok a, t) => (f a).run.run t
      | (.error e, t) => (.error e, t) := by
  rw [ExceptT.run_bind, StateT.run_bind]
  rcases m.run.run s with ⟨_ | a, t⟩ <;> rfl

@[simp] theorem run_get (s : Session) : (get : SessionM Session).run.run s = (.ok s, s) := rfl

theorem run_build (q : Query) (s : Session) :
    (build q).run.run s =
      let built := (BuildM.build s.catalog s.settings q).run { s.construction with events := [] }
      (built.1, { s with
        construction := { built.2 with events := [] }
        events := s.events ++ built.2.events }) := by
  rw [build, run_bind, run_get]
  dsimp only
  rcases (BuildM.build s.catalog s.settings q).run { s.construction with events := [] } with
    ⟨_ | p, c⟩ <;> rfl

theorem run_estimate (p : Plan) (s : Session) :
    (estimate p).run.run s =
      let estimated := s.estimator.run s.catalog s.settings p
      (estimated.1, { s with
        estimator := estimated.2.1
        events := s.events ++ estimated.2.2 }) := by
  rw [estimate, run_bind, run_get]
  dsimp only
  rcases s.estimator.run s.catalog s.settings p with ⟨_ | e, c⟩ <;> rfl

/-- A step has the same result in two sessions, and they agree afterwards. -/
structure Agrees (m : SessionM α) (s s' : Session) : Prop where
  result : (m.run.run s').1 = (m.run.run s).1
  after : (m.run.run s).2.SameSource (m.run.run s').2

variable {s s' t t' : Session}

theorem Agrees.bind {m : SessionM α} {f : α → SessionM β} (hm : Agrees m s s')
    (hf : ∀ a t t', m.run.run s = (.ok a, t) → m.run.run s' = (.ok a, t') → t.SameSource t' →
      Agrees (f a) t t') : Agrees (m >>= f) s s' := by
  obtain ⟨houtcome, hafter⟩ := hm
  rcases h : m.run.run s with ⟨outcome, t⟩
  rcases h' : m.run.run s' with ⟨outcome', t'⟩
  rw [h, h'] at houtcome hafter
  obtain rfl : outcome' = outcome := houtcome
  cases outcome' with
  | error e =>
    constructor
    · rw [run_bind, run_bind, h, h']
    · rw [run_bind, run_bind, h, h']
      exact hafter
  | ok a =>
    have hrest := hf a t t' h h' hafter
    constructor
    · rw [run_bind, run_bind, h, h']
      exact hrest.result
    · rw [run_bind, run_bind, h, h']
      exact hrest.after

theorem agrees_read [Sql.Reader] (h : s.SameSource s') (dialect text : String) :
    Agrees (read dialect text) s s' := by
  unfold read
  split <;> exact ⟨rfl, h⟩

theorem agrees_record (h : s.SameSource s') (events : List Event) :
    Agrees (record events) s s' :=
  ⟨rfl, h.catalog, h.settings, h.draws, congrArg (· ++ events) h.events⟩

/-- The constructions that two sessions begin are the same one, or both are refused for want of
tables. -/
theorem build_construction (h : s.SameSource s') (q : Query) :
    (BuildM.build s.catalog s.settings q).run { s'.construction with events := [] } =
        (BuildM.build s.catalog s.settings q).run { s.construction with events := [] } ∨
      (BuildM.build s.catalog s.settings q).run { s'.construction with events := [] } =
          (.error .noTables, { s'.construction with events := [] }) ∧
        (BuildM.build s.catalog s.settings q).run { s.construction with events := [] } =
          (.error .noTables, { s.construction with events := [] }) := by
  refine BuildM.run_build_congr ?_ ?_ s.catalog s.settings q
  · exact h.draws
  · rfl

theorem agrees_build (h : s.SameSource s') (q : Query) : Agrees (build q) s s' := by
  obtain heq | ⟨hfail', hfail⟩ := build_construction h q
  · constructor
    · rw [run_build, run_build, h.catalog, h.settings, heq]
    · rw [run_build, run_build, h.catalog, h.settings, heq]
      exact ⟨rfl, rfl, rfl, congrArg (· ++ _) h.events⟩
  · constructor
    · rw [run_build, run_build, h.catalog, h.settings, hfail, hfail']
    · rw [run_build, run_build, h.catalog, h.settings, hfail, hfail']
      exact ⟨rfl, rfl, h.draws, congrArg (· ++ _) h.events⟩

/-- The construction of a plan that is returned is the same in both sessions. -/
theorem construction_of_build (h : s.SameSource s') {q : Query} {p : Plan}
    (hrun : (build q).run.run s = (.ok p, t)) (hrun' : (build q).run.run s' = (.ok p, t')) :
    t'.construction = t.construction := by
  rw [run_build] at hrun hrun'
  rw [h.catalog, h.settings] at hrun'
  obtain heq | ⟨hfail', -⟩ := build_construction h q
  · rw [heq] at hrun'
    obtain rfl := congrArg Prod.snd hrun
    obtain rfl := congrArg Prod.snd hrun'
    rfl
  · rw [hfail'] at hrun'
    cases congrArg Prod.fst hrun'

theorem agrees_estimate (h : s.SameSource s') (p : Plan) : Agrees (estimate p) s s' := by
  have hevents : (s'.estimator.run s.catalog s.settings p).2.2 =
      (s.estimator.run s.catalog s.settings p).2.2 := by
    unfold Estimator.run
    rcases p.pass s.catalog s.settings with ⟨_ | tuples, u⟩ <;> rfl
  constructor
  · rw [run_estimate, run_estimate, h.catalog, h.settings]
    exact (Estimator.run_fst _ _ _ _).trans (Estimator.run_fst _ _ _ _).symm
  · rw [run_estimate, run_estimate, h.catalog, h.settings]
    exact ⟨rfl, rfl, h.draws, congrArg₂ (· ++ ·) h.events hevents⟩

theorem construction_of_estimate {p : Plan} {e : Estimate}
    (hrun : (estimate p).run.run s = (.ok e, t)) : t.construction = s.construction := by
  rw [run_estimate] at hrun
  obtain rfl := congrArg Prod.snd hrun
  rfl

/-- Sessions that agree process a query alike, whatever they hold from queries before. -/
theorem agrees_process [Sql.Reader] (h : s.SameSource s') (id : Int) (dialect text : String) :
    Agrees (process id dialect text) s s' := by
  refine (agrees_read h dialect text).bind fun q t t' _ _ ht => ?_
  refine (agrees_record ht [.queryRead id q.describe]).bind fun _ u u' _ _ hu => ?_
  refine (agrees_build hu q).bind fun p v v' hrun hrun' hv => ?_
  have hconstruction := construction_of_build hu hrun hrun'
  refine (agrees_estimate hv p).bind fun e w w' hrun hrun' hw => ?_
  have hjoins : w'.construction.joinCount = w.construction.joinCount := by
    rw [construction_of_estimate hrun, construction_of_estimate hrun', hconstruction]
  constructor
  · rw [run_bind, run_bind, run_get, run_get]
    dsimp only
    rw [hjoins]
    rfl
  · exact hw

/-- A step changes neither the catalog nor the settings. -/
def Keeps (m : SessionM α) : Prop :=
  ∀ s, (m.run.run s).2.catalog = s.catalog ∧ (m.run.run s).2.settings = s.settings

theorem Keeps.bind {m : SessionM α} {f : α → SessionM β} (hm : Keeps m) (hf : ∀ a, Keeps (f a)) :
    Keeps (m >>= f) := by
  intro s
  have hs := hm s
  rw [run_bind]
  rcases hrun : m.run.run s with ⟨_ | a, t⟩
  · rw [hrun] at hs
    exact hs
  · rw [hrun] at hs
    obtain ⟨hcatalog, hsettings⟩ := hf a t
    exact ⟨hcatalog.trans hs.1, hsettings.trans hs.2⟩

theorem keeps_process [Sql.Reader] (id : Int) (dialect text : String) :
    Keeps (process id dialect text) := by
  have hread : Keeps (read dialect text) := by
    intro s
    unfold read
    split <;> exact ⟨rfl, rfl⟩
  have hbuild (q : Query) : Keeps (build q) := fun s => by
    rw [run_build]
    exact ⟨rfl, rfl⟩
  have hestimate (p : Plan) : Keeps (estimate p) := fun s => by
    rw [run_estimate]
    exact ⟨rfl, rfl⟩
  refine hread.bind fun q => Keeps.bind (fun s => ⟨rfl, rfl⟩) fun _ => ?_
  exact (hbuild q).bind fun p => (hestimate p).bind fun e => fun s => ⟨rfl, rfl⟩

end SessionM

/-- A query as it is submitted: its number, its dialect and its text. -/
structure Submission where
  id : Int
  dialect : String
  text : String

/-- Reads, builds and estimates the query that is submitted. -/
def Submission.process [Sql.Reader] (r : Submission) : SessionM Row :=
  SessionM.process r.id r.dialect r.text

namespace Session

/-- The session after some submissions, each of which may have failed anywhere. -/
def after [Sql.Reader] (s : Session) (history : List Submission) : Session :=
  history.foldl (fun s r => (s.run r.process).2.1) s

variable {s s' : Session}

/-- Submissions change neither the catalog nor the settings. -/
theorem keeps_after [Sql.Reader] (s : Session) (history : List Submission) :
    (s.after history).catalog = s.catalog ∧ (s.after history).settings = s.settings := by
  induction history generalizing s with
  | nil => exact ⟨rfl, rfl⟩
  | cons r history ih =>
    have hr := SessionM.keeps_process r.id r.dialect r.text { s with events := [] }
    obtain ⟨hcatalog, hsettings⟩ := ih (s.run r.process).2.1
    exact ⟨hcatalog.trans hr.1, hsettings.trans hr.2⟩

/-- Whatever submissions a session has served, however they are read and wherever they failed, the
next one has the outcome that it has in a new session over the same catalog and settings with the
source of codes in the same state: the same row or failure, the same events, and the source in the
same state afterwards. -/
theorem outcome_after [Sql.Reader] (catalog : Catalog) (settings : Settings) (draws : Draws)
    (history : List Submission) (r : Submission) :
    let used := (start catalog settings draws).after history
    let fresh := start catalog settings used.construction.draws
    (used.run r.process).1 = (fresh.run r.process).1 ∧
      (used.run r.process).2.2 = (fresh.run r.process).2.2 ∧
      (used.run r.process).2.1.construction.draws =
        (fresh.run r.process).2.1.construction.draws := by
  intro used fresh
  obtain ⟨hcatalog, hsettings⟩ := keeps_after (start catalog settings draws) history
  have hsame : SameSource { fresh with events := [] } { used with events := [] } :=
    ⟨hcatalog, hsettings, rfl, rfl⟩
  have hagrees := SessionM.agrees_process hsame r.id r.dialect r.text
  exact ⟨hagrees.result, hagrees.after.events, hagrees.after.draws⟩

end Session

end QueryPlan
