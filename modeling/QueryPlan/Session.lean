import QueryPlan.Build.Stages
import QueryPlan.Estimate.Pass
import QueryPlan.Relation.Schema
import QueryPlan.Sql.Resolution

/-!
# Sessions

A session builds and estimates plans one after the other over one catalog. Its source of random
codes goes on from plan to plan; the plan that was built last stays at hand until the next one is
begun, also when building fails halfway. How queries are read is up to a `Sql.Reader`.

## Main definitions

* `Session`, `SessionM` : sessions, and steps that change them and may fail.
* `SessionM.build`, `SessionM.estimate`, `SessionM.setAlgorithm` : the single steps.
* `SessionM.process` : reads, builds and estimates a query, and reports it as a `Row`.
-/

namespace QueryPlan

/-- A catalog with its settings, the state of the last construction, the estimator, and the events
recorded. -/
structure Session where
  catalog : Catalog
  settings : Settings
  construction : BuildState
  estimator : Estimator := {}
  events : List Event := []
  deriving Inhabited

/-- A step of a session. -/
abbrev SessionM := ExceptT Failure (StateM Session)

/-- What is reported of a query: its number, its joins, the cost and the number of tuples of its
plan, and the plan. -/
structure Row where
  id : Int
  joins : Nat
  cost : Int
  cardinality : Int
  plan : Plan
  deriving Repr, Inhabited

namespace Session

/-- A session before its first plan. -/
def start (catalog : Catalog) (settings : Settings) (draws : Draws) : Session :=
  { catalog := catalog, settings := settings, construction := { draws := draws } }

/-- The name that a plan goes by as an operator while there is none. -/
def missingPlanName : String := "NoneType"

/-- The plan that was built last; without one, an operator that is not known. -/
def plan (s : Session) : Plan := s.construction.root.getD (.foreignLeaf missingPlanName ⟨[], 0⟩)

/-- Runs a step: its result or failure, the session after it, and the events that it records. -/
def run {α : Type} (s : Session) (step : SessionM α) : Except Failure α × Session × List Event :=
  let (result, after) := step.run.run { s with events := [] }
  (result, { after with events := [] }, after.events)

end Session

namespace SessionM

/-- Records events. -/
def record (events : List Event) : SessionM Unit :=
  modify fun s => { s with events := s.events ++ events }

/-- Builds the plan of a query. -/
def build (q : Query) : SessionM Plan := do
  let s ← get
  let (result, construction) := (BuildM.build s.catalog s.settings q).run
    { s.construction with events := [] }
  set { s with construction := { construction with events := [] } }
  record construction.events
  result

/-- Estimates a plan. -/
def estimate (p : Plan) : SessionM Estimate := do
  let s ← get
  let (result, estimator, events) := s.estimator.run s.catalog s.settings p
  set { s with estimator := estimator }
  record events
  result

/-- Reads a query. -/
def read [Sql.Reader] (dialect text : String) : SessionM Query :=
  match Query.ofText dialect text with
  | .ok q => return q
  | .error f => throw (.query f)

/-- Reads, builds and estimates a query. -/
def process [Sql.Reader] (id : Int) (dialect text : String) : SessionM Row := do
  let q ← read dialect text
  record [.queryRead id q.describe]
  let p ← build q
  let e ← estimate p
  return ⟨id, (← get).construction.joinCount, e.cost, e.cardinality, p⟩

/-- Gives the join at a place of the last plan another algorithm. The result is the join
afterwards. -/
def setAlgorithm (place code : Int) : SessionM Plan := do
  let s ← get
  match s.construction.root with
  | none => throw (.operatorWithoutBase Session.missingPlanName)
  | some p =>
    match position? p.joins.length place with
    | none => throw .placeOutOfRange
    | some rank =>
      let p := p.setAlgorithm rank code
      set { s with construction := { s.construction with root := some p } }
      match p.joins[rank]? with
      | some join => return join
      | none => throw .placeOutOfRange

end SessionM

end QueryPlan
