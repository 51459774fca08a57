import QueryPlan.Build.Frontier
import QueryPlan.Predicate.Condition

/-!
# Building a plan

A plan is built in stages, each of which is left out when its clause is empty: scans of all tables,
selections, joins, grouping, ordering, projection and duplicate elimination.

The conditions are first qualified and sorted into selections and joins. There is one join for every
pair of tables, in the order in which the pairs occur; a pair whose tables are joined already
becomes a chain of selections. The algorithm of a join is drawn at random. The root is the operator
over the last pair; tables that are not under it are reported.

## Main definitions

* `BuildM.build` : builds the plan of a query and leaves it as the root of the state.
-/

namespace QueryPlan.BuildM

open Program (fail ofExcept)

/-- Scans the tables one after the other. -/
def createScans (catalog : Catalog) : List String → BuildM Unit
  | [] => return
  | table :: tables => do
    let schema ← ofExcept (catalog.loadSchema table)
    record (.schemaLoaded table schema.width schema.tupleSize)
    let p := Plan.scan table schema
    addScan table p
    setRoot p
    createScans catalog tables

/-- Applies a selection over its table. -/
def createSelect (c : Condition) : BuildM Unit := do
  let table ← ownerOf c.lhs
  let top ← topOf table
  setTop table (.select top c)
  setRoot (.select top c)

/-- Applies selections one after the other. -/
def createSelects : List Condition → BuildM Unit
  | [] => return
  | c :: conditions => do
    createSelect c
    createSelects conditions

/-- The algorithm of the next code. -/
def drawAlgorithm : BuildM JoinAlgorithm := do
  let (code, draws) := (← get).draws.next
  modify fun s => { s with draws := draws }
  match JoinAlgorithm.ofCode? code with
  | some algorithm => return algorithm
  | none => fail (.invalidAlgorithm code)

/-- Joins the groups of two tables. -/
def createJoin (left right : String) (conditions : List Condition) : BuildM Unit := do
  let l ← topOf left
  let r ← topOf right
  let algorithm ← drawAlgorithm
  let place := (← get).joinCount
  merge left right (.join l r conditions algorithm.code place)
  modify fun s => { s with joinCount := s.joinCount + 1 }
  record (.joined place left right algorithm)

/-- Applies the conditions of two tables that are joined already. -/
def createChain (left right : String) (conditions : List Condition) : BuildM Unit := do
  let top ← topOf left
  setTop left (conditions.foldl Plan.select top)
  record (.appliedAsSelections left right conditions.length)

/-- Takes one edge into the plan. -/
def createEdge (left right : String) (conditions : List Condition) : BuildM Unit := do
  let l ← leaderOf left
  let r ← leaderOf right
  if l = r then createChain left right conditions
  else createJoin left right conditions

/-- Takes the edges of a graph into the plan; the result is the left table of the last one. -/
def createEdges (graph : JoinGraph) : List String → Option String → BuildM (Option String)
  | [], last => return last
  | edge :: edges, _ => do
    match Pair.split? edge with
    | none => fail (.noSeparator edge)
    | some (left, right) =>
      createEdge left right (graph.conditionsOf edge)
      createEdges graph edges (some left)

/-- Joins on the given conditions. -/
def createJoins (conditions : List Condition) : BuildM JoinGraph := do
  let graph ← ofExcept (JoinGraph.ofConditions conditions)
  match ← createEdges graph graph.edges none with
  | some table =>
    setRoot (← topOf table)
    return graph
  | none => return graph

/-- Names in the order of their code points, each once. -/
def sortedNames (names : List String) : List String :=
  (names.mergeSort fun a b => a ≤ b).eraseDups

/-- Reports the tables that are not under the root. -/
def checkConnected (tables : List String) (graph : JoinGraph) : BuildM Unit := do
  let scanned := ((← get).root.map Plan.scannedTables).getD []
  let missing := sortedNames (tables.filter (!scanned.contains ·))
  if !missing.isEmpty then
    record (.disconnected (graph.components tables).length missing)

/-- Puts an operator above the root. -/
def wrapRoot (wrap : Plan → Except Failure Plan) : BuildM Unit := do
  match (← get).root with
  | none => fail .noTables
  | some p =>
    let wrapped ← ofExcept (wrap p)
    setRoot wrapped

/-- Projects the root to the given columns. -/
def createProject (columns : List Attribute) : BuildM Unit :=
  wrapRoot fun p =>
    match p.projectTo columns with
    | .ok q => .ok q
    | .error a => .error (.attributeNotFound a)

/-- Sorts the root for the given task. -/
def createSorting (settings : Settings) (task : SortTask) : BuildM Unit :=
  wrapRoot fun p => .ok (.sorting p task settings.numBuffers)

/-- Takes a clause into the plan if it is not empty. -/
def stage (columns : List Attribute) (create : List Attribute → BuildM Unit) : BuildM Unit :=
  if columns.isEmpty then return else create columns

/-- Joins on conditions, if there are any, and reports the tables that are left out. -/
def joinStage (tables : List String) (conditions : List Condition) : BuildM Unit :=
  if conditions.isEmpty then return
  else do
    let graph ← createJoins conditions
    checkConnected tables graph

/-- Forgets what was built before. The source of codes goes on. -/
def reset : BuildM Unit :=
  modify fun s => { draws := s.draws, events := s.events }

/-- Scans the tables of a query in a construction that is begun anew. -/
def scanStage (catalog : Catalog) (tables : List String) : BuildM Unit := do
  reset
  createScans catalog tables

/-- Applies the conditions of a query whose tables are scanned. -/
def conditionStage (q : Query) : BuildM Unit := do
  let conditions ← qualifyAll (q.joins ++ q.selections)
  createSelects (Condition.classify conditions).1
  joinStage q.tables (Condition.classify conditions).2

/-- Groups, orders and projects the root, and removes its duplicates, as far as a query asks
for it. -/
def wrapStage (settings : Settings) (q : Query) : BuildM Unit := do
  stage q.groupBy fun columns => createSorting settings (.groupBy columns)
  stage q.orderBy fun columns => createSorting settings (.orderBy columns q.ascending)
  stage q.projection createProject
  if q.distinct then
    createSorting settings
      (.distinct (if q.projection.isEmpty then none else some q.projection))

/-- The root of the plan. -/
def theRoot : BuildM Plan := do
  match (← get).root with
  | some p => return p
  | none => fail .noTables

/-- Plans a query whose tables are scanned. -/
def planScanned (settings : Settings) (q : Query) : BuildM Plan := do
  record (.scansCreated q.tables.length)
  conditionStage q
  wrapStage settings q
  theRoot

/-- Builds the plan of a query. -/
def build (catalog : Catalog) (settings : Settings) (q : Query) : BuildM Plan :=
  if q.tables.isEmpty then fail .noTables
  else do
    scanStage catalog q.tables
    planScanned settings q

end QueryPlan.BuildM
