import FidbPoc.Planning.Authority

namespace FidbPoc.Planning

open FidbPoc.Lib FidbPoc.Lib.Checked FidbPoc.Lib.Patterns FidbPoc.Width
open FidbPoc.Coordinator (QueueRow RowState)

/-- A width-native matrix of a plan. -/
structure Matrix where
  id : String
  widthBatch : String
  recipes : List String
  routes : List String
  treatments : List String
  deriving DecidableEq

/-- A plan without factor variants, queued recipe by recipe. -/
structure Document where
  name : String
  maxCells : Nat
  recipeOrder : List String
  gates : List Gate
  matrices : List Matrix

def token (value context : String) : Result Unit :=
  require (value ≠ "" ∧ isStripped value = true) s!"{context} must be a non-empty string without outer whitespace"

def tokens (values : List String) (context : String) : Result Unit := do
  require (values ≠ []) s!"{context} must be a non-empty array"
  let _ ← values.mapM (token · context)
  require values.Nodup s!"{context} contains duplicates"

/-- The texts of a gate, and those of them that are digests. -/
def Gate.texts (gate : Gate) : List String :=
  [gate.batchId, gate.batchDigest, gate.authorityPath, gate.authoritySha256, gate.pipelineAuthorityPath,
    gate.pipelineAuthoritySha256, gate.inputDigest, gate.qualificationDigest, gate.evidencePath, gate.evidenceSha256]

def Gate.digests (gate : Gate) : List String :=
  [gate.batchDigest, gate.authoritySha256, gate.pipelineAuthoritySha256, gate.inputDigest, gate.qualificationDigest,
    gate.evidenceSha256]

def loadGate (gate : Gate) : Result Unit := do
  let _ ← gate.texts.mapM (token · "plan qualification gate")
  require (∀ digest ∈ gate.digests, isSha256 digest = true) "plan qualification gate must be a lowercase SHA-256"

def loadMatrix (seen : List String) (row : Matrix) : Result (List String) := do
  token row.id "matrix id"
  require (row.id ∉ seen) s!"duplicate matrix id: {row.id}"
  tokens row.recipes s!"matrix {row.id} recipes"
  tokens row.routes s!"matrix {row.id} routes"
  tokens row.treatments s!"matrix {row.id} treatments"
  token row.widthBatch s!"matrix {row.id} width_batch"
  pure (seen ++ [row.id])

def loadPlanRequest (document : Document) : Result Document := do
  token document.name "plan name"
  require (1 ≤ document.maxCells) "plan policy max_cells must be a positive integer"
  let _ ← document.recipeOrder.mapM (token · "plan queue recipe_order")
  require document.recipeOrder.Nodup "plan queue recipe_order contains duplicates"
  let _ ← document.gates.mapM loadGate
  require (document.gates.map Gate.batchId).Nodup "plan qualification gates contain duplicate batch ids"
  require (document.matrices ≠ []) "plan must contain at least one [[matrix]] table"
  let _ ← document.matrices.foldlM loadMatrix []
  let requested := document.matrices.flatMap Matrix.recipes
  require (document.recipeOrder = [] ∨
      (∀ recipe ∈ document.recipeOrder, recipe ∈ requested) ∧ ∀ recipe ∈ requested, recipe ∈ document.recipeOrder)
    "plan queue recipe_order must contain each requested recipe exactly once"
  pure { document with recipeOrder := if document.recipeOrder = [] then fromKeys requested else document.recipeOrder }

/-- A resolved cell: what of it the queue reads. -/
structure Cell where
  id : String
  matrix : String
  recipe : String
  blockers : List String
  workerPool : String
  deriving DecidableEq

def nativeCell (matrix : Matrix) (library : Library) (route : Route) (treatment : Treatment) : Cell where
  id := matrix.id ++ ":" ++ library.identifier ++ ":" ++ route.id ++ ":" ++ treatment.id
  matrix := matrix.id
  recipe := library.identity
  blockers :=
    (if library.appliesTo route.targetOs route.architecture route.compilerFamily route.id then []
      else ["library recipe does not support route"]) ++
    (if treatment.appliesTo route.id then [] else ["treatment does not support route"]) ++
    (if route.toolchainState = .unavailable then [route.toolchainBlocker] else [])
  workerPool := if route.targetOs = "macos" then "macos-native" else "library-local"

def nativeCellsFromConfiguration (matrix : Matrix) (libraries : List Library) (configuration : Configuration) : List Cell :=
  libraries.flatMap fun library =>
    configuration.routes.flatMap fun route => configuration.treatments.map (nativeCell matrix library route)

/-- The route and treatment pairs that a width executes. -/
def executablePairs (rows : List Applicability) : List (String × String) :=
  (rows.filter fun row => row.state = .executable).filterMap fun row => row.treatmentId.map (Prod.mk row.routeId)

/-- The path of a batch, as long as it stays inside the project. -/
def insidePath (text : String) : Result String := do
  require (isAbsolute text = false ∧ ".." ∉ parts text) "width-native matrix width_batch must stay inside project root"
  pure text

section Cells

variable (hash : StableBody → String) (files : PlanFiles) (host : Host)

def widthNativeCells (matrix : Matrix) (batch : WidthBatch) : Result (List Cell) := do
  let missing := matrix.recipes.filter fun recipe => decide (recipe ∉ batch.libraries.map recipeId)
  require (missing = [])
    ("width-native matrix selects recipes outside its batch: " ++ ", ".intercalate missing.mergeSort)
  let compilation ← compileCWidth host files.width (stem batch.bindings.widthName)
  let authority ← files.width.authority compilation.widthPath
  let plan ← files.width.routePlan authority.toolchainProfile
  let catalog ← files.width.catalog
  let worker ← files.width.worker (matrix.recipes.headD "")
  let configuration ← materializeWidthConfiguration host worker catalog plan
  let libraries ← resolveRequests files.recipes matrix.recipes
  let selected ← selectConfiguration configuration matrix.routes matrix.treatments
  let executable := executablePairs compilation.applicability
  require (∀ route ∈ selected.routes, ∀ treatment ∈ selected.treatments, (route.id, treatment.id) ∈ executable)
    "width-native matrix selects non-executable route/treatment pairs"
  require (batch.summary.executionsPerLibrary = executable.dedup.length)
    "width-native plans cannot yet express downstream artifact, analysis, or replay multipliers"
  pure (nativeCellsFromConfiguration matrix libraries selected)

/-- A matrix with its batch. -/
def loadMatrixBatch (matrix : Matrix) : Result (Matrix × WidthBatch) := do
  let path ← insidePath matrix.widthBatch
  let batch ← loadBatch hash files host path
  pure (matrix, batch)

/-- The batches of a plan by their ids. -/
def batchesById (loaded : List (Matrix × WidthBatch)) : List WidthBatch :=
  (Dict.ofList (loaded.map fun row => (row.2.head.id, row.2))).values

/-- Without factor variants, every cell is one row of the queue. -/
def queuePreview (cells : List Cell) : List QueueRow :=
  cells.mapIdx fun i cell =>
    ⟨i + 1, cell.id, [], if cell.blockers = [] then .planned else .blocked, cell.blockers, Nat.succ_pos i⟩

/-- What `resolve_plan` returns of a plan. -/
structure Plan where
  name : String
  matrices : List String
  cells : List Cell

def orderCells (recipeOrder : List String) (cells : List Cell) : List Cell :=
  cells.insertionSort fun a b => recipeOrder.idxOf a.recipe ≤ recipeOrder.idxOf b.recipe

def resolvePlan (document : Document) : Result Plan := do
  let request ← loadPlanRequest document
  let loaded ← request.matrices.mapM (loadMatrixBatch hash files host)
  validateEmbeddedGates files (batchesById loaded) request.gates
  files.catalogs
  let cells ← loaded.mapM fun row => widthNativeCells files host row.1 row.2
  require (∀ cell ∈ cells.flatten, cell.recipe ∈ request.recipeOrder) "KeyError"
  require (cells.flatten.length ≤ request.maxCells)
    s!"resolved plan has {cells.flatten.length} desired cells after factor expansion, exceeding max_cells={request.maxCells}"
  pure ⟨request.name, request.matrices.map Matrix.id, orderCells request.recipeOrder cells.flatten⟩

end Cells

theorem position_queuePreview (cells : List Cell) : (queuePreview cells).map QueueRow.position = List.range' 1 cells.length := by
  apply List.ext_getElem
  · simp [queuePreview]
  · intro i hi hi'
    simp [queuePreview, Nat.add_comm]

/-- A resolved plan as the coordinator reads it. -/
def Plan.resolved (plan : Plan) (planDigest document : String) (cellDocument : Cell → String) : Coordinator.ResolvedPlan where
  schemaVersion := Coordinator.resolvedSchema
  planDigest := planDigest
  name := plan.name
  matrices := plan.matrices
  cells := plan.cells.map fun cell =>
    ⟨cell.id, cell.matrix, if cell.blockers = [] then .planned else .blocked, some "native",
      some ⟨some "native-local", some cell.workerPool⟩, cellDocument cell⟩
  queuePreview := queuePreview plan.cells
  document := document
  positions_nodup := by
    have hpositions : (queuePreview plan.cells).map (fun row => row.position) = List.range' 1 plan.cells.length :=
      position_queuePreview plan.cells
    rw [hpositions]
    exact List.nodup_range'

end FidbPoc.Planning
