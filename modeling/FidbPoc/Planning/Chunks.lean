import FidbPoc.Planning.Resolution

namespace FidbPoc.Planning

open FidbPoc.Lib FidbPoc.Lib.Checked FidbPoc.Lib.Patterns FidbPoc.Lib.Python FidbPoc.Width
open FidbPoc.Coordinator (QueueRow RowState BatchConfig)

/-- The arithmetic of durations, with the bounds of a chunk. -/
structure Durations (H : Type) where
  zero : H
  add : H → H → H
  divide : H → Nat → H
  /-- a duration is more than a chunk may have -/
  exceeds : H → Bool
  /-- a duration is as much as a chunk is to have -/
  reaches : H → Bool

/-- A library of a time plan. -/
structure Item (H : Type) where
  rank : Nat
  sourceId : String
  version : String
  batchAuthority : String
  executions : Nat
  estimatedHours : H

structure TimePlan (H : Type) where
  id : String
  blocks : List (List (Item H))
  executions : Nat

/-- One library, one route and every treatment of the route. -/
structure Bundle (H : Type) where
  recipeId : String
  batchAuthority : String
  routeId : String
  treatmentIds : List String
  executions : Nat
  estimatedHours : H

section Bundles

variable {H : Type} (durations : Durations H) (hash : StableBody → String) (files : PlanFiles) (host : Host)

/-- The routes that a reviewed recipe is for, of those that a batch executes. -/
def applicableRouteIds (batch : WidthBatch) (source : Source) : List String :=
  fromKeys (((batch.executionPairs.filterMap id).filter fun pair =>
    match lookupLast Library.identity files.recipes (recipeId source) with
    | none => true
    | some library => library.appliesTo pair.targetOs pair.architecture pair.compilerFamily pair.routeId).map
      ExecutionPair.routeId)

/-- The routes and treatments of a batch whose pairs are all of them. -/
def orderedWidthAxes (batch : WidthBatch) : Result (List String × List String) := do
  let width ← compileCWidth host files.width (stem batch.bindings.widthName)
  let selected := selectedPairs width.applicability
  require (∀ row ∈ selected, row.state = .executable) "materialization requires every selected route to be locally qualified"
  let pairs := executablePairs width.applicability
  let routeIds := (width.routes.map RouteSummary.id).filter fun route => pairs.any fun pair => pair.1 = route
  let worker ← files.width.worker ((batch.libraries.map recipeId).headD "")
  let treatmentIds := (worker.treatments.map Treatment.id).filter fun treatment => pairs.any fun pair => pair.2 = treatment
  require (routeIds ≠ [] ∧ treatmentIds ≠ [] ∧ ∀ route ∈ routeIds, ∀ treatment ∈ treatmentIds, (route, treatment) ∈ pairs)
    "current fidb-plan/v1 native matrices require rectangular route/treatment applicability"
  require (batch.summary.executionsPerLibrary = pairs.dedup.length)
    "current fidb-plan/v1 cannot express downstream artifact, analysis, or replay multipliers"
  pure (routeIds, treatmentIds)

def itemBundles (item : Item H) : Result (List (Bundle H)) := do
  let batch ← loadBatch hash files host item.batchAuthority
  let axes ← orderedWidthAxes files host batch
  match batch.libraries.filter fun source => source.id = item.sourceId ∧ source.version = item.version with
  | [source] => do
    let routes := axes.1.filter fun route => decide (route ∈ applicableRouteIds files batch source)
    require (item.executions = routes.length * axes.2.length) s!"{item.sourceId} cannot be split into native route bundles"
    require (routes ≠ []) "ZeroDivisionError"
    pure (routes.map fun route =>
      ⟨recipeId source, item.batchAuthority, route, axes.2, axes.2.length, durations.divide item.estimatedHours routes.length⟩)
  | _ => .error s!"time model source {item.sourceId}@{item.version} no longer matches {item.batchAuthority}"

/-- The items by rank, and by source within a rank. -/
def orderItems (items : List (Item H)) : List (Item H) :=
  items.insertionSort fun a b => a.rank < b.rank ∨ a.rank = b.rank ∧ a.sourceId ≤ b.sourceId

def routeBundles (timePlan : TimePlan H) : Result (List (Bundle H)) := do
  let bundles ← (orderItems timePlan.blocks.flatten).mapM (itemBundles durations hash files host)
  pure bundles.flatten

/-- The chunks that are packed, the bundles of the one that is open, and its duration. -/
structure Packing (H : Type) where
  chunks : List (List (Bundle H))
  current : List (Bundle H)
  total : H

def Packing.close (packing : Packing H) : Packing H := ⟨packing.chunks ++ [packing.current], [], durations.zero⟩

def packBundle (packing : Packing H) (bundle : Bundle H) : Result (Packing H) := do
  require (durations.exceeds bundle.estimatedHours = false)
    s!"indivisible route bundle {bundle.recipeId}/{bundle.routeId} exceeds the maximum chunk duration"
  let packing :=
    if packing.current ≠ [] ∧ durations.exceeds (durations.add packing.total bundle.estimatedHours) = true then
      packing.close durations
    else packing
  let packing : Packing H :=
    { packing with current := packing.current ++ [bundle], total := durations.add packing.total bundle.estimatedHours }
  pure (if durations.reaches packing.total then packing.close durations else packing)

def packRouteBundles (bundles : List (Bundle H)) : Result (List (List (Bundle H))) := do
  let packing ← bundles.foldlM (packBundle durations) ⟨[], [], durations.zero⟩
  pure (if packing.current ≠ [] then packing.chunks ++ [packing.current] else packing.chunks)

end Bundles

/-- The bundles of a chunk that make one matrix. -/
structure Group where
  batchAuthority : String
  recipeId : String
  treatmentIds : List String
  routeIds : List String

def addToGroup {H : Type} (grouped : Dict (String × String × List String) Group) (bundle : Bundle H) :
    Dict (String × String × List String) Group :=
  let key := (bundle.batchAuthority, bundle.recipeId, bundle.treatmentIds)
  match grouped.get? key with
  | none => grouped.set key ⟨bundle.batchAuthority, bundle.recipeId, bundle.treatmentIds, [bundle.routeId]⟩
  | some group => grouped.set key { group with routeIds := group.routeIds ++ [bundle.routeId] }

def matrixGroups {H : Type} (bundles : List (Bundle H)) : List Group := (bundles.foldl addToGroup Dict.empty).values

structure Chunk where
  id : String
  executions : Nat
  groups : List Group

def format02d (value : Nat) : String := String.ofList (zeroFill 2 (Nat.toDigits 10 value))

def Chunk.matrixId (chunk : Chunk) (index : Nat) : String := chunk.id ++ "-width-" ++ format02d index

def Chunk.matrices (chunk : Chunk) : List Matrix :=
  chunk.groups.mapIdx fun i group =>
    ⟨chunk.matrixId (i + 1), group.batchAuthority, [group.recipeId], group.routeIds, group.treatmentIds⟩

def Chunk.recipeOrder (chunk : Chunk) : List String := fromKeys (chunk.groups.map Group.recipeId)

/-- The plan of a chunk. -/
def renderPlan (chunk : Chunk) (gates : List Gate) : Document :=
  ⟨chunk.id, chunk.executions, chunk.recipeOrder, gates, chunk.matrices⟩

def campaignRecipeOrder (chunks : List Chunk) : List String :=
  fromKeys (chunks.flatMap fun chunk => chunk.groups.map Group.recipeId)

/-- Every matrix of every chunk in one plan. -/
def renderValidationPlan (campaignId : String) (chunks : List Chunk) (gates : List Gate) : Document :=
  ⟨campaignId ++ "-validation", (chunks.map Chunk.executions).sum, campaignRecipeOrder chunks, gates,
    chunks.flatMap Chunk.matrices⟩

/-- The rows of a plan, none of them blocked. -/
def queueIdentity (plan : Plan) : Result (List QueueRow) := do
  require (∀ row ∈ queuePreview plan.cells, row.state = .planned) "materialized cell is blocked"
  pure (queuePreview plan.cells)

def renumber (rows : List QueueRow) : List QueueRow :=
  rows.mapIdx fun i row => { row with position := i + 1, position_pos := Nat.succ_pos i }

/-- The rows of a chunk, by the names of its matrices. -/
def Chunk.selectRows (chunk : Chunk) (rows : List QueueRow) : List QueueRow :=
  rows.filter fun row => (List.range chunk.groups.length).any fun i =>
    (chunk.matrixId (i + 1) ++ ":").toList.isPrefixOf row.baseCell.toList

section Compile

variable {H : Type} (durations : Durations H) (hash : StableBody → String) (sha256 : String → String) (files : PlanFiles)
  (host : Host)

/-- The rows that the queue digest of a chunk is taken of, and the base cells that are claimed so far. -/
def claimRows (rows : List QueueRow) (claimed : List String) (chunk : Chunk) : Result (List String) := do
  let identity := renumber (chunk.selectRows rows)
  require (identity.length = chunk.executions)
    s!"{chunk.id} resolved {identity.length} cells; expected {chunk.executions}"
  let baseCells := (identity.map QueueRow.baseCell).dedup
  require (∀ baseCell ∈ baseCells, baseCell ∉ claimed) "auto chunk authority resolution produced duplicate cells"
  pure (claimed ++ baseCells)

/-- A chunk with its plan and the digest of its queue. -/
structure CompiledChunk where
  chunk : Chunk
  plan : Document
  queueDigest : String

/-- The chunk as a batch of the rendered queue. -/
def CompiledChunk.batchConfig (compiled : CompiledChunk) (name planPath : String) : BatchConfig :=
  ⟨compiled.chunk.id, name, planPath, none, some compiled.queueDigest, some compiled.chunk.executions⟩

def makeChunk (campaignId : String) (i : Nat) (bundles : List (Bundle H)) : Chunk :=
  ⟨campaignId ++ "-chunk-" ++ format03d (i + 1), (bundles.map Bundle.executions).sum, matrixGroups bundles⟩

/-- The gates of the authorities of a chunk. -/
def chunkGates (batches : List (String × WidthBatch)) (gates : List Gate) (chunk : Chunk) : List Gate :=
  (fromKeys (chunk.groups.map Group.batchAuthority)).filterMap fun authority =>
    (batches.find? fun row => row.1 = authority).bind fun row => lookupLast Gate.batchId gates row.2.head.id

/-- What a campaign is compiled of before any queue is resolved. -/
structure Campaign where
  chunks : List Chunk
  batches : List (String × WidthBatch)
  gates : List Gate

def campaignId (timePlan : TimePlan H) (targetMinutes maxMinutes : Nat) : String :=
  s!"{timePlan.id}-auto-{targetMinutes}m-{maxMinutes}m"

def packCampaign (timePlan : TimePlan H) (targetMinutes maxMinutes : Nat) : Result Campaign := do
  require (1 ≤ targetMinutes ∧ targetMinutes ≤ maxMinutes) "target/max minutes must be positive and target <= maximum"
  let bundles ← routeBundles durations hash files host timePlan
  let batches ← (fromKeys (bundles.map Bundle.batchAuthority)).mapM fun authority => do
    let batch ← loadBatch hash files host authority
    pure (authority, batch)
  let gates ← requireQualificationGates files true (batches.map Prod.snd)
  let packed ← packRouteBundles durations bundles
  pure ⟨packed.mapIdx (makeChunk (campaignId timePlan targetMinutes maxMinutes)), batches, gates⟩

/-- The chunks of a campaign, and the queue that they were selected from. -/
structure Compiled where
  chunks : List CompiledChunk
  rows : List QueueRow

def compileAutoBatches (timePlan : TimePlan H) (targetMinutes maxMinutes : Nat) : Result Compiled := do
  let campaign ← packCampaign durations hash files host timePlan targetMinutes maxMinutes
  let resolved ← resolvePlan hash files host
    (renderValidationPlan (campaignId timePlan targetMinutes maxMinutes) campaign.chunks campaign.gates)
  let rows ← queueIdentity resolved
  let claimed ← campaign.chunks.foldlM (claimRows rows) []
  require ((campaign.chunks.map Chunk.executions).sum = timePlan.executions) "auto chunks do not cover the time plan"
  require (claimed.length = rows.length) "auto chunks did not partition the aggregate resolved queue"
  pure
    ⟨campaign.chunks.map fun chunk =>
      ⟨chunk, renderPlan chunk (chunkGates campaign.batches campaign.gates chunk),
        Coordinator.queueIdentityDigest sha256 (renumber (chunk.selectRows rows))⟩, rows⟩

end Compile

end FidbPoc.Planning
