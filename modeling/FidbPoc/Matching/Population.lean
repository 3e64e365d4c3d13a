import FidbPoc.Matching.Compact

namespace FidbPoc.Matching

open FidbPoc.Lib FidbPoc.Lib.Checked

def alphaEngine1 : String := "alpha_engine_1"
def alphaEngine2 : String := "alpha_engine_2"
def legacyEngineId : String := "compact-selected-backend-v1"

/-- A match of a population; only the second engine says which components supplied it. -/
structure PopulationMatch (κ : Type) extends Match κ where
  referenceComponents : Option (List Nat)
  deriving DecidableEq

structure ComponentIndex where
  path : String
  sha256 : String
  candidateCount : Nat
  deriving DecidableEq

structure PopulationReport (κ : Type) where
  engine : String
  backend : String
  requestedBackend : String
  fallbackReason : Option String
  device : Option String
  functions : List (Decision (PopulationMatch κ))
  candidateCount : Nat
  scoredCandidateCount : Nat
  deduplicatedCandidateCount : Nat
  matchedFunctions : Nat
  candidateChunkRows : Int
  componentIndexes : List ComponentIndex

variable {κ : Type} [LinearOrder κ]

section engine1

/-- The inner loop body of the merge: the first of the best matches of an id stays. -/
def mergeMatch (candidates : Dict String (Match κ)) (found : Match κ) : Dict String (Match κ) :=
  match candidates.get? found.candidateId with
  | none => candidates.set found.candidateId found
  | some previous => if previous.score < found.score then candidates.set found.candidateId found else candidates

def mergeComponent (function : QueryFunction) (candidates : Dict String (Match κ))
    (component : Dict String (Decision (Match κ))) : Result (Dict String (Match κ)) :=
  match component.get? function.address with
  | none => .error (valueError "compact FID population component addresses differ")
  | some row => do
    require (row.fullHash = function.fullHash ∧ row.specificHash = function.specificHash)
      (valueError "compact FID population component query identity differs")
    pure (row.found.foldl mergeMatch candidates)

/-- The matches with the maximal score, sorted by candidate id. -/
def bestMatches (candidates : List (Match κ)) : List (Match κ) :=
  match (candidates.map (·.score)).max? with
  | none => []
  | some maximum => (candidates.filter fun row => row.score = maximum).insertionSort (matchOrder Match.candidateId)

def mergeFunction (byComponent : List (Dict String (Decision (Match κ)))) (function : QueryFunction) :
    Result (Decision (PopulationMatch κ)) := do
  let candidates ← byComponent.foldlM (mergeComponent function) Dict.empty
  pure ⟨function.toFunctionIdentity, (bestMatches candidates.values).map fun found => ⟨found, none⟩⟩

/-- `"; ".join(sorted(reasons)) or None`. -/
def joinReasons (reasons : List String) : Option String :=
  if reasons = [] then none else some ("; ".intercalate (reasons.dedup.insertionSort (· ≤ ·)))

def componentIndex (files : IndexFiles) (entry : String × CompactReport κ) : Result ComponentIndex := do
  let file ← openIndex files entry.1
  pure ⟨entry.1, file.sha256, entry.2.candidateCount⟩

/-- `_match_compact_population_alpha_engine_1`. -/
def populationAlphaEngine1 (scorers : Scorers κ) (authority : Authority κ) (fallbackToCpu : Bool)
    (files : IndexFiles) (indexPaths : List String) (functions : List QueryFunction)
    (routeId treatmentId : String) (backendId : String) (chunkRows : Int) : Result (PopulationReport κ) := do
  let components ← indexPaths.mapM fun path =>
    matchCompact scorers authority fallbackToCpu files path functions routeId treatmentId backendId chunkRows
  let effective := (components.map (·.backend)).dedup
  let requested := (components.map (·.requestedBackend)).dedup
  require (effective.length = 1 ∧ requested = [backendId])
    (valueError "compact FID population components used different backends")
  let byComponent : List (Dict String (Decision (Match κ))) := components.map fun execution =>
    Dict.ofList (execution.functions.map fun row => (row.address, row))
  require (∀ rows ∈ byComponent, rows.entries.length = functions.length)
    (valueError "compact FID population component lost query functions")
  let decisions ← functions.mapM (mergeFunction byComponent)
  let componentIndexes ← (indexPaths.zip components).mapM (componentIndex files)
  pure {
    engine := alphaEngine1
    backend := effective.headD ""
    requestedBackend := backendId
    fallbackReason := joinReasons (components.filterMap (·.fallbackReason))
    device := components.findSome? (·.device)
    functions := decisions
    candidateCount := (components.map (·.candidateCount)).sum
    scoredCandidateCount := (components.map (·.candidateCount)).sum
    deduplicatedCandidateCount := 0
    matchedFunctions := matchedFunctions decisions
    candidateChunkRows := chunkRows
    componentIndexes := componentIndexes }

end engine1

section engine2

/-- A candidate of the shared stream with the components which supplied it. -/
structure StreamCandidate where
  candidate : Candidate
  referenceComponents : List Nat
  deriving DecidableEq

/-- The key under which equal score inputs are interned inside a chunk. -/
structure PackedKey where
  functionIndex : Nat
  candidateId : String
  owner : String
  name : String
  input : ScoreInput
  deriving DecidableEq

structure PopulationStream (κ : Type) where
  packed : List ScoreInput
  metadata : List (Nat × StreamCandidate)
  packedKeys : Dict PackedKey Nat
  winners : Dict Nat (κ × Dict String (PopulationMatch κ))
  componentCounts : List Nat
  rawCandidateCount : Nat
  scoredCandidateCount : Nat
  run : Execution

def PopulationStream.initial (components : Nat) (backendId : String) : PopulationStream κ :=
  ⟨[], [], Dict.empty, Dict.empty, List.replicate components 0, 0, 0, .initial backendId⟩

/-- `sorted(left | right)` of two sets of component numbers. -/
def sortedUnion (left right : List Nat) : List Nat := (left ∪ right).dedup.insertionSort (· ≤ ·)

/-- The body of the loop of `flush`. -/
def awardPopulation (winners : Dict Nat (κ × Dict String (PopulationMatch κ)))
    (scored : (Nat × StreamCandidate) × Option κ) : Dict Nat (κ × Dict String (PopulationMatch κ)) :=
  let ((functionIndex, candidate), score) := scored
  match score with
  | none => winners
  | some score =>
    let candidateId := candidate.candidate.candidateId
    let found : PopulationMatch κ :=
      ⟨candidateMatch candidate.candidate score, some (sortedUnion candidate.referenceComponents [])⟩
    match winners.get? functionIndex with
    | none => winners.set functionIndex (score, Dict.empty.set candidateId found)
    | some current =>
      if current.1 < score then winners.set functionIndex (score, Dict.empty.set candidateId found)
      else if score = current.1 then
        match current.2.get? candidateId with
        | none => winners.set functionIndex (current.1, current.2.set candidateId found)
        | some previous =>
          let components := sortedUnion (previous.referenceComponents.getD []) (found.referenceComponents.getD [])
          winners.set functionIndex
            (current.1, current.2.set candidateId { previous with referenceComponents := some components })
      else winners

variable (scorers : Scorers κ) (authority : Authority κ) (fallbackToCpu : Bool)

def flushPopulation (st : PopulationStream κ) : Result (PopulationStream κ) :=
  if st.packed = [] then pure st
  else do
    let (scores, run) ← scoreBatch scorers authority fallbackToCpu st.run st.packed
    let scored ← zipStrict st.metadata scores
    pure { st with
      packed := [], metadata := [], packedKeys := Dict.empty
      winners := scored.foldl awardPopulation st.winners, run := run }

/-- `metadata[position][1]["reference_components"].add(component)`. -/
def addComponent (componentIndex : Nat) (entry : Nat × StreamCandidate) : Nat × StreamCandidate :=
  (entry.1, { entry.2 with referenceComponents := entry.2.referenceComponents.insert componentIndex })

/-- The loop body of the second engine for one candidate row. -/
def streamPopulation (index : CandidateIndex) (chunkRows : Int) (function : QueryFunction)
    (functionIndex componentIndex : Nat) (st : PopulationStream κ) (row : CandidateRow) :
    Result (PopulationStream κ) := do
  let candidate ← rowCandidate authority.semantics index function row
  let input ← scoreInputs function.toFunctionIdentity candidate authority.semantics
  let st := { st with
    rawCandidateCount := st.rawCandidateCount + 1
    componentCounts := st.componentCounts.modify componentIndex (· + 1) }
  let identity : PackedKey := ⟨functionIndex, candidate.candidateId, candidate.owner, candidate.name, input⟩
  match st.packedKeys.get? identity with
  | some duplicate => pure { st with metadata := st.metadata.modify duplicate (addComponent componentIndex) }
  | none =>
    let st := { st with
      packedKeys := st.packedKeys.set identity st.packed.length
      packed := st.packed ++ [input]
      metadata := st.metadata ++ [(functionIndex, ⟨candidate, [componentIndex]⟩)]
      scoredCandidateCount := st.scoredCandidateCount + 1 }
    if chunkRows ≤ st.packed.length then flushPopulation scorers authority fallbackToCpu st else pure st

def populationDecision (winners : Dict Nat (κ × Dict String (PopulationMatch κ))) (function : QueryFunction)
    (functionIndex : Nat) : Decision (PopulationMatch κ) :=
  ⟨function.toFunctionIdentity,
    (((winners.get? functionIndex).map (·.2)).getD Dict.empty).values.insertionSort
      (matchOrder fun found => found.candidateId)⟩

/-- `_match_compact_population_alpha_engine_2`. -/
def populationAlphaEngine2 (files : IndexFiles) (indexPaths : List String) (functions : List QueryFunction)
    (routeId treatmentId : String) (backendId : String) (chunkRows : Int) : Result (PopulationReport κ) := do
  require (indexPaths ≠ []) (valueError "compact FID population requires at least one index")
  require indexPaths.Nodup (valueError "compact FID population contains a duplicate index")
  requireBackend authority chunkRows backendId
  let connections ← indexPaths.mapM (openIndex files)
  let st ← functions.zipIdx.foldlM (fun st (function, functionIndex) =>
    connections.zipIdx.foldlM (fun st (file, componentIndex) =>
      (file.index.cursor routeId treatmentId function.fullHash).foldlM
        (streamPopulation scorers authority fallbackToCpu file.index chunkRows function functionIndex
          componentIndex) st) st)
    (PopulationStream.initial indexPaths.length backendId)
  let st ← flushPopulation scorers authority fallbackToCpu st
  let decisions := functions.zipIdx.map fun (function, index) => populationDecision st.winners function index
  let componentIndexes := (indexPaths.zip (connections.zip st.componentCounts)).map
    fun (path, file, count) => (⟨path, file.sha256, count⟩ : ComponentIndex)
  pure {
    engine := alphaEngine2
    backend := st.run.effectiveBackend
    requestedBackend := backendId
    fallbackReason := st.run.fallbackReason
    device := st.run.device
    functions := decisions
    candidateCount := st.rawCandidateCount
    scoredCandidateCount := st.scoredCandidateCount
    deduplicatedCandidateCount := st.rawCandidateCount - st.scoredCandidateCount
    matchedFunctions := matchedFunctions decisions
    candidateChunkRows := chunkRows
    componentIndexes := componentIndexes }

end engine2

def matchCompactPopulation (scorers : Scorers κ) (authority : Authority κ) (fallbackToCpu : Bool)
    (files : IndexFiles) (indexPaths : List String) (functions : List QueryFunction)
    (routeId treatmentId : String) (backendId engineId : String) (chunkRows : Int) :
    Result (PopulationReport κ) := do
  require (indexPaths ≠ []) (valueError "compact FID population requires at least one index")
  require indexPaths.Nodup (valueError "compact FID population contains a duplicate index")
  let normalized := if engineId = legacyEngineId then alphaEngine1 else engineId
  if normalized = alphaEngine1 then
    populationAlphaEngine1 scorers authority fallbackToCpu files indexPaths functions routeId treatmentId
      backendId chunkRows
  else if normalized = alphaEngine2 then
    populationAlphaEngine2 scorers authority fallbackToCpu files indexPaths functions routeId treatmentId
      backendId chunkRows
  else .error (valueError s!"compact FID population engine is unsupported: {engineId}")

end FidbPoc.Matching
