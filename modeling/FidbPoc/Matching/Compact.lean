import FidbPoc.Lib.Dict
import FidbPoc.Lib.Python
import FidbPoc.Matching.Scoring
import Mathlib.Data.List.Sort
import Mathlib.Data.String.Basic

namespace FidbPoc.Matching

open FidbPoc.Lib FidbPoc.Lib.Checked

structure Relation where
  fullHash : String
  codeUnitSize : Int
  deriving DecidableEq

/-- One row of the query evidence. -/
structure QueryFunction extends FunctionIdentity where
  children : List Relation
  parents : List Relation
  deriving DecidableEq

/-- A row of the table `candidate`. -/
structure CandidateRow where
  routeId : String
  treatmentId : String
  fullHash : String
  candidateId : String
  sourceId : String
  recordKey : String
  owner : String
  name : String
  specificHash : String
  additionalSize : Int
  codeUnitSize : Int
  autoPass : Int
  autoFail : Int
  forceSpecific : Int
  forceRelation : Int
  deriving DecidableEq

/-- The primary key of `candidate`. -/
def CandidateRow.key (row : CandidateRow) : String × String × String :=
  (row.routeId, row.treatmentId, row.candidateId)

inductive RelationKind
  | superior | inferior
  deriving DecidableEq

structure RelationRow where
  sourceId : String
  kind : RelationKind
  smash : String
  deriving DecidableEq

/-- A compact candidate index: its tables `candidate` and `relation`. -/
structure CandidateIndex where
  candidates : List CandidateRow
  relations : List RelationRow
  candidates_key : (candidates.map CandidateRow.key).Nodup

/-- An index file with the digest of its bytes. -/
structure IndexFile where
  index : CandidateIndex
  sha256 : String

/-- The index files by their resolved paths. -/
abbrev IndexFiles := String → Option IndexFile

def openIndex (files : IndexFiles) (path : String) : Result IndexFile :=
  match files path with
  | some file => pure file
  | none => .error ⟨"OperationalError", "unable to open database file"⟩

def fnv64Prime : Int := 1099511628211

def intBase16 (text : String) : Result Int :=
  match Python.intBase16 text with
  | some value => pure value
  | none => .error (valueError s!"invalid literal for int() with base 16: '{text}'")

def relationSmash (recordKey relatedHash : String) : Result String := do
  let mixed := (← intBase16 recordKey) * fnv64Prime % 2 ^ 64
  pure (Python.format016x (Python.xor mixed.toNat (← intBase16 relatedHash)))

/-- `SELECT smash FROM relation` of one source and kind. -/
def CandidateIndex.smashes (index : CandidateIndex) (sourceId : String) (kind : RelationKind) : List String :=
  (index.relations.filter fun row => row.sourceId = sourceId ∧ row.kind = kind).map (·.smash)

def relatedUnits (recordKey : String) (related : List Relation) (smashes : List String) : Result Int :=
  related.foldlM (fun total relation => do
    let smash ← relationSmash recordKey relation.fullHash
    pure (if smash ∈ smashes then total + relation.codeUnitSize else total)) 0

def candidateOrder (a b : CandidateRow) : Prop := a.candidateId ≤ b.candidateId

instance (a b : CandidateRow) : Decidable (candidateOrder a b) := inferInstanceAs (Decidable (_ ≤ _))

/-- The candidates of one full hash, `ORDER BY candidate_id`. -/
def CandidateIndex.cursor (index : CandidateIndex) (routeId treatmentId fullHash : String) : List CandidateRow :=
  (index.candidates.filter fun row =>
    row.routeId = routeId ∧ row.treatmentId = treatmentId ∧ row.fullHash = fullHash).insertionSort candidateOrder

variable {κ : Type}

/-- The parents count only while there are fewer than the limit. -/
def parentUnits (semantics : Semantics κ) (index : CandidateIndex) (function : QueryFunction)
    (row : CandidateRow) : Result Int :=
  if (function.parents.length : Int) < semantics.maximumParentsForScore then
    relatedUnits row.recordKey function.parents (index.smashes row.sourceId .inferior)
  else pure 0

/-- The candidate of a row, with the code units of the related functions. -/
def rowCandidate (semantics : Semantics κ) (index : CandidateIndex) (function : QueryFunction)
    (row : CandidateRow) : Result Candidate := do
  let childCodeUnits ← relatedUnits row.recordKey function.children (index.smashes row.sourceId .superior)
  let parentCodeUnits ← parentUnits semantics index function row
  pure {
    candidateId := row.candidateId
    owner := row.owner
    name := row.name
    fullHash := row.fullHash
    specificHash := row.specificHash
    specificHashAdditionalSize := row.additionalSize
    codeUnitSize := row.codeUnitSize
    childCodeUnits := childCodeUnits
    parentCodeUnits := parentCodeUnits
    autoPass := row.autoPass ≠ 0
    autoFail := row.autoFail ≠ 0
    forceSpecific := row.forceSpecific ≠ 0
    forceRelation := row.forceRelation ≠ 0 }

inductive Device
  | cpu | gpu
  deriving DecidableEq

structure Backend where
  id : String
  device : Device
  deriving DecidableEq

/-- A loaded matching authority; its backends have one row an id. -/
structure Authority (κ : Type) where
  backend : List Backend
  semantics : Semantics κ

def Authority.device? (authority : Authority κ) (backendId : String) : Option Device :=
  (authority.backend.find? fun row => row.id = backendId).map (·.device)

/-- The two scorers: one row on the CPU, one batch on the GPU with the device it ran on. -/
structure Scorers (κ : Type) where
  cpu : RowScorer κ
  gpu : List ScoreInput → Result (List (Option κ) × Option String)

/-- The variables of a run that say where it is executed. -/
structure Execution where
  effectiveBackend : String
  fallbackReason : Option String
  device : Option String
  gpuBatches : Nat
  deriving DecidableEq

def Execution.initial (backendId : String) : Execution := ⟨backendId, none, none, 0⟩

/-- Score one packed batch, on the CPU once the GPU failed before its first batch. -/
def scoreBatch (scorers : Scorers κ) (authority : Authority κ) (fallbackToCpu : Bool) (run : Execution)
    (packed : List ScoreInput) : Result (List (Option κ) × Execution) :=
  if authority.device? run.effectiveBackend = some .gpu then
    match scorers.gpu packed with
    | .ok (scores, observedDevice) =>
      pure (scores, { run with device := observedDevice.or run.device, gpuBatches := run.gpuBatches + 1 })
    | .error error =>
      if !fallbackToCpu || run.gpuBatches ≠ 0 then .error error
      else
        match authority.backend.find? fun row => row.device = .cpu with
        | none => .error ⟨"StopIteration", ""⟩
        | some row => do
          let scores ← scoreRowsCpu scorers.cpu packed
          pure (scores,
            { run with effectiveBackend := row.id, fallbackReason := some s!"{error.kind}: {error.message}" })
  else do
    let scores ← scoreRowsCpu scorers.cpu packed
    pure (scores, run)

/-- `zip(left, right, strict=True)`. -/
def zipStrict {α β : Type} (left : List α) (right : List β) : Result (List (α × β)) := do
  require (left.length ≤ right.length) (valueError "zip() argument 2 is shorter than argument 1")
  require (right.length ≤ left.length) (valueError "zip() argument 2 is longer than argument 1")
  pure (left.zip right)

def requireBackend (authority : Authority κ) (chunkRows : Int) (backendId : String) : Result Unit := do
  require (1 ≤ chunkRows) (valueError "compact FID candidate chunk must be positive")
  require ((authority.device? backendId).isSome) (valueError "compact FID backend is not declared")

/-- The variables of `match_compact` while it streams the candidates. -/
structure CompactStream (κ : Type) where
  packed : List ScoreInput
  metadata : List (Nat × Candidate)
  winners : Dict Nat (κ × List (Match κ))
  candidateCount : Nat
  run : Execution

def CompactStream.initial (backendId : String) : CompactStream κ :=
  ⟨[], [], Dict.empty, 0, .initial backendId⟩

def candidateMatch (candidate : Candidate) (score : κ) : Match κ :=
  ⟨candidate.candidateId, candidate.owner, candidate.name, score⟩

def matchOrder {μ : Type} (id : μ → String) (a b : μ) : Prop := id a ≤ id b

instance {μ : Type} (id : μ → String) (a b : μ) : Decidable (matchOrder id a b) :=
  inferInstanceAs (Decidable (_ ≤ _))

section stream

variable [LinearOrder κ]

/-- The body of the loop of `flush`. -/
def awardCompact (winners : Dict Nat (κ × List (Match κ))) (scored : (Nat × Candidate) × Option κ) :
    Dict Nat (κ × List (Match κ)) :=
  let ((functionIndex, candidate), score) := scored
  match score with
  | none => winners
  | some score =>
    let found := candidateMatch candidate score
    match winners.get? functionIndex with
    | none => winners.set functionIndex (score, [found])
    | some current =>
      if current.1 < score then winners.set functionIndex (score, [found])
      else if score = current.1 then winners.set functionIndex (current.1, current.2 ++ [found])
      else winners

variable (scorers : Scorers κ) (authority : Authority κ) (fallbackToCpu : Bool)

def flushCompact (st : CompactStream κ) : Result (CompactStream κ) :=
  if st.packed = [] then pure st
  else do
    let (scores, run) ← scoreBatch scorers authority fallbackToCpu st.run st.packed
    let scored ← zipStrict st.metadata scores
    pure { st with packed := [], metadata := [], winners := scored.foldl awardCompact st.winners, run := run }

/-- The loop body of `match_compact` for one candidate row. -/
def streamCompact (index : CandidateIndex) (chunkRows : Int) (function : QueryFunction) (functionIndex : Nat)
    (st : CompactStream κ) (row : CandidateRow) : Result (CompactStream κ) := do
  let candidate ← rowCandidate authority.semantics index function row
  let input ← scoreInputs function.toFunctionIdentity candidate authority.semantics
  let st := { st with
    packed := st.packed ++ [input]
    metadata := st.metadata ++ [(functionIndex, candidate)]
    candidateCount := st.candidateCount + 1 }
  if chunkRows ≤ st.packed.length then flushCompact scorers authority fallbackToCpu st else pure st

structure CompactReport (κ : Type) where
  backend : String
  requestedBackend : String
  fallbackReason : Option String
  device : Option String
  functions : List (Decision (Match κ))
  candidateCount : Nat
  matchedFunctions : Nat
  candidateChunkRows : Int

def compactDecision (winners : Dict Nat (κ × List (Match κ))) (function : QueryFunction) (functionIndex : Nat) :
    Decision (Match κ) :=
  ⟨function.toFunctionIdentity,
    (((winners.get? functionIndex).map (·.2)).getD []).insertionSort (matchOrder Match.candidateId)⟩

def matchCompact (files : IndexFiles) (indexPath : String) (functions : List QueryFunction)
    (routeId treatmentId : String) (backendId : String) (chunkRows : Int) : Result (CompactReport κ) := do
  requireBackend authority chunkRows backendId
  let file ← openIndex files indexPath
  let st ← functions.zipIdx.foldlM (fun st (function, functionIndex) =>
    (file.index.cursor routeId treatmentId function.fullHash).foldlM
      (streamCompact scorers authority fallbackToCpu file.index chunkRows function functionIndex) st)
    (CompactStream.initial backendId)
  let st ← flushCompact scorers authority fallbackToCpu st
  let decisions := functions.zipIdx.map fun (function, index) => compactDecision st.winners function index
  pure {
    backend := st.run.effectiveBackend
    requestedBackend := backendId
    fallbackReason := st.run.fallbackReason
    device := st.run.device
    functions := decisions
    candidateCount := st.candidateCount
    matchedFunctions := matchedFunctions decisions
    candidateChunkRows := chunkRows }

end stream

end FidbPoc.Matching
