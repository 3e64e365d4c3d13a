import FidbPoc.Corpus.Evidence
import Mathlib.Data.List.MinMax

namespace FidbPoc.Corpus

open FidbPoc.Lib FidbPoc.Lib.Checked FidbPoc.Lib.Sums

def databaseSchema : String := "fidb-corpus-hash-index/v1"
def applicationId : Nat := 0x46494849
def userVersion : Nat := 1

/-- What an update reads of the loaded authority. -/
structure Authority where
  id : String
  authoritySha256 : String
  deriving DecidableEq

/-- A row of `corpus_batch`. -/
structure CorpusBatch where
  ordinal : Nat
  validationId : String
  runId : String
  sourceEvidenceSha256 : String
  sourceDatabaseSha256 : String
  methodId : String
  methodSha256 : String
  ingestedAt : String
  owners : Int
  signatures : Int
  queryObservations : Int
  deriving DecidableEq

/-- A row of `signature_batch`. -/
structure SignatureBatch where
  queryObservations : Int
  truePositives : Int
  internalFalsePositives : Int
  falseNegatives : Int
  unattributedObservations : Int
  deriving DecidableEq

/-- A row of `signature_owner`. -/
structure IndexedOwner where
  firstBatchId : Nat
  observations : SignatureOwner
  deriving DecidableEq

/-- A row of `signature_state`. -/
structure SignatureState where
  distinctOwners : Int
  referenceObservations : Int
  queryObservations : Int
  truePositives : Int
  cumulativeFalsePositives : Int
  falseNegatives : Int
  unattributedObservations : Int
  lastBatchId : Nat
  deriving DecidableEq

/-- The cumulative columns of a generation. -/
structure Totals where
  owners : Int
  signatures : Int
  queryObservations : Int
  truePositives : Int
  falsePositives : Int
  trueNegatives : Int
  falseNegatives : Int
  deriving DecidableEq

/-- A row of `corpus_generation`. -/
structure Generation where
  batchId : Nat
  generationDigest : String
  previousDigest : Option String
  authoritySha256 : String
  sourceEvidenceSha256 : String
  createdAt : String
  totals : Totals
  deriving DecidableEq

/-- What the digest of a generation is taken over. -/
structure GenerationPayload where
  ordinal : Nat
  previousDigest : Option String
  authoritySha256 : String
  sourceEvidenceSha256 : String
  totals : Totals
  deriving DecidableEq

/-- The index database. Each table is keyed by its primary key; the ids of `signature`
are found by the columns that it declares unique. -/
structure Index where
  applicationId : Nat
  userVersion : Nat
  metadata : Dict String String
  corpusBatch : Dict Nat CorpusBatch
  corpusOwner : Dict String Nat
  signature : Dict Signature Nat
  signatureBatch : Dict (Nat × Nat) SignatureBatch
  signatureOwner : Dict (Nat × String) IndexedOwner
  signatureState : Dict Nat SignatureState
  corpusGeneration : Dict Nat Generation

/-- `_create_database`. -/
def createDatabase (authority : Authority) : Index where
  applicationId := applicationId
  userVersion := userVersion
  metadata := Dict.ofList
    [("schema_version", databaseSchema), ("authority_id", authority.id),
      ("authority_sha256", authority.authoritySha256)]
  corpusBatch := Dict.empty
  corpusOwner := Dict.empty
  signature := Dict.empty
  signatureBatch := Dict.empty
  signatureOwner := Dict.empty
  signatureState := Dict.empty
  corpusGeneration := Dict.empty

/-- `_validate_database`. -/
def validateDatabase (authority : Authority) (index : Index) : Result Unit := do
  require (index.applicationId = applicationId) (valueError "not an FIDB corpus hash index")
  require (index.userVersion = userVersion)
    (valueError "unsupported corpus hash index version; rebuild instead of migrating")
  require
    (index.metadata.entries.length = 3 ∧ index.metadata.get? "schema_version" = some databaseSchema ∧
      index.metadata.get? "authority_id" = some authority.id ∧
      index.metadata.get? "authority_sha256" = some authority.authoritySha256)
    (valueError "corpus hash index authority changed; publish a new index generation")

/-- The generation with the highest ordinal. -/
def Index.latest (index : Index) : Option (Nat × Generation) := index.corpusGeneration.entries.argmax Prod.fst

def Totals.zero : Totals := ⟨0, 0, 0, 0, 0, 0, 0⟩

/-- The totals of the latest generation, zero where there is none. -/
def Index.totals (index : Index) : Totals := (index.latest.map fun g => g.2.totals).getD .zero

/-- The next `INTEGER PRIMARY KEY`, and the next ordinal: one above the highest. -/
def nextId (ids : List Nat) : Nat := ids.foldr max 0 + 1

section delta

/-- `INSERT OR IGNORE INTO signature .. SELECT .. FROM evidence.hash_summary`. -/
def insertSignatures (e : Evidence) (signature : Dict Signature Nat) : Dict Signature Nat :=
  Dict.fill (fun d => nextId d.values) e.hashSummary.keys signature

/-- The temporary table `delta_query_by_signature`. -/
def deltaQueryBySignature (signature : Dict Signature Nat) (e : Evidence) : Dict Nat Int :=
  Dict.groupBy id (fun rows => (rows.length : Int)) (e.observedUnits.filterMap fun u => signature.get? u.1)

def addOwners (rows : List ((Nat × String) × SignatureOwner)) : SignatureOwner where
  referenceObservations := total (fun row => row.2.referenceObservations) rows
  recoveredObservations := total (fun row => row.2.recoveredObservations) rows
  missedObservations := total (fun row => row.2.missedObservations) rows

/-- The temporary table `delta_owner_by_signature`. -/
def deltaOwnerBySignature (signature : Dict Signature Nat) (e : Evidence) : Dict (Nat × String) SignatureOwner :=
  Dict.groupBy Prod.fst addOwners
    (e.hashSignatureOwner.entries.filterMap fun row =>
      (signature.get? row.1.1).map fun signatureId => ((signatureId, row.1.2), row.2))

/-- The rows that `INSERT INTO signature_batch` selects. -/
def signatureBatchRows (batchId : Nat) (signature : Dict Signature Nat) (e : Evidence) :
    List ((Nat × Nat) × SignatureBatch) :=
  e.hashSummary.entries.filterMap fun row =>
    (signature.get? row.1).map fun signatureId =>
      ((batchId, signatureId),
        { queryObservations := ((deltaQueryBySignature signature e).get? signatureId).getD 0
          truePositives := row.2.truePositives
          internalFalsePositives := row.2.falsePositives
          falseNegatives := row.2.falseNegatives
          unattributedObservations := row.2.unattributedObservations })

/-- A row of the temporary table `delta_rollup`. -/
structure Rollup where
  signatureId : Nat
  counts : SignatureBatch
  newOwners : Int
  referenceCount : Int
  deriving DecidableEq

/-- `DELTA_ROLLUP_SELECT_SQL`. -/
def deltaRollup (batchId : Nat) (signatureBatch : Dict (Nat × Nat) SignatureBatch)
    (deltaOwner : Dict (Nat × String) SignatureOwner) : List Rollup :=
  (signatureBatch.entries.filter fun batch => batch.1.1 = batchId).map fun batch =>
    let owners := deltaOwner.entries.filter fun owner => owner.1.1 = batch.1.2
    { signatureId := batch.1.2
      counts := batch.2
      newOwners := owners.length
      referenceCount := total (fun owner => owner.2.referenceObservations) owners }

/-- `INSERT OR IGNORE INTO signature_state`. -/
def initialStates (batchId : Nat) (rollup : List Rollup) (states : Dict Nat SignatureState) :
    Dict Nat SignatureState :=
  Dict.fill (fun _ => ⟨0, 0, 0, 0, 0, 0, 0, batchId⟩) (rollup.map (·.signatureId)) states

/-- New queries against known owners, known queries against new owners. -/
def crossFalsePositives (delta : Rollup) (state : SignatureState) : Int :=
  delta.counts.queryObservations * state.distinctOwners + state.queryObservations * delta.newOwners

/-- The sum of `cross_fp_delta` over `delta_rollup` joined with `signature_state`. -/
def crossFpDelta (rollup : List Rollup) (states : Dict Nat SignatureState) : Int :=
  total (fun delta => (states.get? delta.signatureId).elim 0 (crossFalsePositives delta)) rollup

/-- The assignments of the `UPDATE signature_state`. -/
def advance (batchId : Nat) (delta : Rollup) (state : SignatureState) : SignatureState where
  distinctOwners := state.distinctOwners + delta.newOwners
  referenceObservations := state.referenceObservations + delta.referenceCount
  queryObservations := state.queryObservations + delta.counts.queryObservations
  truePositives := state.truePositives + delta.counts.truePositives
  cumulativeFalsePositives :=
    state.cumulativeFalsePositives + delta.counts.internalFalsePositives + crossFalsePositives delta state
  falseNegatives := state.falseNegatives + delta.counts.falseNegatives
  unattributedObservations := state.unattributedObservations + delta.counts.unattributedObservations
  lastBatchId := batchId

def advanceStates (batchId : Nat) (rollup : List Rollup) (states : Dict Nat SignatureState) : Dict Nat SignatureState :=
  states.updateFrom (·.signatureId) (advance batchId) rollup

/-- The totals of the next generation. -/
def cumulate (old : Totals) (e : Evidence) (signatures newQueries crossFp : Int) : Totals where
  owners := old.owners + e.owners.length
  signatures := signatures
  queryObservations := old.queryObservations + newQueries
  truePositives := old.truePositives + total (·.truePositives) e.unitResult.values
  falsePositives := old.falsePositives + total (·.falsePositives) e.unitResult.values + crossFp
  trueNegatives :=
    old.trueNegatives + total (·.trueNegatives) e.unitResult.values +
      (newQueries * old.owners + old.queryObservations * e.owners.length) - crossFp
  falseNegatives := old.falseNegatives + total (·.falseNegatives) e.unitResult.values

end delta

/-- `PRAGMA foreign_key_check` finds nothing. -/
def foreignKeysHold (index : Index) : Prop :=
  (∀ b ∈ index.corpusOwner.values, b ∈ index.corpusBatch.keys) ∧
    (∀ k ∈ index.signatureBatch.keys, k.1 ∈ index.corpusBatch.keys ∧ k.2 ∈ index.signature.values) ∧
    (∀ row ∈ index.signatureOwner.entries,
      row.1.1 ∈ index.signature.values ∧ row.1.2 ∈ index.corpusOwner.keys ∧ row.2.firstBatchId ∈ index.corpusBatch.keys) ∧
    (∀ row ∈ index.signatureState.entries,
      row.1 ∈ index.signature.values ∧ row.2.lastBatchId ∈ index.corpusBatch.keys) ∧
    ∀ g ∈ index.corpusGeneration.values, g.batchId ∈ index.corpusBatch.keys

instance (index : Index) : Decidable (foreignKeysHold index) := by
  unfold foreignKeysHold
  infer_instance

/-- The arguments of a call, with the clock it reads. -/
structure Call where
  authority : Authority
  validationId : String
  runId : String
  ingestedAt : String
  createdAt : String
  deriving DecidableEq

/-- The evidence file of a call: its digest and what sqlite reads of it. -/
structure EvidenceFile where
  sha256 : String
  database : Evidence

/-- The returned document. -/
structure Report where
  ordinal : Nat
  generation : Generation
  state : String
  sourceDatabaseSha256 : String
  deriving DecidableEq

/-- `_generation_document`. -/
def generationDocument (index : Index) (ordinal : Nat) : Result Generation :=
  match index.corpusGeneration.get? ordinal with
  | none => .error (valueError "corpus generation was not published")
  | some generation => .ok generation

/-- The method of the first batch is that of the new one. -/
def acceptsMethod (index : Index) (source : SourceMetadata) : Prop :=
  ∀ batch ∈ index.corpusBatch.values.argmin (·.ordinal),
    batch.methodId = source.methodId ∧ batch.methodSha256 = source.methodSha256

instance (index : Index) (source : SourceMetadata) : Decidable (acceptsMethod index source) := by
  unfold acceptsMethod
  infer_instance

def repeatedOwner (index : Index) (e : Evidence) : Option String := e.owners.find? (fun o => o ∈ index.corpusOwner.keys)

section update

variable (sha256 : GenerationPayload → String)

/-- The row of `corpus_generation` that a transaction writes. -/
def newGeneration (call : Call) (source : SourceMetadata) (previousDigest : Option String) (ordinal batchId : Nat)
    (cumulative : Totals) : Generation where
  batchId := batchId
  generationDigest :=
    sha256 ⟨ordinal, previousDigest, call.authority.authoritySha256, source.sourceDigest, cumulative⟩
  previousDigest := previousDigest
  authoritySha256 := call.authority.authoritySha256
  sourceEvidenceSha256 := source.sourceDigest
  createdAt := call.createdAt
  totals := cumulative

/-- The transaction, from the check of the method to the last check before the commit:
the ordinal of the new generation and the database to commit. -/
def applyDelta (call : Call) (file : EvidenceFile) (source : SourceMetadata) (index : Index) :
    Result (Nat × Index) := do
  let e := file.database
  require (acceptsMethod index source) (valueError "corpus method authority changed; publish a new index sidecar")
  require (e.owners ≠ []) (valueError "source evidence contains no reference owners")
  require (repeatedOwner index e = none)
    (valueError ("corpus batch repeats existing owner: " ++ (repeatedOwner index e).getD ""))
  let ordinal := nextId (index.corpusBatch.values.map (·.ordinal))
  let batchId := nextId index.corpusBatch.keys
  require (call.runId ∉ index.corpusBatch.values.map (·.runId))
    (integrityError "UNIQUE constraint failed: corpus_batch.run_id")
  let corpusOwner ← Dict.insertRows (integrityError "UNIQUE constraint failed: corpus_owner.owner") index.corpusOwner
    (e.owners.map fun owner => (owner, batchId))
  let signature := insertSignatures e index.signature
  let deltaOwner := deltaOwnerBySignature signature e
  let signatureBatch ← Dict.insertRows
    (integrityError "UNIQUE constraint failed: signature_batch.batch_id, signature_batch.signature_id")
    index.signatureBatch (signatureBatchRows batchId signature e)
  let rollup := deltaRollup batchId signatureBatch deltaOwner
  let states := initialStates batchId rollup index.signatureState
  let crossFp := crossFpDelta rollup states
  let signatureState := advanceStates batchId rollup states
  let signatureOwner ← Dict.insertRows
    (integrityError "UNIQUE constraint failed: signature_owner.signature_id, signature_owner.owner")
    index.signatureOwner (deltaOwner.entries.map fun row => (row.1, ⟨batchId, row.2⟩))
  let recorded := signatureBatch.entries.filter fun row => row.1.1 = batchId
  let newQueries := total (fun row => row.2.queryObservations) recorded
  let cumulative := cumulate index.totals e signature.entries.length newQueries crossFp
  let batch : CorpusBatch :=
    { ordinal, validationId := call.validationId, runId := call.runId
      sourceEvidenceSha256 := source.sourceDigest, sourceDatabaseSha256 := file.sha256
      methodId := source.methodId, methodSha256 := source.methodSha256, ingestedAt := call.ingestedAt
      owners := e.owners.length, signatures := recorded.length, queryObservations := newQueries }
  let previousDigest := index.latest.map fun g => g.2.generationDigest
  let generation := newGeneration sha256 call source previousDigest ordinal batchId cumulative
  require (batchId ∉ index.corpusGeneration.values.map (·.batchId))
    (integrityError "UNIQUE constraint failed: corpus_generation.batch_id")
  require (generation.generationDigest ∉ index.corpusGeneration.values.map (·.generationDigest))
    (integrityError "UNIQUE constraint failed: corpus_generation.generation_digest")
  let corpusGeneration ← Dict.insertRow (integrityError "UNIQUE constraint failed: corpus_generation.ordinal")
    index.corpusGeneration (ordinal, generation)
  let next : Index :=
    { index with
      corpusBatch := index.corpusBatch.set batchId batch
      corpusOwner, signature, signatureBatch, signatureOwner, signatureState, corpusGeneration }
  require (foreignKeysHold next) (valueError "corpus hash index failed foreign-key verification")
  require (total (·.cumulativeFalsePositives) signatureState.values = cumulative.falsePositives)
    (valueError "corpus hash index cumulative FP cache is inconsistent")
  require (0 ≤ cumulative.trueNegatives) (valueError "corpus hash index produced a negative TN population")
  pure (ordinal, next)

/-- How a session on a database comes to its end without an exception. -/
inductive Session
  | repeated (ordinal : Nat) (sourceDatabaseSha256 : String)
  | committed (ordinal : Nat) (index : Index)

/-- A session on an open database, up to the commit. -/
def ingest (call : Call) (file : EvidenceFile) (index : Index) : Result Session := do
  let source ← sourceMetadata file.database
  match index.corpusBatch.values.find? fun batch => batch.sourceEvidenceSha256 = source.sourceDigest with
  | some batch =>
    require (batch.runId = call.runId) (valueError "source evidence digest is already assigned to another run")
    pure (.repeated batch.ordinal batch.sourceDatabaseSha256)
  | none =>
    let applied ← applyDelta sha256 call file source index
    pure (.committed applied.1 applied.2)

/-- What the destination path holds. -/
inductive Published
  | absent
  | irregular
  | foreign
  | database (index : Index)

/-- The document returned for a generation of a database. -/
def report (index : Index) (ordinal : Nat) (state sourceDatabaseSha256 : String) : Result Report := do
  let generation ← generationDocument index ordinal
  pure ⟨ordinal, generation, state, sourceDatabaseSha256⟩

/-- A whole session: the database it leaves, whether it is complete, and what is returned. -/
def runSession (call : Call) (file : EvidenceFile) (index : Index) : Index × Bool × Result Report :=
  match ingest sha256 call file index with
  | .error e => (index, false, .error e)
  | .ok (.repeated ordinal sourceDatabaseSha256) =>
    (index, false, report index ordinal "already-ingested" sourceDatabaseSha256)
  | .ok (.committed ordinal next) =>
    match report next ordinal "ingested" file.sha256 with
    | .error e => (next, false, .error e)
    | .ok document => (next, true, .ok document)

/-- `update_corpus_hash_index`. An evidence path that is no regular file is `none`. A fresh
database is built aside and renamed into place when it is complete. -/
def updateCorpusHashIndex (call : Call) (evidence : Option EvidenceFile) (published : Published) :
    Published × Result Report :=
  match evidence with
  | none => (published, .error (valueError "machine-validation hash evidence is unavailable"))
  | some file =>
    match published with
    | .irregular => (published, .error (valueError "corpus hash index must be a regular file"))
    | .foreign => (published, .error ⟨"sqlite3.DatabaseError", "file is not a database"⟩)
    | .absent =>
      let session := runSession sha256 call file (createDatabase call.authority)
      (if session.2.1 then .database session.1 else .absent, session.2.2)
    | .database index =>
      match validateDatabase call.authority index with
      | .error e => (published, .error e)
      | .ok () =>
        let session := runSession sha256 call file index
        (.database session.1, session.2.2)

end update

end FidbPoc.Corpus
