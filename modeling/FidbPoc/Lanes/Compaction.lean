import FidbPoc.Lanes.Database

namespace FidbPoc.Lanes

open FidbPoc.Lib FidbPoc.Lib.Checked FidbPoc.Lib.Patterns

structure Relationship where
  source : Nat
  target : Nat
  kind : String
  deriving DecidableEq

/-- A raw lane database with the relationships of its functions. -/
structure RawLane extends Database where
  relationships : Dict Nat Relationship
  related : ∀ r ∈ relationships.values, r.source ∈ observations.keys ∧ r.target ∈ observations.keys
  distinct : relationships.values.Nodup

/-- `SIGNATURE_COLUMNS`. -/
structure Signature where
  sublaneId : String
  policyId : String
  ghidraLanguageId : String
  ghidraCompilerSpecId : String
  fullHash : Hash64
  specificHash : Hash64
  specificHashAdditionalSize : Nat
  codeUnitSize : Nat
  deriving DecidableEq

def Observation.signature (row : Observation) : Signature :=
  ⟨row.sublaneId, row.policyId, row.ghidraLanguageId, row.ghidraCompilerSpecId, row.fullHash, row.specificHash,
    row.specificHashAdditionalSize, row.codeUnitSize⟩

def Signature.compare (a b : Signature) : Ordering :=
  (Ord.compare a.sublaneId b.sublaneId).then <| (Ord.compare a.policyId b.policyId).then <|
    (Ord.compare a.ghidraLanguageId b.ghidraLanguageId).then <|
    (Ord.compare a.ghidraCompilerSpecId b.ghidraCompilerSpecId).then <|
    (Ord.compare a.fullHash.text b.fullHash.text).then <| (Ord.compare a.specificHash.text b.specificHash.text).then <|
    (Ord.compare a.specificHashAdditionalSize b.specificHashAdditionalSize).then <|
    Ord.compare a.codeUnitSize b.codeUnitSize

/-- An observation without its signature. -/
structure SignatureOccurrence where
  signatureId : Nat
  buildVariantId : String
  domainPath : String
  functionName : String
  deriving DecidableEq

structure Admission where
  state : String
  rationale : String
  reviewedAt : Option String
  reviewedBy : Option String
  deriving DecidableEq

structure CompactGeneration where
  id : String
  schemaVersion : String
  sourceGenerationId : String
  sourceDatabaseSha256 : Digest
  createdAt : String
  state : String
  deduplicationKey : List String
  rawObservations : Nat
  uniqueSignatures : Nat
  repeatedObservations : Nat

/-- The tables of a compact database. -/
structure Compact where
  generation : CompactGeneration
  policies : Dict String Policy
  sublanes : Dict String SublaneRow
  families : Dict Nat Family
  releases : Dict Nat Release
  builds : Dict String Build
  signatures : Dict Nat Signature
  occurrences : Dict Nat SignatureOccurrence
  relationships : Dict Nat Relationship
  admissions : Dict Nat Admission

/-- The rows of a table in the order of their rowids. -/
def ordered {ν : Type} (table : Dict Nat ν) : List (Nat × ν) := table.entries.mergeSort fun a b => a.1 ≤ b.1

def signatureColumns : List String :=
  ["sublane_id", "policy_id", "ghidra_language_id", "ghidra_compiler_spec_id", "full_hash", "specific_hash",
    "specific_hash_additional_size", "code_unit_size"]

/-- `SELECT DISTINCT .. ORDER BY`. -/
def distinctSignatures (raw : RawLane) : List Signature :=
  (raw.observations.values.map Observation.signature).dedup.mergeSort fun a b => (Signature.compare a b).isLE

def insertSignature (table : Dict Nat Signature) (row : Signature) : Result (Dict Nat Signature) := do
  require (row ∉ table.values) (uniqueFailed "compact_signature")
  pure (table.set (nextRowid table) row)

def splitObservation (observation : Nat × Observation) (signature : Nat × Signature) : Nat × SignatureOccurrence :=
  (observation.1, ⟨signature.1, observation.2.buildVariantId, observation.2.domainPath, observation.2.functionName⟩)

/-- An observation joined with the signatures on all eight columns. -/
def joinSignatures (signatures : Dict Nat Signature) (observation : Nat × Observation) : List (Nat × SignatureOccurrence) :=
  (signatures.entries.filter fun signature => signature.2 = observation.2.signature).map (splitObservation observation)

def insertOccurrence (signatures : Dict Nat Signature) (table : Dict Nat SignatureOccurrence)
    (row : Nat × SignatureOccurrence) : Result (Dict Nat SignatureOccurrence) := do
  require (row.2.signatureId ∈ signatures.keys) foreignKeyFailed
  table.insertRow (uniqueFailed "signature_occurrence.id") row

def insertRelationship (occurrences : Dict Nat SignatureOccurrence) (table : Dict Nat Relationship)
    (row : Nat × Relationship) : Result (Dict Nat Relationship) := do
  require (row.2 ∉ table.values) (uniqueFailed "function_relationship")
  require (row.2.source ∈ occurrences.keys ∧ row.2.target ∈ occurrences.keys) foreignKeyFailed
  table.insertRow (uniqueFailed "function_relationship.id") row

def unreviewed : Admission := ⟨"unreviewed", "awaiting ecological validation", none, none⟩

def rebuildObservation (occurrence : Nat × SignatureOccurrence) (signature : Nat × Signature) : Nat × Observation :=
  (occurrence.1,
    { sublaneId := signature.2.sublaneId, policyId := signature.2.policyId,
      buildVariantId := occurrence.2.buildVariantId, ghidraLanguageId := signature.2.ghidraLanguageId,
      ghidraCompilerSpecId := signature.2.ghidraCompilerSpecId, fullHash := signature.2.fullHash,
      specificHash := signature.2.specificHash,
      specificHashAdditionalSize := signature.2.specificHashAdditionalSize,
      codeUnitSize := signature.2.codeUnitSize, domainPath := occurrence.2.domainPath,
      functionName := occurrence.2.functionName })

/-- The occurrences joined with their signatures. -/
def joinedObservations (signatures : Dict Nat Signature) (occurrences : Dict Nat SignatureOccurrence) :
    List (Nat × Observation) :=
  occurrences.entries.flatMap fun occurrence =>
    (signatures.entries.filter fun signature => signature.1 = occurrence.2.signatureId).map (rebuildObservation occurrence)

/-- The observations that the joined tables give another signature. An observation without an occurrence is not seen. -/
def mismatches (raw : RawLane) (signatures : Dict Nat Signature) (occurrences : Dict Nat SignatureOccurrence) : Nat :=
  ((ordered raw.observations).flatMap fun observation =>
    (joinedObservations signatures occurrences).filter fun joined =>
      joined.1 = observation.1 ∧ joined.2.signature ≠ observation.2.signature).length

structure CompactionPreview where
  generationId : String
  laneId : String
  evidenceKind : String
  rawObservations : Nat
  uniqueSignatures : Nat
  repeatedObservations : Nat

def previewCompaction (raw : RawLane) : CompactionPreview :=
  let rawCount := raw.observations.keys.length
  let uniqueCount := (raw.observations.values.map Observation.signature).dedup.length
  ⟨raw.generation.id, raw.generation.laneId, raw.generation.evidenceKind, rawCount, uniqueCount, rawCount - uniqueCount⟩

structure CompactionRequest where
  generationId : String
  createdAt : String

def compactGeneration (request : CompactionRequest) (raw : RawLane) (sourceDigest : Digest) : CompactGeneration where
  id := request.generationId
  schemaVersion := "fidb-lane-compact/v1"
  sourceGenerationId := raw.generation.id
  sourceDatabaseSha256 := sourceDigest
  createdAt := request.createdAt
  state := "experimental-unvalidated"
  deduplicationKey := signatureColumns
  rawObservations := (previewCompaction raw).rawObservations
  uniqueSignatures := (previewCompaction raw).uniqueSignatures
  repeatedObservations := (previewCompaction raw).repeatedObservations

def admissionRows (signatures : Dict Nat Signature) : List (Nat × Admission) :=
  (ordered signatures).map fun row => (row.1, unreviewed)

/-- The transaction that fills the compact tables. -/
def compactTables (request : CompactionRequest) (raw : RawLane) (sourceDigest : Digest) : Result Compact := do
  let signatures ← (distinctSignatures raw).foldlM insertSignature Dict.empty
  let occurrences ← ((ordered raw.observations).flatMap (joinSignatures signatures)).foldlM (insertOccurrence signatures) Dict.empty
  let relationships ← (ordered raw.relationships).foldlM (insertRelationship occurrences) Dict.empty
  let admissions ← Dict.insertRows (uniqueFailed "admission_decision.signature_id") Dict.empty (admissionRows signatures)
  require (occurrences.keys.length = (previewCompaction raw).rawObservations)
    (.value "compaction did not preserve every raw occurrence")
  require (mismatches raw signatures occurrences = 0) (.value "compaction signature verification found mismatches")
  pure
    { generation := compactGeneration request raw sourceDigest, policies := raw.policies, sublanes := raw.sublanes,
      families := raw.families, releases := raw.releases, builds := raw.builds, signatures, occurrences, relationships,
      admissions }

/-- What stands at the output. -/
inductive CompactEntry
  | foreign
  | published (db : Compact)

structure CompactReport where
  generation : CompactGeneration
  compactSignature : Nat
  signatureOccurrence : Nat
  functionRelationship : Nat
  admissionDecision : Nat

def inspectCompactDatabase (db : Compact) : CompactReport :=
  ⟨db.generation, db.signatures.keys.length, db.occurrences.keys.length, db.relationships.keys.length,
    db.admissions.keys.length⟩

/-- The raw database and the output, at two different paths. -/
structure LaneFiles where
  source : RawLane
  output : Option CompactEntry

section Compact

variable (sha256 : RawLane → Digest)

/-- Compact in a temporary file, and link it to an output that nothing stands at.
`others` is what other programs do to the two files in the meantime. -/
def compactLaneDatabase (request : CompactionRequest) (others : LaneFiles → LaneFiles) (files : LaneFiles) :
    LaneFiles × Result CompactReport :=
  if files.output.isSome then (files, .error (.fileExists "refusing to replace compaction output"))
  else if request.generationId = "" ∨ isStripped request.generationId = false then
    (files, .error (.value "generation_id must be a non-empty string"))
  else
    match compactTables request files.source (sha256 files.source) with
    | .error e => (others files, .error e)
    | .ok db =>
      if sha256 (others files).source ≠ sha256 files.source then
        (others files, .error (.value "raw source database changed during compaction"))
      else if (others files).output.isSome then
        (others files, .error (.fileExists "refusing to replace compaction output"))
      else (⟨(others files).source, some (.published db)⟩, .ok (inspectCompactDatabase db))

end Compact

end FidbPoc.Lanes
