import FidbPoc.Lib.Relation
import FidbPoc.Lanes.Occurrence

namespace FidbPoc.Lanes

open FidbPoc.Lib FidbPoc.Lib.Checked FidbPoc.Lib.Patterns

structure Family where
  name : String
  sourceLanguage : String
  deriving DecidableEq

structure Release where
  familyId : Nat
  version : String
  sourceUrl : String
  sourceSha256 : Digest
  deriving DecidableEq

structure Build where
  releaseId : Nat
  sublaneId : String
  routeId : String
  compilerFamily : String
  compilerVersion : String
  compilerSha256 : Option Digest
  treatmentId : String
  buildManifestSha256 : Digest
  deriving DecidableEq

structure Observation where
  sublaneId : String
  policyId : String
  buildVariantId : String
  ghidraLanguageId : String
  ghidraCompilerSpecId : String
  fullHash : Hash64
  specificHash : Hash64
  specificHashAdditionalSize : Nat
  codeUnitSize : Nat
  domainPath : String
  functionName : String
  deriving DecidableEq

structure Generation where
  id : String
  laneId : String
  laneLabel : String
  laneState : String
  createdAt : String
  registrySha256 : Digest
  sourceRunId : String
  sourceRunSha256 : Digest
  evidenceKind : String
  nativeProjectionState : String
  signatureRecords : Nat
  rawSignatureObservations : Nat
  functionRelationships : Nat
  deriving DecidableEq

structure SublaneRow where
  generationId : String
  sublane : Sublane

/-- The tables of a lane database, each under its primary key. -/
structure Database where
  generation : Generation
  policies : Dict String Policy
  sublanes : Dict String SublaneRow
  families : Dict Nat Family
  releases : Dict Nat Release
  builds : Dict String Build
  observations : Dict Nat Observation

/-- The rowid of the next row of a table. -/
def nextRowid {ν : Type} (table : Dict Nat ν) : Nat := table.keys.foldr max 0 + 1

def uniqueFailed (columns : String) : Fault := .integrity s!"UNIQUE constraint failed: {columns}"

def foreignKeyFailed : Fault := .integrity "FOREIGN KEY constraint failed"

def checkFailed (column : String) : Fault := .integrity s!"CHECK constraint failed: {column}"

/-- `INSERT INTO library_family`, and the rowid of the new row. -/
def insertFamily (db : Database) (row : Family) : Result (Database × Nat) := do
  require (row ∉ db.families.values) (uniqueFailed "library_family.name, library_family.source_language")
  let id := nextRowid db.families
  pure ({ db with families := db.families.set id row }, id)

def insertRelease (db : Database) (row : Release) : Result (Database × Nat) := do
  require (∀ r ∈ db.releases.values,
      ¬(r.familyId = row.familyId ∧ r.version = row.version ∧ r.sourceSha256 = row.sourceSha256))
    (uniqueFailed "library_release.family_id, library_release.version, library_release.source_sha256")
  require (row.familyId ∈ db.families.keys) foreignKeyFailed
  let id := nextRowid db.releases
  pure ({ db with releases := db.releases.set id row }, id)

def insertBuild (db : Database) (id : String) (row : Build) : Result Database := do
  require (id ∉ db.builds.keys) (uniqueFailed "build_variant.id")
  require (∀ r ∈ db.builds.values,
      ¬(r.releaseId = row.releaseId ∧ r.sublaneId = row.sublaneId ∧ r.routeId = row.routeId ∧
        r.treatmentId = row.treatmentId ∧ r.buildManifestSha256 = row.buildManifestSha256))
    (uniqueFailed ("build_variant.release_id, build_variant.sublane_id, build_variant.route_id, " ++
      "build_variant.treatment_id, build_variant.build_manifest_sha256"))
  require (row.releaseId ∈ db.releases.keys ∧ row.sublaneId ∈ db.sublanes.keys) foreignKeyFailed
  pure { db with builds := db.builds.set id row }

/-- The largest integer that a column holds. -/
def maxInteger : Nat := 2 ^ 63 - 1

def insertObservation (db : Database) (row : Observation) : Result Database := do
  require (row.specificHashAdditionalSize ≤ maxInteger ∧ row.codeUnitSize ≤ maxInteger) .overflow
  require (row.sublaneId ∈ db.sublanes.keys ∧ row.policyId ∈ db.policies.keys ∧ row.buildVariantId ∈ db.builds.keys)
    foreignKeyFailed
  pure { db with observations := db.observations.set (nextRowid db.observations) row }

abbrev FamilyKey := String × String

abbrev ReleaseKey := Nat × String × String

/-- The database under construction, and the caches of the loop. -/
structure Building where
  db : Database
  familyIds : Dict FamilyKey Nat
  releaseIds : Dict ReleaseKey Nat
  buildFingerprints : Dict String Build
  signatureRecords : Nat

def familyOf (st : Building) (row : Occurrence) : Result (Building × Nat) :=
  match st.familyIds.get? (row.library, row.sourceLanguage) with
  | some id => pure (st, id)
  | none => do
    let inserted ← insertFamily st.db ⟨row.library, row.sourceLanguage⟩
    pure ({ st with
      db := inserted.1, familyIds := st.familyIds.set (row.library, row.sourceLanguage) inserted.2 }, inserted.2)

/-- The release of an occurrence; its key leaves the source URL out. -/
def releaseOf (st : Building) (row : Occurrence) (familyId : Nat) : Result (Building × Nat) :=
  match st.releaseIds.get? (familyId, row.libraryVersion, row.sourceSha256.text) with
  | some id => pure (st, id)
  | none => do
    let inserted ← insertRelease st.db ⟨familyId, row.libraryVersion, row.sourceUrl, row.sourceSha256⟩
    pure ({ st with
      db := inserted.1
      releaseIds := st.releaseIds.set (familyId, row.libraryVersion, row.sourceSha256.text) inserted.2 }, inserted.2)

def fingerprint (row : Occurrence) (releaseId : Nat) : Build :=
  ⟨releaseId, row.sublaneId, row.routeId, row.compilerFamily, row.compilerVersion, row.compilerSha256,
    row.treatmentId, row.buildManifestSha256⟩

def buildOf (st : Building) (row : Occurrence) (releaseId : Nat) : Result Building :=
  match st.buildFingerprints.get? row.buildId with
  | some known => do
    require (known = fingerprint row releaseId) (.value s!"build_id has inconsistent provenance: {row.buildId}")
    pure st
  | none => do
    let db ← insertBuild st.db row.buildId (fingerprint row releaseId)
    pure { st with db := db, buildFingerprints := st.buildFingerprints.set row.buildId (fingerprint row releaseId) }

def observationOf (row : Occurrence) (policyId : String) : Observation :=
  ⟨row.sublaneId, policyId, row.buildId, row.ghidraLanguageId, row.ghidraCompilerSpecId, row.fullHash,
    row.specificHash, row.specificHashAdditionalSize, row.codeUnitSize, row.domainPath, row.functionName⟩

/-- One round of the loop, on a validated occurrence. -/
def addRow (lane : Lane) (st : Building) (row : Occurrence) : Result Building := do
  let family ← familyOf { st with signatureRecords := st.signatureRecords + 1 } row
  let release ← releaseOf family.1 row family.2
  let st ← buildOf release.1 row release.2
  match sublane? lane row.sublaneId with
  | none => .error (.key row.sublaneId)
  | some sublane =>
    let db ← insertObservation st.db (observationOf row sublane.policyId)
    pure { st with db := db }

def addOccurrence (lane : Lane) (st : Building) (raw : Json.Fields) : Result Building := do
  let row ← validateOccurrence lane raw
  addRow lane st row

section Registry

def policy? (registry : Registry) (id : String) : Option Policy := registry.policies.reverse.find? fun p => p.id = id

def insertPolicy (registry : Registry) (policies : Dict String Policy) (policyId : String) :
    Result (Dict String Policy) :=
  match policy? registry policyId with
  | none => .error (.key policyId)
  | some policy => policies.insertRow (uniqueFailed "policy.id") (policy.id, policy)

def insertSublane (generationId : String) (policies : Dict String Policy) (rows : Dict String SublaneRow)
    (sublane : Sublane) : Result (Dict String SublaneRow) := do
  require (sublane.target.endianness ∈ ["little", "big"]) (checkFailed "endianness")
  require (sublane.target.bits = 32 ∨ sublane.target.bits = 64) (checkFailed "bits")
  require (sublane.definitionState ∈ ["mapped", "unresolved"]) (checkFailed "definition_state")
  require (∀ row ∈ rows.values, row.sublane.targetId ≠ sublane.targetId) (uniqueFailed "sublane.target_id")
  require (sublane.policyId ∈ policies.keys) foreignKeyFailed
  rows.insertRow (uniqueFailed "sublane.id") (sublane.id, ⟨generationId, sublane⟩)

end Registry

/-- The arguments of `build_lane_database` besides the registry and the occurrences. -/
structure Request where
  laneId : String
  generationId : String
  registrySha256 : String
  sourceRunId : String
  sourceRunSha256 : String
  evidenceKind : String
  createdAt : String

/-- The tables before the first occurrence. -/
def insertRegistry (registry : Registry) (lane : Lane) (generation : Generation) : Result Database := do
  require (lane.state ∈ ["experimental", "active", "retired"]) (checkFailed "lane_state")
  let policyIds := (lane.sublanes.map Sublane.policyId).dedup.mergeSort
  let policies ← policyIds.foldlM (insertPolicy registry) Dict.empty
  let sublanes ← lane.sublanes.foldlM (insertSublane generation.id policies) Dict.empty
  pure ⟨generation, policies, sublanes, Dict.empty, Dict.empty, Dict.empty, Dict.empty⟩

def argumentDigest (text label : String) : Result Digest := digest (some (.str text)) label

def findLane (registry : Registry) (laneId : String) : Result Lane :=
  match registry.lanes.filter fun lane => lane.id = laneId with
  | [lane] => pure lane
  | _ => .error (.value s!"unknown or duplicate lane: {laneId}")

/-- Check the arguments: the lane to build, and its generation. -/
def openGeneration (registry : Registry) (request : Request) : Result (Lane × Generation) := do
  require (request.evidenceKind ∈ ["signature-ledger-only", "complete-fid-graph"])
    (.value s!"unsupported evidence_kind: {request.evidenceKind}")
  let registrySha256 ← argumentDigest request.registrySha256 "registry_sha256"
  let sourceRunSha256 ← argumentDigest request.sourceRunSha256 "source_run_sha256"
  let generationId ← nonempty (some (.str request.generationId)) "generation_id"
  let sourceRunId ← nonempty (some (.str request.sourceRunId)) "source_run_id"
  let lane ← findLane registry request.laneId
  let createdAt ← nonempty (some (.str request.createdAt)) "created_at"
  pure (lane,
    { id := generationId, laneId := lane.id, laneLabel := lane.label, laneState := lane.state, createdAt,
      registrySha256, sourceRunId, sourceRunSha256, evidenceKind := request.evidenceKind,
      nativeProjectionState :=
        if request.evidenceKind = "signature-ledger-only" then "blocked-missing-relationships" else "not-requested"
      signatureRecords := 0, rawSignatureObservations := 0, functionRelationships := 0 })

/-- The transaction that fills the tables. -/
def fillDatabase (registry : Registry) (request : Request) (occurrences : List Json.Fields) : Result Database := do
  let opened ← openGeneration registry request
  let db ← insertRegistry registry opened.1 opened.2
  let st ← occurrences.foldlM (addOccurrence opened.1) ⟨db, Dict.empty, Dict.empty, Dict.empty, 0⟩
  require (st.signatureRecords ≠ 0) (.value "lane database requires at least one occurrence")
  pure { st.db with
    generation := { opened.2 with
      signatureRecords := st.signatureRecords, rawSignatureObservations := st.db.observations.keys.length } }

/-- What stands at the destination. -/
inductive Entry
  | foreign
  | published (db : Database)

/-- What `inspect_lane_database` reports. -/
structure Report where
  generation : Generation
  libraryFamilies : Nat
  libraryReleases : Nat
  buildVariants : Nat
  rawSignatureObservations : Nat

def inspectLaneDatabase (db : Database) : Report :=
  ⟨db.generation, db.families.keys.length, db.releases.keys.length, db.builds.keys.length, db.observations.keys.length⟩

/-- Build in a temporary file, and link it to a destination that nothing stands at. -/
def buildLaneDatabase (registry : Registry) (request : Request) (occurrences : List Json.Fields)
    (destination : Option Entry) : Option Entry × Result Report :=
  match destination with
  | some entry => (some entry, .error (.fileExists "refusing to replace lane database"))
  | none =>
    match fillDatabase registry request occurrences with
    | .error e => (none, .error e)
    | .ok db => (some (.published db), .ok (inspectLaneDatabase db))

/-- The rows of the four tables joined on their ids. -/
def joined (db : Database) : List Occurrence :=
  db.observations.values.flatMap fun o =>
    (db.builds.entries.filter fun b => b.1 = o.buildVariantId).flatMap fun b =>
      (db.releases.entries.filter fun r => r.1 = b.2.releaseId).flatMap fun r =>
        (db.families.entries.filter fun f => f.1 = r.2.familyId).map fun f =>
          { sublaneId := o.sublaneId, library := f.2.name, libraryVersion := r.2.version,
            sourceLanguage := f.2.sourceLanguage, sourceUrl := r.2.sourceUrl, sourceSha256 := r.2.sourceSha256,
            buildId := b.1, routeId := b.2.routeId, compilerFamily := b.2.compilerFamily,
            compilerVersion := b.2.compilerVersion, compilerSha256 := b.2.compilerSha256,
            treatmentId := b.2.treatmentId, buildManifestSha256 := b.2.buildManifestSha256,
            ghidraLanguageId := o.ghidraLanguageId, ghidraCompilerSpecId := o.ghidraCompilerSpecId,
            domainPath := o.domainPath, functionName := o.functionName, fullHash := o.fullHash,
            specificHash := o.specificHash, specificHashAdditionalSize := o.specificHashAdditionalSize,
            codeUnitSize := o.codeUnitSize }

end FidbPoc.Lanes
