import FidbPoc.Exports.Records

namespace FidbPoc.Exports

open Lib Lib.Checked

inductive SafeguardState
  | missing | current | stale | invalid
  deriving DecidableEq

structure SafeguardStatus where
  state : SafeguardState
  required : Bool
  receiptPath : Path
  ledgerSnapshotPath : Path
  retentionAuthorityPath : Path
  populationSha256 : String
  artifactCount : Nat
  rawArtifactBytes : Nat
  liveJobs : Nat
  receiptSha256 : Option String
  error : Option String

inductive SidecarStatus
  | ready (path : Path) (bytes : Nat) (generation : Generation)
  | incomplete (path : Path) (bytes : Nat) (generation : Generation)
  | missingOrInvalid (error : String)

def SidecarStatus.isReady : SidecarStatus → Bool
  | .ready .. => true
  | _ => false

structure LibraryStatus where
  id : String
  label : String
  version : String
  rank : Int
  present : Nat
  expected : Int
  complete : Bool
  bytes : Nat
  deriving DecidableEq

structure Status where
  expected : Nat
  present : Nat
  missing : List String
  unexpected : List String
  libraries : List LibraryStatus
  librariesExpected : Nat
  routes : Nat
  treatments : Int
  rawBytes : Nat
  duplicates : List Duplicate
  hashQuality : SidecarStatus
  validationReady : Bool
  compatibilityReady : Bool
  safeguard : SafeguardStatus
  blockers : List String

def Status.ready (status : Status) : Bool := status.blockers.isEmpty

section Inspection

variable (p : Project)

def populationText (artifacts : List Artifact) : String :=
  String.join ((artifacts.insertionSort fun a b => a.identity ≤ b.identity).map fun row =>
    row.identity ++ "\x00" ++ row.artifactSha256 ++ "\x00" ++ row.sealSha256 ++ "\x00" ++ toString row.artifactBytes ++ "\n")

def populationDigest (artifacts : List Artifact) : String := p.textSha256 (populationText artifacts)

def rawBytes (artifacts : List Artifact) : Nat := (artifacts.map Artifact.artifactBytes).sum

/-- The fields of a receipt that are not what they should be. -/
def mismatches (artifacts : List Artifact) (retention snapshot : Path) (verifySnapshot : Bool) (receipt : Receipt) :
    List String :=
  (if receipt.authoritySha256 = some p.authoritySha256 then [] else ["authority_sha256"]) ++
  (if receipt.populationSha256 = some (populationDigest p artifacts) then [] else ["population_sha256"]) ++
  (if receipt.artifactCount = some artifacts.length then [] else ["artifact_count"]) ++
  (if receipt.rawArtifactBytes = some (rawBytes artifacts) then [] else ["raw_artifact_bytes"]) ++
  (if receipt.retentionAuthoritySha256 = some (fileSha256 p retention) then [] else ["retention_authority_sha256"]) ++
  (if receipt.schemaVersion = some "fidb-export-safeguard/v1" then [] else ["schema_version"]) ++
  match receipt.ledgerSnapshot with
  | none => ["ledger_snapshot"]
  | some record =>
    (if record.path = some ("/".intercalate snapshot) then [] else ["ledger_snapshot.path"]) ++
    (if record.bytes = some (fileBytes p snapshot) then [] else ["ledger_snapshot.bytes"]) ++
    (if verifySnapshot = true ∧ record.sha256 ≠ some (fileSha256 p snapshot) then ["ledger_snapshot.sha256"] else [])

/-- The state of a receipt, and why it is not current. -/
def receiptState (artifacts : List Artifact) (retention snapshot : Path) (verifySnapshot : Bool) :
    ReceiptText → Except String (SafeguardState × Option String)
  | .object receipt =>
    let wrong := mismatches p artifacts retention snapshot verifySnapshot receipt
    if wrong = [] then pure (.current, none)
    else pure (.stale, some ("mismatched: " ++ ", ".intercalate (wrong.dedup.insertionSort (· ≤ ·))))
  | .notObject => pure (.invalid, some "safeguard receipt must be an object")
  | .unreadable message => pure (.invalid, some message)
  | .undecodable message => .error message

def safeguardState (artifacts : List Artifact) (retention snapshot receipt : Path) (verifySnapshot : Bool) :
    Except String (SafeguardState × Option String) :=
  match p.files receipt, p.files snapshot with
  | some bytes, some _ => receiptState p artifacts retention snapshot verifySnapshot (p.receipt bytes)
  | _, _ => pure (.missing, none)

def safeguardStatus (artifacts : List Artifact) (liveJobs : Nat) (verifySnapshot : Bool) : Except String SafeguardStatus := do
  let config := p.authority.safeguard
  let receiptPath ← managedPath p config.receipt
  let snapshotPath ← managedPath p config.ledgerSnapshot
  let retention ← managedFile p config.retentionAuthority
  let state ← safeguardState p artifacts retention snapshotPath receiptPath verifySnapshot
  pure
    { state := state.1
      required := config.required
      receiptPath
      ledgerSnapshotPath := snapshotPath
      retentionAuthorityPath := retention
      populationSha256 := populationDigest p artifacts
      artifactCount := artifacts.length
      rawArtifactBytes := rawBytes artifacts
      liveJobs
      receiptSha256 := if state.1 = .current then some (fileSha256 p receiptPath) else none
      error := state.2 }

/-- The hash-quality database, with what it holds; `none` where it fails its check or has no generation. -/
def sidecarDatabase : Except String (Path × Option Generation) := do
  let path ← managedFile p p.authority.hashQuality.database
  match p.quality ((p.files path).getD []) with
  | none => .error "file is not a database"
  | some database => pure (path, if database.quickCheck then database.generation else none)

def sidecarStatus : SidecarStatus :=
  match sidecarDatabase p with
  | .error error => .missingOrInvalid error
  | .ok (_, none) => .missingOrInvalid "hash-quality database failed integrity or generation check"
  | .ok (path, some generation) =>
    if p.authority.hashQuality.requiredGenerationOwners ≤ generation.owners then
      .ready path (fileBytes p path) generation
    else .incomplete path (fileBytes p path) generation

def libraryStatus (present : List Artifact) (id : String) (source : Source) : LibraryStatus :=
  let count := (present.filter fun row => row.identity.startsWith s!"{id}@{source.version}:").length
  { id
    label := source.label
    version := source.version
    rank := source.rank
    present := count
    expected := p.authority.population.expectedIdentitiesPerLibrary
    complete := decide ((count : Int) = p.authority.population.expectedIdentitiesPerLibrary)
    bytes := rawBytes (present.filter fun row => row.libraryId = id) }

def safeguardBlocker : String := "export source safeguard is missing, stale or invalid"

/-- What stands in the way of a release. -/
def blockers (missing unexpected : List String) (quality : SidecarStatus) (report registry : Path) (safeguard : SafeguardStatus)
    (requireSafeguard : Bool) : List String :=
  (if missing = [] then [] else [s!"{missing.length} expected FIDBF identities are missing"]) ++
  (if unexpected = [] then [] else [s!"{unexpected.length} unexpected C10 identities were found"]) ++
  (if quality.isReady = false ∧ p.authority.hashQuality.required = true then
    ["hash-quality sidecar is missing, incomplete or invalid"] else []) ++
  (if isFile p report = false ∧ p.authority.validation.required = true then ["validation report is missing"] else []) ++
  (if isFile p registry = false then ["lane compatibility registry is missing"] else []) ++
  (if safeguard.required = true ∧ requireSafeguard = true ∧ safeguard.state ≠ .current then [safeguardBlocker] else [])

def inspectExport (requireSafeguard : Bool) : Except String Status := do
  let authority ← loadAuthority p
  let expected ← expectedIdentities p
  let ledgerPath ← managedPath p authority.population.ledger
  let ledger ← readLedger p ledgerPath
  let reading := readArtifacts p ledger expected.sourceById
  let present := (reading.artifacts.values.filter fun row => row.identity ∈ expected.identities).insertionSort
    fun a b => a.identity ≤ b.identity
  let missing := (expected.identities.filter fun identity => identity ∉ present.map Artifact.identity).insertionSort (· ≤ ·)
  let unexpected := ((reading.artifacts.values.map Artifact.identity).filter fun identity =>
    identity ∉ expected.identities).insertionSort (· ≤ ·)
  let quality := sidecarStatus p
  let report ← managedPath p authority.validation.report
  let registry ← managedPath p authority.compatibility.laneRegistry
  let safeguard ← safeguardStatus p present ledger.liveJobs false
  let _ ← managedPath p authority.outputRoot
  require (expected.routes ≠ []) "integer division or modulo by zero"
  pure
    { expected := expected.identities.length
      present := present.length
      missing
      unexpected
      libraries := (expected.sourceById.entries.insertionSort fun a b => a.2.rank ≤ b.2.rank).map fun source =>
        libraryStatus p present source.1 source.2
      librariesExpected := expected.sourceById.entries.length
      routes := expected.routes.length
      treatments := authority.population.expectedIdentitiesPerLibrary / expected.routes.length
      rawBytes := rawBytes present
      duplicates := reading.duplicates
      hashQuality := quality
      validationReady := isFile p report
      compatibilityReady := isFile p registry
      safeguard
      blockers := blockers p missing unexpected quality report registry safeguard requireSafeguard }

end Inspection

end FidbPoc.Exports
