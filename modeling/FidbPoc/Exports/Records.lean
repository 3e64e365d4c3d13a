import FidbPoc.Lib.Checked
import FidbPoc.Lib.Dict
import FidbPoc.Lib.Patterns
import Mathlib.Algebra.Order.Ring.Nat
import Mathlib.Data.List.Dedup
import Mathlib.Data.List.DropRight
import Mathlib.Data.List.Sort
import Mathlib.Data.String.Basic

namespace FidbPoc.Exports

open Lib Lib.Checked Lib.Patterns

abbrev Bytes := List UInt8

/-- A place below the project root. -/
abbrev Path := List String

section Authority

structure SafeguardSection where
  receipt : String
  ledgerSnapshot : String
  retentionAuthority : String
  required : Bool
  packagePath : Option String

structure PopulationSection where
  ledger : String
  expectedLibraries : Int
  expectedIdentitiesPerLibrary : Int
  expectedArtifacts : Int
  requireLedgerSha256 : Option Bool

structure HashQualitySection where
  database : String
  requiredGenerationOwners : Int
  required : Bool
  packagePath : Option String

structure ValidationSection where
  report : String
  required : Bool
  packagePath : Option String

structure CompatibilitySection where
  laneRegistry : String
  packagePath : Option String

/-- An export authority. A key that only the build looks up may be missing. -/
structure Authority where
  schemaVersion : String
  releaseId : String
  packageFormat : String
  compressionLevel : Option Int
  outputRoot : String
  safeguard : SafeguardSection
  population : PopulationSection
  cataloguePath : Option String
  hashQuality : HashQualitySection
  validation : ValidationSection
  compatibility : CompatibilitySection
  reopenArchive : Option Bool

end Authority

section Evidence

structure Source where
  id : String
  label : String
  version : String
  rank : Int
  deriving DecidableEq

/-- What is read of the result of a completed job. -/
structure JobResult where
  fidbfPath : String
  fidbfSha256 : String
  sealPath : String
  sealSha256 : String
  deriving DecidableEq

/-- What is read of a resolved cell. -/
structure Cell where
  name : String
  version : String
  sha256 : String
  route : String
  treatment : String
  toolchainIdentity : String
  ghidraLanguage : String
  ghidraCompilerSpec : String
  deriving DecidableEq

/-- A completed job with its cell; a document that does not parse or lacks a field is `none`. -/
structure Completed where
  jobId : String
  batchId : String
  baseCellId : String
  updatedAt : String
  result : Option JobResult
  cell : Option Cell
  deriving DecidableEq

structure Ledger where
  completed : List Completed
  liveJobs : Nat

structure Generation where
  ordinal : Int
  digest : String
  owners : Int
  signatures : Int
  deriving DecidableEq

/-- A hash-quality database; `generation` is `none` when the query fails or finds nothing. -/
structure QualityDatabase where
  quickCheck : Bool
  generation : Option Generation

structure ListedArtifact where
  identity : String
  sha256 : String
  deriving DecidableEq

structure SnapshotRecord where
  path : Option String
  bytes : Option Nat
  sha256 : Option String
  deriving DecidableEq

structure Receipt where
  schemaVersion : Option String
  authoritySha256 : Option String
  populationSha256 : Option String
  artifactCount : Option Nat
  rawArtifactBytes : Option Nat
  retentionAuthoritySha256 : Option String
  ledgerSnapshot : Option SnapshotRecord
  artifacts : List ListedArtifact

/-- What reading a receipt comes to. -/
inductive ReceiptText
  | object (receipt : Receipt)
  | notObject
  | unreadable (message : String)
  | undecodable (message : String)

/-- The documents that a build writes itself. -/
inductive Document
  | release | readme | manifest | catalogue | hashQuality | checksums
  deriving DecidableEq

/-- A project tree and what is read from it. A text leads to a place below the root, links followed, or nowhere. -/
structure Project where
  authority : Authority
  authoritySha256 : String
  sources : Option (List Source)
  executable : Except String (List (String × String))
  resolve : String → Option Path
  files : Path → Option Bytes
  ledger : Bytes → Except String Ledger
  quality : Bytes → Option QualityDatabase
  receipt : Bytes → ReceiptText
  sha256 : Bytes → String
  textSha256 : String → String
  render : Document → Bytes

end Evidence

structure Artifact where
  identity : String
  libraryId : String
  libraryVersion : String
  rank : Int
  routeId : String
  treatmentId : String
  jobId : String
  batchId : String
  cellId : String
  sourceSha256 : String
  toolchainIdentity : String
  ghidraLanguageId : String
  ghidraCompilerSpecId : String
  artifactPath : Path
  artifactSha256 : String
  artifactBytes : Nat
  sealPath : String
  sealSha256 : String
  completedAt : String
  deriving DecidableEq

/-- `identity.replace("/", "_").replace(":", "__")`. -/
def safeName (identity : String) : String :=
  String.ofList (identity.toList.flatMap fun c => if c = '/' then ['_'] else if c = ':' then ['_', '_'] else [c])

def packagePath (identity : String) : String := "fidbf/" ++ safeName identity ++ ".fidbf"

def Artifact.packagePath (row : Artifact) : String := Exports.packagePath row.identity

section Paths

variable (p : Project)

def managedPath (value : String) : Except String Path := do
  require (value ≠ "" ∧ isAbsolute value = false) "export paths must be non-empty project-relative strings"
  match p.resolve value with
  | some path => pure path
  | none => .error s!"export path escapes project root: {value}"

/-- A managed path that must be a file. -/
def managedFile (value : String) : Except String Path := do
  let path ← managedPath p value
  require (p.files path).isSome s!"required export input is missing or unsafe: {value}"
  pure path

def isFile (path : Path) : Bool := (p.files path).isSome

/-- The digest of a file that is there. -/
def fileSha256 (path : Path) : String := p.sha256 ((p.files path).getD [])

def fileBytes (path : Path) : Nat := ((p.files path).getD []).length

end Paths

section Population

variable (p : Project)

def loadAuthority : Except String Authority := do
  require (p.authority.schemaVersion = "fidb-export/v1") "unsupported export authority schema"
  require (p.authority.packageFormat = "tar.zst") "only tar.zst export packages are supported"
  pure p.authority

def sourceRows : Except String (List Source) := do
  match p.sources with
  | none => .error "source pack has no source rows"
  | some rows =>
    require ((rows.length : Int) = p.authority.population.expectedLibraries)
      s!"source pack contains {rows.length} libraries; expected {p.authority.population.expectedLibraries}"
    pure rows

def identityOf (id version route treatment : String) : String := s!"{id}@{version}:{route}:{treatment}"

/-- The libraries, the identities that they and the width ask for, and the routes. -/
structure Expected where
  sourceById : Dict String Source
  identities : List String
  routes : List String

def expectedIdentities : Except String Expected := do
  let executable ← p.executable
  let pairs := executable.dedup
  let population := p.authority.population
  require ((pairs.length : Int) = population.expectedIdentitiesPerLibrary)
    s!"width authority resolves {pairs.length} identities per library; expected {population.expectedIdentitiesPerLibrary}"
  let sources ← sourceRows p
  let sourceById := Dict.ofList (sources.map fun source => (source.id, source))
  let identities := (sourceById.entries.flatMap fun source =>
    pairs.map fun pair => identityOf source.1 source.2.version pair.1 pair.2).dedup
  require ((identities.length : Int) = population.expectedArtifacts)
    s!"authority resolves {identities.length} artifacts; expected {population.expectedArtifacts}"
  pure ⟨sourceById, identities, (pairs.map Prod.fst).dedup⟩

def artifactOf (sourceById : Dict String Source) (row : Completed) : Option Artifact := do
  let result ← row.result
  let cell ← row.cell
  let source ← sourceById.get? cell.name
  if source.version = cell.version then
    let path ← (managedFile p result.fidbfPath).toOption
    some
      { identity := identityOf cell.name cell.version cell.route cell.treatment
        libraryId := cell.name
        libraryVersion := cell.version
        rank := source.rank
        routeId := cell.route
        treatmentId := cell.treatment
        jobId := row.jobId
        batchId := row.batchId
        cellId := row.baseCellId
        sourceSha256 := cell.sha256
        toolchainIdentity := cell.toolchainIdentity
        ghidraLanguageId := cell.ghidraLanguage
        ghidraCompilerSpecId := cell.ghidraCompilerSpec
        artifactPath := path
        artifactSha256 := result.fidbfSha256
        artifactBytes := fileBytes p path
        sealPath := result.sealPath
        sealSha256 := result.sealSha256
        completedAt := row.updatedAt }
  else none

structure Duplicate where
  identity : String
  selectedJobId : String
  duplicateJobId : String
  sameSha256 : Bool
  deriving DecidableEq

/-- `ORDER BY updated_at DESC, job_id DESC`. -/
def Later (a b : Completed) : Prop := b.updatedAt < a.updatedAt ∨ b.updatedAt = a.updatedAt ∧ b.jobId ≤ a.jobId

instance : DecidableRel Later := fun _ _ => inferInstanceAs (Decidable (_ ∨ _))

structure Reading where
  artifacts : Dict String Artifact
  duplicates : List Duplicate

/-- The first job of an identity is selected. -/
def Reading.insert (reading : Reading) (artifact : Artifact) : Reading :=
  match reading.artifacts.get? artifact.identity with
  | some previous =>
    { reading with
      duplicates := reading.duplicates ++
        [⟨artifact.identity, previous.jobId, artifact.jobId,
          decide (previous.artifactSha256 = artifact.artifactSha256)⟩] }
  | none => { reading with artifacts := reading.artifacts.set artifact.identity artifact }

/-- What is read of a ledger, which need not be there. -/
def readLedger (path : Path) : Except String Ledger :=
  match p.files path with
  | none => pure ⟨[], 0⟩
  | some bytes => p.ledger bytes

def readArtifacts (ledger : Ledger) (sourceById : Dict String Source) : Reading :=
  ((ledger.completed.insertionSort Later).filterMap (artifactOf p sourceById)).foldl Reading.insert ⟨Dict.empty, []⟩

end Population

end FidbPoc.Exports
