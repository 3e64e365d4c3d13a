import FidbPoc.Exports.Inspection

namespace FidbPoc.Exports

open Lib Lib.Checked

structure Member where
  name : String
  content : Bytes
  deriving DecidableEq

structure ChecksumLine where
  sha256 : String
  name : String
  deriving DecidableEq

/-- What a build puts into the archive, with the rows of the catalogue and the lines of the checksums. -/
structure Package where
  builtAt : String
  members : List Member
  catalogue : List Artifact
  checksums : List ChecksumLine

section Build

variable (p : Project)

def lookUp {α : Type} (key : String) : Option α → Except String α
  | some value => pure value
  | none => .error s!"KeyError: {key}"

/-- The selected artifact of every expected identity, in the order of the identities. -/
def releaseArtifacts : Except String (List Artifact) := do
  let expected ← expectedIdentities p
  let ledgerPath ← managedFile p p.authority.population.ledger
  let ledger ← readLedger p ledgerPath
  let reading := readArtifacts p ledger expected.sourceById
  (expected.identities.insertionSort (· ≤ ·)).mapM fun identity => lookUp identity (reading.artifacts.get? identity)

/-- An integer column takes 64 bits. -/
def sqliteInteger (value : Int) : Prop := -9223372036854775808 ≤ value ∧ value < 9223372036854775808

instance (value : Int) : Decidable (sqliteInteger value) := inferInstanceAs (Decidable (_ ∧ _))

def catalogue (artifacts : List Artifact) : Except String (List Artifact) := do
  require (∀ row ∈ artifacts, sqliteInteger row.rank) "Python int too large to convert to SQLite INTEGER"
  require (artifacts.map Artifact.identity).Nodup "UNIQUE constraint failed: fidbf_artifact.identity"
  require (artifacts.map Artifact.packagePath).Nodup "UNIQUE constraint failed: fidbf_artifact.package_path"
  pure artifacts

def snapshotQuality : Except String Unit := do
  let path ← managedFile p p.authority.hashQuality.database
  match p.quality ((p.files path).getD []) with
  | none => .error "file is not a database"
  | some database => require database.quickCheck s!"SQLite snapshot failed quick_check: {p.authority.hashQuality.database}"

/-- The names that the authority chooses: of the safeguard, the catalogue, the hash quality, the validation report and the lane
registry. -/
def packagePaths : Except String (List String) := do
  let authority := p.authority
  let safeguard ← lookUp "package_path" authority.safeguard.packagePath
  let catalogue ← lookUp "path" authority.cataloguePath
  let hashQuality ← lookUp "package_path" authority.hashQuality.packagePath
  let validation ← lookUp "package_path" authority.validation.packagePath
  let compatibility ← lookUp "package_path" authority.compatibility.packagePath
  pure [safeguard, catalogue, hashQuality, validation, compatibility]

/-- The documents of a release, each with its name. -/
def fixedMembers (receipt validation registry : Path) (names : List String) : List Member :=
  List.zipWith Member.mk (["release.toml", "README.md", "manifest.md"] ++ names)
    [p.render .release, p.render .readme, p.render .manifest, (p.files receipt).getD [], p.render .catalogue,
      p.render .hashQuality, (p.files validation).getD [], (p.files registry).getD []]

def artifactMember (row : Artifact) : Member := ⟨row.packagePath, (p.files row.artifactPath).getD []⟩

def checksumLine (member : Member) : ChecksumLine := ⟨p.sha256 member.content, member.name⟩

/-- A member is archived without leading slashes. -/
def memberName (name : String) : String := String.ofList (name.toList.dropWhile (· = '/'))

/-- The archive, reopened: its members are those of the payload. -/
def reopened (payload : List Member) : Bool :=
  let members := payload.map fun member => memberName member.name
  let expected := (payload.map Member.name).dedup
  (members.all fun name => expected.contains name) && (expected.all fun name => members.contains name) &&
    members.length == expected.length

def buildExport : Except String Package := do
  let authority ← loadAuthority p
  let status ← inspectExport p true
  require status.ready ("export is blocked: " ++ "; ".intercalate status.blockers)
  let artifacts ← releaseArtifacts p
  let ledgerPath ← managedFile p authority.population.ledger
  let ledger ← readLedger p ledgerPath
  let safeguard ← safeguardStatus p artifacts ledger.liveJobs true
  require (safeguard.state = .current) "export source safeguard failed full verification"
  let requireLedgerSha256 ← lookUp "require_ledger_sha256" authority.population.requireLedgerSha256
  require (requireLedgerSha256 = true → ∀ row ∈ artifacts, fileSha256 p row.artifactPath = row.artifactSha256)
    "FIDBF files failed ledger SHA-256"
  let _ ← managedPath p authority.outputRoot
  let builtAt ← lookUp "max() arg is an empty sequence" (artifacts.map Artifact.completedAt).max?
  let rows ← catalogue artifacts
  snapshotQuality p
  let names ← packagePaths p
  let validation ← managedFile p authority.validation.report
  let registry ← managedFile p authority.compatibility.laneRegistry
  let receipt ← managedFile p authority.safeguard.receipt
  let payload := fixedMembers p receipt validation registry names ++ artifacts.map (artifactMember p)
  let checksums := payload.map (checksumLine p)
  let payload := payload ++ [⟨"checksums.sha256", p.render .checksums⟩]
  let _ ← lookUp "compression_level" authority.compressionLevel
  let reopenArchive ← lookUp "reopen_archive" authority.reopenArchive
  require (reopenArchive = true → reopened payload = true) "reopened package member set differs from release payload"
  pure ⟨builtAt, payload.map fun member => { member with name := memberName member.name }, rows, checksums⟩

end Build

end FidbPoc.Exports
