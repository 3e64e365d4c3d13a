import FidbPoc.Retention.Ledger

namespace FidbPoc.Retention

open FidbPoc.Lib
open FidbPoc.Coordinator (JobState AttemptState SpanState)

structure Stats where
  files : Nat
  directories : Nat
  apparentBytes : Nat
  allocatedBytes : Nat
  deriving DecidableEq

namespace Stats

def zero : Stats := ⟨0, 0, 0, 0⟩

def add (a b : Stats) : Stats :=
  ⟨a.files + b.files, a.directories + b.directories, a.apparentBytes + b.apparentBytes,
    a.allocatedBytes + b.allocatedBytes⟩

def ofFile (file : FileData) : Stats := ⟨1, 0, file.size, file.blocks * 512⟩

end Stats

structure FailedStage where
  stage : String
  state : SpanState
  error : String
  deriving DecidableEq

/-- What a failure fingerprint is taken of. -/
structure FailureEvidence where
  attemptState : AttemptState
  attemptError : String
  failedStages : List FailedStage
  deriving DecidableEq

structure EvidenceFile where
  relativePath : Path
  bytes : Nat
  sha256 : Sha256
  deriving DecidableEq

structure StageRecord extends FailedStage where
  details : Json
  metrics : Json

structure StageEvidence where
  attemptNumber : Nat
  attemptId : Nat
  state : AttemptState
  startedAt : String
  endedAt : Option String
  error : String
  failedStages : List StageRecord

/-- The fields of a `bundle-failed-attempts` action. -/
structure Bundle where
  jobId : String
  jobState : JobState
  batchId : String
  baseCellId : String
  representativeAttemptId : Nat
  representativeAttemptNumber : Nat
  failureFingerprint : Sha256
  failureEvidence : FailureEvidence
  sourcePaths : List Path
  collapsedAttempts : List Nat
  bundlePath : Path
  evidenceFiles : List EvidenceFile
  stageEvidence : List StageEvidence
  stats : Stats

/-- What the evidence digest of a validation run is updated with for one file. -/
structure RetainedFile where
  relativePath : Path
  sha256 : Sha256
  bytes : Nat
  deriving DecidableEq

inductive Mode
  | canary | full
  deriving DecidableEq

structure ValidationRecord where
  validationId : Json
  runId : Json
  mode : Mode
  reportPath : Path
  reportSha256 : Sha256
  expectedWorkUnits : Int
  folds : Nat
  retained : List RetainedFile
  retainedEvidenceSha256 : Sha256
  compositePaths : List Path
  compositePruneBlockers : List String

/-- The three kinds of pruning; validation prunes carry the record of their run. -/
inductive Action
  | bundleFailedAttempts (bundle : Bundle)
  | pruneSuccessScratch (jobId : String) (target : Path) (receiptVerified : Bool) (stats : Stats)
  | pruneValidationScratch (record : ValidationRecord) (paths : List Path) (stats : Stats)
  | pruneValidationComposites (record : ValidationRecord) (paths : List Path) (stats : Stats)

namespace Action

def bundle? : Action → Option Bundle
  | .bundleFailedAttempts bundle => some bundle
  | _ => none

/-- The paths that an action deletes, below the root. -/
def paths : Action → List Path
  | .bundleFailedAttempts bundle => bundle.sourcePaths
  | .pruneSuccessScratch _ target _ _ => [target]
  | .pruneValidationScratch _ paths _ => paths
  | .pruneValidationComposites _ paths _ => paths

def stats : Action → Stats
  | .bundleFailedAttempts bundle => bundle.stats
  | .pruneSuccessScratch _ _ _ stats => stats
  | .pruneValidationScratch _ _ stats => stats
  | .pruneValidationComposites _ _ stats => stats

end Action

/-- A row of `preserved` or `quarantined`; the fields vary with the kind. -/
structure Note where
  kind : String
  jobId : Option String := none
  attemptNumber : Option Nat := none
  path : Option Path := none
  runId : Option Json := none
  reason : String
  detail : Option String := none
  failureFingerprint : Option Sha256 := none
  evidenceSha256 : Option Sha256 := none

/-- What a pass over the state adds to a plan, and how many results it verified. -/
structure Collected where
  actions : List Action := []
  preserved : List Note := []
  quarantined : List Note := []
  verifiedSuccesses : Nat := 0
  verifiedValidationRuns : Nat := 0

namespace Collected

def append (a b : Collected) : Collected :=
  ⟨a.actions ++ b.actions, a.preserved ++ b.preserved, a.quarantined ++ b.quarantined,
    a.verifiedSuccesses + b.verifiedSuccesses, a.verifiedValidationRuns + b.verifiedValidationRuns⟩

def concat (passes : List Collected) : Collected := passes.foldr append {}

def preserve (note : Note) : Collected := { preserved := [note] }

def quarantine (note : Note) : Collected := { quarantined := [note] }

def act (action : Action) : Collected := { actions := [action] }

def verified (collected : Collected) : Collected :=
  { collected with verifiedSuccesses := collected.verifiedSuccesses + 1 }

variable (a b : Collected) (passes : List Collected)

@[simp] theorem actions_append : (a.append b).actions = a.actions ++ b.actions := rfl

@[simp] theorem preserved_append : (a.append b).preserved = a.preserved ++ b.preserved := rfl

@[simp] theorem quarantined_append : (a.append b).quarantined = a.quarantined ++ b.quarantined := rfl

@[simp] theorem actions_concat : (concat passes).actions = passes.flatMap (·.actions) := by
  induction passes with
  | nil => rfl
  | cons pass passes ih => exact congrArg (pass.actions ++ ·) ih

@[simp] theorem preserved_concat : (concat passes).preserved = passes.flatMap (·.preserved) := by
  induction passes with
  | nil => rfl
  | cons pass passes ih => exact congrArg (pass.preserved ++ ·) ih

@[simp] theorem quarantined_concat : (concat passes).quarantined = passes.flatMap (·.quarantined) := by
  induction passes with
  | nil => rfl
  | cons pass passes ih => exact congrArg (pass.quarantined ++ ·) ih

end Collected

section Scan

open FidbPoc.Lib.Checked

/-- One member of a tree that is scanned before it may be deleted. -/
def scanFile (t : Files) (maximumFiles : Int) (stats : Stats) (member : Path) : Result Stats :=
  match t.node? member with
  | some (.file content) => do
    let stats := stats.add (Stats.ofFile content)
    require ((stats.files : Int) ≤ maximumFiles) (.retention "retention scan exceeded maximum_scan_files")
    pure stats
  | _ => .error (.retention s!"refusing non-regular retention member: {showPath member}")

def scanVisit (t : Files) (maximumFiles : Int) (stats : Stats) (visit : FileTree.Visit) : Result Stats :=
  match (visit.directories.map fun name => visit.directory ++ [name]).find? t.isSymlink with
  | some member => .error (.retention s!"refusing tree containing symlinked directory: {showPath member}")
  | none =>
    (visit.filenames.map fun name => visit.directory ++ [name]).foldlM (scanFile t maximumFiles)
      (stats.add ⟨0, 1, 0, 0⟩)

def attemptStats (t : Files) (path : Path) (maximumFiles : Int) : Result Stats := do
  require (t.isSymlink path = false) (.retention s!"refusing symlinked retention target: {showPath path}")
  (t.walk path).foldlM (scanVisit t maximumFiles) Stats.zero

def retentionTargetStats (t : Files) (path : Path) (maximumFiles : Int) : Result Stats := do
  require (t.isSymlink path = false) (.retention s!"refusing symlinked retention target: {showPath path}")
  match t.stat path with
  | some (.file content) => pure (Stats.ofFile content)
  | some .directory => attemptStats t path maximumFiles
  | _ => .error (.retention s!"refusing non-regular retention target: {showPath path}")

end Scan

end FidbPoc.Retention
