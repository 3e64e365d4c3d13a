import FidbPoc.Retention.Records

namespace FidbPoc.Retention

open FidbPoc.Lib FidbPoc.Lib.Checked FidbPoc.Lib.Patterns

structure Artifact where
  path : Path
  sha256 : Sha256
  bytes : Nat
  deriving DecidableEq

/-- What verifying a completed job returns. -/
structure Verification where
  attemptRoot : Path
  artifacts : List (String × Artifact)
  sealSha256 : Sha256
  deriving DecidableEq

def Verification.artifact? (artifacts : List (String × Artifact)) (name : String) : Option Artifact :=
  (artifacts.find? fun artifact => artifact.1 = name).map Prod.snd

def raiseRetention {α : Type} (message : String) : Result α := .error (.retention message)

def verifyArtifact (t : Files) (policy : RetentionPolicy) (attemptRoot : Path) (result : Json.Fields)
    (name : String) : Result (String × Artifact) := do
  let record ← ((result.get? name).bind Json.fields?).elim
    (raiseRetention s!"completed result has no {name} artifact") .ok
  let rawPath ← ((record.get? "path").bind Json.str?).elim
    (raiseRetention s!"completed {name} artifact has no path") .ok
  let path ← safeRegular t policy.root (candidate policy.root rawPath) s!"completed {name}"
  require (attemptRoot <+: path) (.retention s!"completed {name} escapes its attempt root")
  verifyDigest t path (record.get? "sha256") s!"completed {name}"
  let file ← fileAt t path
  let relativePath ← relative t policy.root path
  pure (name, ⟨relativePath, file.sha256, file.size⟩)

/-- The `id` of a seal's cell; a cell that is no object has no `get`. -/
def sealedCell (document : Json.Fields) : Result (Option Json) :=
  match document.get? "cell" with
  | none => .ok none
  | some (.obj cell) => .ok (Json.Fields.get? cell "id")
  | some _ => .error (.attribute "get")

/-- One of the databases that the seal has to describe. -/
def verifySealed (sealedArtifacts : Json.Fields) (artifacts : List (String × Artifact)) (name : String) :
    Result Unit := do
  match (sealedArtifacts.get? name).bind Json.fields?, Verification.artifact? artifacts name with
  | some record, some retained =>
    require ((record.get? "sha256").any (Json.isText retained.sha256.text) ∧
        (record.get? "bytes").any (Json.isNumber retained.bytes))
      (.retention s!"cell seal {name} does not match retained result")
  | _, _ => raiseRetention s!"cell seal does not describe {name}"

def verifySeal (t : Files) (policy : RetentionPolicy) (result : Json.Fields) (artifacts : List (String × Artifact)) :
    Result Sha256 := do
  let record ← (Verification.artifact? artifacts "seal").elim (.error .assertion) .ok
  let document ← loadJson t (policy.root ++ record.path) "cell seal"
  require ((document.get? "schema_version").any (Json.isText "fidb-cell-seal/v1"))
    (.retention "completed cell seal has unsupported schema")
  let cell ← sealedCell document
  require (Json.sameOption cell (result.get? "cell_id"))
    (.retention "completed cell seal does not bind the ledger result")
  let sealedArtifacts ← ((document.get? "artifacts").bind Json.fields?).elim
    (raiseRetention "completed cell seal has no artifacts table") .ok
  verifySealed sealedArtifacts artifacts "fidb"
  verifySealed sealedArtifacts artifacts "fidbf"
  pure record.sha256

/-- The attempt root that a result names. -/
def verifyAttemptRoot (t : Files) (policy : RetentionPolicy) (job : Job) (result : Json.Fields) : Result Path := do
  let value ← ((result.get? "attempt_root").bind Json.str?).elim
    (raiseRetention "completed job has no attempt_root") .ok
  let attemptRoot ← inside t policy.root (candidate policy.root value) "completed attempt root"
  require (t.isDirectory attemptRoot ∧ t.isSymlink attemptRoot = false)
    (.retention s!"completed attempt root is unavailable: {showPath attemptRoot}")
  require (attemptRoot.dropLast.getLast?.getD "" = job.jobId)
    (.retention "completed attempt root does not match its ledger job")
  pure attemptRoot

def verifySuccess (t : Files) (policy : RetentionPolicy) (job : Job) : Result Verification := do
  let document ← job.result.elim (raiseRetention "completed job has invalid result JSON") .ok
  let result ← document.fields?.elim (raiseRetention "completed job result must be an object") .ok
  let attemptRoot ← verifyAttemptRoot t policy job result
  let artifacts ← policy.requiredResultArtifacts.mapM (verifyArtifact t policy attemptRoot result)
  let sealSha256 ← verifySeal t policy result artifacts
  pure ⟨attemptRoot, artifacts, sealSha256⟩

def receiptPath (policy : RetentionPolicy) (jobId : String) : Path :=
  policy.laneImportReceipts ++ [jobId ++ ".json"]

/-- A receipt that binds this attempt and its seal. -/
def bindsReceipt (receipt : Json.Fields) (jobId : String) (attemptRoot : String) (sealSha256 : Sha256) : Bool :=
  (receipt.get? "schema_version").any (Json.isText "fidb-lane-import-receipt/v1") &&
  (receipt.get? "job_id").any (Json.isText jobId) &&
  (receipt.get? "attempt_root").any (Json.isText attemptRoot) &&
  (receipt.get? "seal_sha256").any (Json.isText sealSha256.text) &&
  (receipt.get? "relationship_complete").any Json.isTrue &&
  ((receipt.get? "lane_generation").bind Json.str?).any fun text => text ≠ ""

/-- The text of a path below the root. -/
def showRelative (p : Path) : String := if p = [] then "." else "/".intercalate p

structure Receipt where
  valid : Bool
  error : Option String
  deriving DecidableEq

def validLaneReceipt (t : Files) (policy : RetentionPolicy) (jobId : String) (verification : Verification) :
    Result Receipt := do
  let path := receiptPath policy jobId
  if t.exists? path then
    let loaded ← catching do
      let regular ← safeRegular t policy.root path "lane import receipt"
      loadJson t regular "lane import receipt"
    match loaded with
    | .error message => pure ⟨false, some message⟩
    | .ok receipt =>
      let attemptRoot ← relative t policy.root verification.attemptRoot
      let valid := bindsReceipt receipt jobId (showRelative attemptRoot) verification.sealSha256
      pure ⟨valid, if valid then none else some "lane import receipt does not bind relationship-complete evidence"⟩
  else pure ⟨false, none⟩

/-- One path of `prune_after_receipt`, of one completed attempt. -/
def successScratch (t : Files) (policy : RetentionPolicy) (jobId : String) (attemptRoot : Path) (receiptVerified : Bool)
    (item : String) : Result Collected := do
  let target ← inside t policy.root (attemptRoot ++ parts item) "successful scratch target"
  if t.exists? target then
    let scanned ← catching (attemptStats t target policy.maximumScanFiles)
    let path ← relative t policy.root target
    match scanned with
    | .error reason =>
      pure (.quarantine { kind := "completed-scratch", jobId := some jobId, path := some path, reason })
    | .ok stats => pure (.act (.pruneSuccessScratch jobId path receiptVerified stats))
  else pure {}

/-- What becomes of a verified attempt that no hold protects. -/
def collectSuccess (t : Files) (policy : RetentionPolicy) (jobId : String) (verification : Verification) :
    Result Collected := do
  let receipt ← validLaneReceipt t policy jobId verification
  let refused : Collected := match receipt.error with
    | some reason => .quarantine { kind := "lane-import-receipt", jobId := some jobId, reason }
    | none => {}
  if policy.preserveUntilLaneImported ∧ ¬receipt.valid then
    let path ← relative t policy.root verification.attemptRoot
    pure (refused.append (.preserve
      { kind := "completed-attempt", jobId := some jobId, path := some path
        reason := "awaiting-relationship-complete-lane-import" }))
  else
    let targets ← policy.pruneAfterReceipt.mapM (successScratch t policy jobId verification.attemptRoot receipt.valid)
    pure (refused.append (.concat targets))

def completedJob (t : Files) (policy : RetentionPolicy) (holds : List RetentionHold) (job : Job) : Result Collected := do
  if job.state = .complete then
    let verified ← catching (verifySuccess t policy job)
    match verified with
    | .error reason => pure (.quarantine { kind := "completed-attempt", jobId := some job.jobId, reason })
    | .ok verification =>
      match holdFor holds job.jobId none with
      | some hold =>
        let path ← relative t policy.root verification.attemptRoot
        pure (Collected.preserve
          { kind := "completed-attempt", jobId := some job.jobId, path := some path, reason := s!"hold:{hold.id}"
            detail := some hold.reason }).verified
      | none =>
        let collected ← collectSuccess t policy job.jobId verification
        pure collected.verified
  else pure {}

end FidbPoc.Retention
