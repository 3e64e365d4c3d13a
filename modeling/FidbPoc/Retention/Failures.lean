import FidbPoc.Lib.Leaders
import FidbPoc.Retention.Success
import Mathlib.Data.Prod.Lex

namespace FidbPoc.Retention

open FidbPoc.Lib FidbPoc.Lib.Checked FidbPoc.Lib.Leaders FidbPoc.Lib.Patterns

/-- A plan before it is digested. -/
structure PlanBasis where
  settings : PolicySettings
  paths : PolicyPaths Path
  ledger : LedgerFingerprint
  scope : Scope
  trigger : String
  sessionId : String
  batchId : Option String
  collected : Collected

/-- The digests, and the file that a document is written to. -/
structure Hashing where
  fingerprint : FailureEvidence → Sha256
  retained : List RetainedFile → Sha256
  plan : PlanBasis → Sha256
  render : Json → FileData
  render_json : ∀ document, (render document).json = some document

def stagingRoot (policy : RetentionPolicy) : Path := policy.runs ++ ["staging"]

/-- What precedes the random part in the name of an attempt's staging directory. -/
def stagingMark (jobId : String) (generation : Nat) : List Char :=
  jobId.toList ++ "-g".toList ++ (toString generation).toList ++ "-".toList

/-- `sorted(policy.runs.glob(f"staging/{job_id}-g{generation}-*"))`. -/
def stagingMatches (t : Files) (policy : RetentionPolicy) (jobId : String) (generation : Nat) : List Path :=
  (((t.listing (stagingRoot policy)).filter fun name => stagingMark jobId generation <+: name.toList).insertionSort
    fun a b => a ≤ b).map fun name => stagingRoot policy ++ [name]

def normaliseFailure (value : String) (attemptRoot : Path) : String :=
  replaceAttempts (replace value (showPath attemptRoot) "<attempt-root>") "<attempt>"

def failureEvidence (attempt : Attempt) (stages : List StageAttempt) (attemptRoot : Path) : FailureEvidence :=
  { attemptState := attempt.state
    attemptError := normaliseFailure (attempt.error.getD "") attemptRoot
    failedStages := (stages.filter fun s => isFailedStage s.state).map fun s =>
      ⟨s.stage, s.state, normaliseFailure (s.error.getD "") attemptRoot⟩ }

/-- Whether the policy selects a file of an attempt as evidence. -/
def isEvidence (policy : RetentionPolicy) (relativePath : Path) : Bool :=
  policy.evidenceGlobs.any (fnmatch ("/".intercalate relativePath))

def selectEvidence (t : Files) (policy : RetentionPolicy) (top : Path) (selected : List EvidenceFile) (member : Path) :
    Except String (List EvidenceFile) :=
  match t.node? member with
  | some (.file content) =>
    let relativePath := member.drop top.length
    if (selected.any fun file => file.relativePath = relativePath) ∨ ¬isEvidence policy relativePath then .ok selected
    else if policy.maxEvidenceFileBytes < content.size then
      .error s!"evidence file exceeds {policy.maxEvidenceFileBytes} bytes: {showRelative relativePath}"
    else .ok (selected ++ [⟨relativePath, content.size, content.sha256⟩])
  | _ => .ok selected

/-- `_evidence_files`: the selected files, or why they cannot be kept. -/
def evidenceFiles (t : Files) (policy : RetentionPolicy) (attemptRoot : Path) : Except String (List EvidenceFile) := do
  let members := (t.walk attemptRoot).flatMap fun visit => visit.filenames.map fun name => visit.directory ++ [name]
  let selected ← members.foldlM (selectEvidence t policy ((t.resolve attemptRoot).getD [])) []
  pure (selected.insertionSort fun a b => showRelative a.relativePath ≤ showRelative b.relativePath)

/-- A failed attempt with its staging directory. -/
structure Candidate where
  attempt : Attempt
  root : Path
  stages : List StageAttempt
  fingerprint : Sha256
  evidence : FailureEvidence

/-- What looking up one failed attempt yields. -/
structure Examined where
  known : List Path
  collected : Collected
  candidate : Option Candidate

section

variable (t : Files) (hashing : Hashing) (policy : RetentionPolicy) (ledger : Ledger) (holds : List RetentionHold)

/-- A note about one failed attempt. -/
def attemptNote (attempt : Attempt) (path : Option Path) (reason : String) : Note :=
  { kind := "failed-attempt", jobId := some attempt.jobId, attemptNumber := some attempt.attemptNumber, path, reason }

def candidateOf (attempt : Attempt) (root : Path) : Candidate :=
  let stages := stagesOf ledger attempt.attemptId
  let evidence := failureEvidence attempt stages root
  ⟨attempt, root, stages, hashing.fingerprint evidence, evidence⟩

def examineAttempt (attempt : Attempt) : Result Examined :=
  match stagingMatches t policy attempt.jobId attempt.leaseGeneration with
  | [root] => do
    let known ← (t.resolve root).elim (.error .loop) .ok
    match holdFor holds attempt.jobId (some attempt.attemptNumber) with
    | some hold =>
      let path ← relative t policy.root root
      let note := { attemptNote attempt (some path) s!"hold:{hold.id}" with detail := some hold.reason }
      pure ⟨[known], .preserve note, none⟩
    | none => pure ⟨[known], {}, some (candidateOf hashing ledger attempt root)⟩
  | found =>
    pure ⟨[], .quarantine (attemptNote attempt none s!"expected one staging directory, found {found.length}"), none⟩

/-- The latest of the candidates. -/
def representative (candidates : List Candidate) : Option Candidate :=
  candidates.foldl (keepBest fun c => toLex (c.attempt.attemptNumber, c.attempt.attemptId)) none

/-- Whether a candidate is another attempt than the representative, with its failure. -/
def collapses (rep c : Candidate) : Bool :=
  policy.collapseIdenticalRetries && decide (c.fingerprint = rep.fingerprint)

def others (candidates : List Candidate) (rep : Candidate) : List Candidate :=
  candidates.filter fun c => c.attempt.attemptId ≠ rep.attempt.attemptId

/-- The candidates that one bundle stands for, the representative first. -/
def collapsible (candidates : List Candidate) (rep : Candidate) : List Candidate :=
  rep :: (others candidates rep).filter fun c => collapses policy rep c

def differing (candidates : List Candidate) (rep : Candidate) : List Candidate :=
  (others candidates rep).filter fun c => !collapses policy rep c

/-- A note that names the directory of a candidate. -/
def candidateNote (reason : String) (c : Candidate) : Result Note := do
  let path ← relative t policy.root c.root
  pure (attemptNote c.attempt (some path) reason)

def differingNote (c : Candidate) : Result Note := do
  let note ← candidateNote t policy "failure fingerprint differs from retained representative" c
  pure { note with failureFingerprint := some c.fingerprint }

/-- A scan of a group: the totals, or the first member that is refused. -/
inductive GroupScan
  | scanned (stats : Stats)
  | refused (member : Candidate) (reason : String)

def scanGroup : List Candidate → Stats → Result GroupScan
  | [], stats => pure (.scanned stats)
  | c :: rest, stats => do
    let scanned ← catching (attemptStats t c.root policy.maximumScanFiles)
    match scanned with
    | .error reason => pure (.refused c reason)
    | .ok more => scanGroup rest (stats.add more)

def jsonOf (document : Option Json) : Result Json := document.elim (.error (.value "invalid JSON")) .ok

def stageEvidence (c : Candidate) : Result StageEvidence := do
  let failedStages ← (c.stages.filter fun s => isFailedStage s.state).mapM fun s => do
    let details ← jsonOf s.details
    let metrics ← jsonOf s.metrics
    pure (⟨⟨s.stage, s.state, normaliseFailure (s.error.getD "") c.root⟩, details, metrics⟩ : StageRecord)
  pure
    { attemptNumber := c.attempt.attemptNumber
      attemptId := c.attempt.attemptId
      state := c.attempt.state
      startedAt := c.attempt.startedAt
      endedAt := c.attempt.endedAt
      error := normaliseFailure (c.attempt.error.getD "") c.root
      failedStages }

/-- Where the bundle of a representative is written. -/
def bundleRoot (jobId : String) (rep : Candidate) : Path :=
  policy.failureBundles ++
    [jobId, String.ofList (rep.fingerprint.text.toList.take 16), s!"attempt-{rep.attempt.attemptId}"]

def bundleOf (job : Job) (rep : Candidate) (group : List Candidate) (files : List EvidenceFile) (stats : Stats) :
    Result Bundle := do
  let sourcePaths ← group.mapM fun c => relative t policy.root c.root
  let bundlePath ← relative t policy.root (bundleRoot policy job.jobId rep)
  let stageEvidence ← group.mapM stageEvidence
  pure
    { jobId := job.jobId
      jobState := job.state
      batchId := job.batchId
      baseCellId := job.baseCellId
      representativeAttemptId := rep.attempt.attemptId
      representativeAttemptNumber := rep.attempt.attemptNumber
      failureFingerprint := rep.fingerprint
      failureEvidence := rep.evidence
      sourcePaths
      collapsedAttempts := group.map (·.attempt.attemptNumber)
      bundlePath
      evidenceFiles := files
      stageEvidence
      stats }

/-- What becomes of the candidates that share the representative's failure. -/
def collectGroup (job : Job) (rep : Candidate) (group : List Candidate) : Result Collected :=
  if policy.retainLatestEvidenceBundle then
    match evidenceFiles t policy rep.root with
    | .error reason => do
      let note ← candidateNote t policy reason rep
      pure (.quarantine note)
    | .ok files => do
      let scan ← scanGroup t policy group Stats.zero
      match scan with
      | .refused member reason =>
        let note ← candidateNote t policy reason member
        pure (.quarantine note)
      | .scanned stats =>
        let bundle ← bundleOf t policy job rep group files stats
        pure (.act (.bundleFailedAttempts bundle))
  else do
    let notes ← group.mapM (candidateNote t policy "failure bundling disabled")
    pure { preserved := notes }

def collectCandidates (job : Job) (candidates : List Candidate) : Result Collected :=
  match representative candidates with
  | none => pure {}
  | some rep => do
    let notes ← (differing policy candidates rep).mapM (differingNote t policy)
    let collected ← collectGroup t policy job rep (collapsible policy candidates rep)
    pure (Collected.append { quarantined := notes } collected)

def failedAttemptsOf (jobId : String) : List Attempt := (attemptsOf ledger jobId).filter fun a => isFailed a.state

/-- The failed attempts of one job, and the staging directories they own. -/
structure FailedJob where
  known : List Path
  collected : Collected

def failedJob (job : Job) : Result FailedJob := do
  let examined ← (failedAttemptsOf ledger job.jobId).mapM (examineAttempt t hashing policy ledger holds)
  let collected ← collectCandidates t policy job (examined.filterMap (·.candidate))
  pure ⟨examined.flatMap (·.known), (Collected.concat (examined.map (·.collected))).append collected⟩

/-- One entry of the staging root, checked against the directories that failed attempts own. -/
def unknownStaging (known : List Path) (name : String) : Result Collected := do
  let path := stagingRoot policy ++ [name]
  if ¬t.isDirectory path ∨ t.isSymlink path then
    let place ← relative t policy.root path
    pure (.quarantine
      { kind := "unknown-staging", path := some place, reason := "non-directory or symlink in staging root" })
  else
    let resolved ← (t.resolve path).elim (.error .loop) .ok
    if resolved ∈ known then pure {}
    else
      let place ← relative t policy.root path
      pure (.quarantine
        { kind := "unknown-staging", path := some place
          reason := if isStagingName name then "no unique failed ledger attempt owns staging directory"
            else "unrecognised staging directory name" })

end

end FidbPoc.Retention
