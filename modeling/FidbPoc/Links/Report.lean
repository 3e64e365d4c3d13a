import FidbPoc.Links.Prepared

namespace FidbPoc.Links

open Lib

/-- What an attempt to prepare a cell came to. The digests are the marker's own. -/
inductive Outcome
  | qualified (preparedPath : String) (truthSha256 querySha256 : Json) (linkAuditSha256 : String)
  | failed (fingerprint : Fingerprint) (error : Fault) (failureEvidencePath : String)

def Outcome.isQualified : Outcome → Bool
  | .qualified .. => true
  | .failed .. => false

structure Attempt where
  id : String
  position : Nat
  fold : Fold
  routeId : String
  treatmentId : String
  outcome : Outcome

structure Summary where
  total : Nat
  qualified : Nat
  failed : Nat
  remaining : Nat
  deriving DecidableEq

structure CircuitBreaker where
  threshold : Nat
  isOpen : Bool
  failureFingerprint : Option String
  reasonCode : Option String
  observed : Nat

structure Seal where
  schemaVersion : String
  qualificationDigest : String
  deriving DecidableEq

inductive ReportState
  | incomplete
  | qualified
  | circuitOpen
  | failed
  deriving DecidableEq

def ReportState.text : ReportState → String
  | .incomplete => "incomplete"
  | .qualified => "qualified"
  | .circuitOpen => "circuit-open"
  | .failed => "failed"

/-- The fields by which a report belongs to a plan. -/
structure Identity where
  schemaVersion : String
  qualificationId : String
  authoritySha256 : String
  runtimeAuthoritySha256 : String
  inputDigest : String
  deriving DecidableEq

structure Report where
  identity : Identity
  state : ReportState
  summary : Summary
  circuitBreaker : CircuitBreaker
  attempts : List Attempt
  sealing : Option Seal

def reportSchema : String := "fidb-machine-validation-link-qualification-report/v1"

def sealSchema : String := "fidb-machine-validation-link-qualification-seal/v1"

def Plan.identity (plan : Plan) : Identity :=
  ⟨reportSchema, plan.id, plan.authoritySha256, plan.runtimeAuthoritySha256, plan.inputDigest⟩

def closedBreaker (plan : Plan) : CircuitBreaker := ⟨plan.identicalFailureLimit, false, none, none, 0⟩

def newReport (plan : Plan) : Report where
  identity := plan.identity
  state := .incomplete
  summary := ⟨plan.cells.length, 0, 0, plan.cells.length⟩
  circuitBreaker := closedBreaker plan
  attempts := []
  sealing := none

/-- The attempts that are looked at: those with an id. -/
def listedAttempts (attempts : List Attempt) : List Attempt := attempts.filter fun row => row.id ≠ ""

/-- A later attempt stands for the earlier ones of its cell. -/
def latestAttempt (attempts : List Attempt) (id : String) : Option Attempt :=
  (listedAttempts attempts).reverse.find? fun row => row.id = id

def isQualified (attempts : List Attempt) (cell : Cell) : Bool :=
  (latestAttempt attempts cell.id).any fun row => row.outcome.isQualified

section Sealing

variable {plan : Plan} (project : Project plan)

def sealedOutput (row : Attempt) : Except Fault Json :=
  match row.outcome with
  | .failed .. => .error (.key "prepared_path")
  | .qualified preparedPath truthSha256 querySha256 linkAuditSha256 =>
    .ok (.obj [("id", .str row.id), ("position", .int row.position), ("fold", .str row.fold.text),
      ("route_id", .str row.routeId), ("treatment_id", .str row.treatmentId), ("prepared_path", .str preparedPath),
      ("truth_sha256", truthSha256), ("query_sha256", querySha256), ("link_audit_sha256", .str linkAuditSha256)])

def cellOutput (attempts : List Attempt) (cell : Cell) : Except Fault Json :=
  match latestAttempt attempts cell.id with
  | none => .error (.key cell.id)
  | some row => sealedOutput row

def sealBody (plan : Plan) (attempts : List Attempt) : Except Fault Json := do
  let outputs ← plan.cells.mapM (cellOutput attempts)
  pure (.obj [("schema_version", .str sealSchema), ("qualification_id", .str plan.id),
    ("validation_id", .str plan.validationId), ("authority_sha256", .str plan.authoritySha256),
    ("runtime_authority_sha256", .str plan.runtimeAuthoritySha256), ("input_digest", .str plan.inputDigest),
    ("outputs", .arr outputs)])

def countQualified (plan : Plan) (attempts : List Attempt) : Nat := plan.cells.countP (isQualified attempts)

def countFailed (plan : Plan) (attempts : List Attempt) : Nat :=
  plan.cells.countP fun cell => (latestAttempt attempts cell.id).any fun row => !row.outcome.isQualified

def summaryOf (plan : Plan) (attempts : List Attempt) : Summary where
  total := plan.cells.length
  qualified := countQualified plan attempts
  failed := countFailed plan attempts
  remaining := plan.cells.length - countQualified plan attempts - countFailed plan attempts

def unsealedState (summary : Summary) (breaker : CircuitBreaker) : ReportState :=
  if breaker.isOpen then .circuitOpen
  else if summary.remaining = 0 ∧ summary.failed ≠ 0 then .failed
  else .incomplete

/-- `_summarize`: everything but the attempts and the breaker is made anew. -/
def summarize (report : Report) : Except Fault Report :=
  let summary := summaryOf plan report.attempts
  if summary.qualified = plan.cells.length then do
    let body ← sealBody plan report.attempts
    pure { report with summary, state := .qualified, sealing := some ⟨sealSchema, project.canonicalDigest body⟩ }
  else
    pure { report with summary, state := unsealedState summary report.circuitBreaker, sealing := none }

end Sealing

section Running

variable {plan : Plan} (project : Project plan) (toolchain : Toolchain)

/-- The row of a preparation that went through: what the marker says now. -/
def preparedRow (cell : Cell) (files : Files) : Except Fault Outcome := do
  let found ← loadPreparedFold project cell files (preparedFoldPath plan cell)
  match found with
  | none => .error (.runtime "prepared link marker is unavailable after qualification")
  | some prepared => do
    let truthSha256 ← field prepared "truth_sha256"
    let querySha256 ← field prepared "query_sha256"
    let linkAudit ← field prepared "link_audit"
    pure (.qualified (preparedFoldPath plan cell) truthSha256 querySha256 (project.canonicalDigest linkAudit))

def failedOutcome (cell : Cell) (error : Fault) : Outcome :=
  .failed (project.failureFingerprint error) error s!"{unitRoot plan cell}/fold-{cell.fold.text}"

def outcomeOf (cell : Cell) (prepared : Files × Option Fault) : Outcome :=
  match prepared.2 with
  | some error => failedOutcome project cell error
  | none =>
    match preparedRow project cell prepared.1 with
    | .error error => failedOutcome project cell error
    | .ok outcome => outcome

/-- `_qualify_position` for one fold: the files it leaves, and its row. -/
def qualifyPosition (cell : Cell) (files : Files) : Files × Attempt :=
  let prepared := preparePosition project cell files toolchain "full"
  (prepared.1, ⟨cell.id, cell.position, cell.fold, cell.routeId, cell.treatmentId, outcomeOf project cell prepared⟩)

/-- The files of every cell, by its id. -/
abbrev Outputs := String → Files

structure RunState where
  report : Report
  outputs : Outputs
  /-- the fingerprints of this run's failures -/
  failures : List String
  /-- what stood at the report path, one write after the other -/
  written : List Report

/-- A failure counts towards the breaker of its fingerprint. -/
def observe (breaker : CircuitBreaker) (threshold : Nat) (failures : List String) :
    Outcome → CircuitBreaker × List String
  | .qualified .. => (breaker, failures)
  | .failed fingerprint _ _ =>
    let failures := fingerprint.failureFingerprint :: failures
    let observed := failures.count fingerprint.failureFingerprint
    if threshold ≤ observed then
      (⟨threshold, true, some fingerprint.failureFingerprint, some fingerprint.reasonCode, observed⟩, failures)
    else (breaker, failures)

/-- One future of a batch: its row is recorded and the report written. -/
def record (state : RunState) (cell : Cell) : Except Fault RunState := do
  let result := qualifyPosition project toolchain cell (state.outputs cell.id)
  let seen := observe state.report.circuitBreaker plan.identicalFailureLimit state.failures result.2.outcome
  let report ← summarize project
    { state.report with attempts := state.report.attempts ++ [result.2], circuitBreaker := seen.1 }
  pure ⟨report, Function.update state.outputs cell.id result.1, seen.2, state.written ++ [report]⟩

/-- The order in which the futures of a batch complete. -/
structure Completion where
  order : List Cell → List Cell
  perm : ∀ batch, (order batch).Perm batch

/-- The slices at the offsets that `range(0, len(xs), size)` gives. -/
def batches {α : Type} (size : Nat) (xs : List α) : List (List α) :=
  (List.range ((xs.length + size - 1) / size)).map fun i => (xs.drop (i * size)).take size

def runBatches (completion : Completion) : List (List Cell) → RunState → Except Fault RunState
  | [], state => pure state
  | batch :: rest, state => do
    let state ← (completion.order batch).foldlM (record project toolchain) state
    if state.report.circuitBreaker.isOpen then pure state else runBatches completion rest state

def cellOrder (left right : Cell) : Bool :=
  decide (left.position < right.position ∨ left.position = right.position ∧ left.fold.text ≤ right.fold.text)

def pendingCells (plan : Plan) (attempts : List Attempt) : List Cell :=
  (plan.cells.filter fun cell => !isQualified attempts cell).mergeSort cellOrder

/-- The report that a run goes on with. -/
def openReport (plan : Plan) : Option Report → Except Fault Report
  | none => .ok (newReport plan)
  | some report =>
    if report.identity = plan.identity then .ok report
    else .error (.value "link-qualification report identity is invalid")

def isSettled (stored : Option Report) : Bool := stored.any fun report => report.state = .qualified

def runLinkQualification (completion : Completion) (outputs : Outputs) (stored : Option Report) :
    Except Fault RunState := do
  let report ← openReport plan stored
  if isSettled stored then pure ⟨report, outputs, [], []⟩
  else
    let done ← runBatches project toolchain completion (batches plan.batchSize (pendingCells plan report.attempts))
      ⟨{ report with circuitBreaker := closedBreaker plan }, outputs, [], []⟩
    let report ← summarize project done.report
    pure { done with report, written := done.written ++ [report] }

end Running

section Status

variable {plan : Plan} (project : Project plan)

structure Status where
  state : String
  summary : Summary
  satisfied : Bool
  qualificationDigest : Option String
  blockers : List String
  deriving DecidableEq

def unsatisfied (plan : Plan) (state blocker : String) : Status :=
  ⟨state, ⟨plan.cells.length, 0, 0, plan.cells.length⟩, false, none, [blocker]⟩

/-- The recorded digests are those of the binaries and of the audit that stand there now. -/
def sameOutput (files : Files) (prepared : Json.Fields) (truthSha256 querySha256 : Json) (linkAuditSha256 : String) :
    Except Fault Bool :=
  match namedBinary project files prepared "truth_binary", namedBinary project files prepared "query_binary" with
  | some truth, some query =>
    if (Json.str truth.sha256).same truthSha256 && (Json.str query.sha256).same querySha256 then do
      let linkAudit ← field prepared "link_audit"
      pure (decide (project.canonicalDigest linkAudit = linkAuditSha256))
    else .ok false
  | _, _ => .ok false

def verifyOutput (cell : Cell) (files : Files) : Outcome → Except Fault Bool
  | .failed .. => .ok true
  | .qualified preparedPath truthSha256 querySha256 linkAuditSha256 =>
    if preparedPath = "" then .ok false
    else
      match project.inside (.str preparedPath) with
      | none => .error (.value "prepared link escapes the project root")
      | some path => do
        let found ← loadPreparedFold project cell files path
        match found with
        | none => .ok false
        | some prepared => sameOutput project files prepared truthSha256 querySha256 linkAuditSha256

/-- A cell without a qualified row has no output to verify. -/
def verifyCell (outputs : Outputs) (attempts : List Attempt) (cell : Cell) : Except Fault Bool :=
  match latestAttempt attempts cell.id with
  | none => .ok true
  | some row => verifyOutput project cell (outputs cell.id) row.outcome

def summaryBlockers (summary : Summary) (invalidOutputs : Nat) : List String :=
  (if invalidOutputs = 0 then [] else [s!"{invalidOutputs} qualified link outputs failed verification"]) ++
    (if summary.failed = 0 then [] else [s!"{summary.failed} link cells failed"]) ++
    (if summary.remaining = 0 then [] else [s!"{summary.remaining} link cells remain"])

def expectedSeal (report : Report) : Except Fault (Option String) :=
  if report.summary.qualified = plan.cells.length then do
    let body ← sealBody plan report.attempts
    pure (some (project.canonicalDigest body))
  else pure none

def isSealed (report : Report) (expected : Option String) : Bool :=
  report.sealing.any fun s => s.schemaVersion = sealSchema ∧ some s.qualificationDigest = expected

def gate (plan : Plan) (report : Report) (invalidOutputs : Nat) (expected : Option String) : Status :=
  let sealed := isSealed report expected
  let blockers := summaryBlockers report.summary invalidOutputs ++
    (if !sealed ∧ report.summary.qualified = plan.cells.length then ["complete link outputs lack a valid seal"] else [])
  let satisfied := blockers.isEmpty && sealed
  ⟨if satisfied then "qualified" else report.state.text, report.summary, satisfied,
    if satisfied then expected else none, blockers⟩

def linkQualificationStatus (outputs : Outputs) : Option Report → Except Fault Status
  | none => .ok (unsatisfied plan "required" "link qualification has not run")
  | some report =>
    if report.identity ≠ plan.identity then
      .ok (unsatisfied plan "invalid" "qualification report identity is stale or invalid")
    else if (listedAttempts report.attempts).any fun row => row.id ∉ plan.cells.map Cell.id then
      .ok (unsatisfied plan "invalid" "qualification report contains unexpected cells")
    else do
      let verified ← plan.cells.mapM (verifyCell project outputs report.attempts)
      let expected ← expectedSeal project report
      pure (gate plan report (verified.count false) expected)

end Status

end FidbPoc.Links
