import FidbPoc.Coordinator.Lease

namespace FidbPoc.Coordinator

open FidbPoc.Lib.Checked

def StageStatus.text : StageStatus → String
  | .started => "started"
  | .completed => "completed"
  | .failed => "failed"
  | .skipped => "skipped"

def stageStatus (status : String) : Result StageStatus :=
  if status = "started" then pure .started
  else if status = "completed" then pure .completed
  else if status = "failed" then pure .failed
  else if status = "skipped" then pure .skipped
  else .error (.value "stage status must be one of: started, completed, failed, skipped")

/-- `_stage_duration_ns`: the duration a worker may report for a status. -/
def stageDurationNs (value : Option Int) (status : StageStatus) : Result (Option Nat) :=
  match status, value with
  | .started, none => pure none
  | .started, some _ => .error (.value "duration_ns must be omitted for a started stage")
  | _, none => .error (.value "duration_ns must be a non-negative signed 64-bit integer for a terminal stage")
  | status, some n => do
    require (0 ≤ n ∧ n ≤ maxDurationNs)
      (.value "duration_ns must be a non-negative signed 64-bit integer for a terminal stage")
    require (status = .skipped → n = 0) (.value "duration_ns must be zero for a skipped stage")
    pure (some n.toNat)

def utcTimestamp (value : WireTimestamp) (context : String) : Result Time :=
  match value with
  | some t => pure t
  | none => .error (.value s!"{context} must be a valid UTC timestamp")

def suppliedOr (value : Option WireTimestamp) (context : String) (recordedAt : Time) : Result Time :=
  match value with
  | some t => utcTimestamp t context
  | none => pure recordedAt

def stageEndedAt (status : StageStatus) (details : StageDetails) (recordedAt startedAt : Time) :
    Result (Option Time) :=
  match status with
  | .started => do
    require (details.finishedAt = none) (.value "a started stage cannot have finished_at")
    pure none
  | status => do
    let endedAt ← suppliedOr details.finishedAt "stage finished_at" recordedAt
    require (status = .skipped → startedAt = endedAt)
      (.value "a skipped stage must have identical start and finish timestamps")
    pure (some endedAt)

def noDetails : StageDetails := ⟨none, none, none, "\x7b\x7d", "\x7b\x7d"⟩

/-- A stage report after the checks that precede the transaction. -/
structure StageReport where
  stage : String
  status : StageStatus
  durationNs : Option Nat
  details : StageDetails
  startedAt : Time
  endedAt : Option Time

def checkStage (stage status : String) (durationNs : Option Int) (details : Option StageDetails) (now : Time) :
    Result StageReport := do
  let stageName ← identifier stage "stage"
  let statusName ← identifier status "stage status"
  let status ← stageStatus statusName
  let duration ← stageDurationNs durationNs status
  let details := details.getD noDetails
  let startedAt ← suppliedOr details.startedAt "stage started_at" now
  let endedAt ← stageEndedAt status details now startedAt
  pure ⟨stageName, status, duration, details, startedAt, endedAt⟩

def maxOf (values : List Nat) : Nat := values.foldr max 0

def spansOf (s : Ledger) (attemptId : Nat) : List StageAttempt :=
  s.stageAttempts.filter (fun r => decide (r.attemptId = attemptId))

/-- `COALESCE(MAX(sequence), 0) + 1` over the spans of one attempt. -/
def nextSequence (spans : List StageAttempt) : Nat := maxOf (spans.map (·.sequence)) + 1

def nextStageAttempt (spans : List StageAttempt) (stage : String) : Nat :=
  maxOf ((spans.filter (fun r => decide (r.stage = stage))).map (·.stageAttempt)) + 1

/-- The span a `started` or a `skipped` report appends. -/
def newSpan (s : Ledger) (attempt : Attempt) (generation : Nat) (report : StageReport) : StageAttempt where
  stageAttemptId := s.nextStageAttemptId
  attemptId := attempt.attemptId
  jobId := attempt.jobId
  attemptNumber := attempt.attemptNumber
  leaseGeneration := generation
  workerId := attempt.workerId
  sequence := nextSequence (spansOf s attempt.attemptId)
  stage := report.stage
  stageAttempt := nextStageAttempt (spansOf s attempt.attemptId) report.stage
  state := report.status.span
  startedAt := report.startedAt
  endedAt := report.endedAt
  durationNs := report.durationNs
  durationSource := if report.status = .started then none else some .workerMonotonic
  wallClockRegressed := report.endedAt.any (fun t => decide (t < report.startedAt))
  details := .reported report.details
  metrics := report.details.metrics
  error := none

def stageError (report : StageReport) : Option String :=
  if report.status = .failed then
    some (match report.details.message with
      | some message => if message = "" then "stage failed" else message
      | none => "stage failed")
  else none

/-- The assignments of a terminal report to its open span. -/
def StageAttempt.closed (report : StageReport) (span r : StageAttempt) : StageAttempt :=
  { r with
    state := report.status.span
    endedAt := report.endedAt
    durationNs := report.durationNs
    durationSource := some .workerMonotonic
    details := .reported report.details
    metrics := report.details.metrics
    wallClockRegressed := report.endedAt.any (fun t => decide (t < span.startedAt))
    error := stageError report }

/-- The open span of an attempt; the unique index leaves at most one. -/
def openSpan? (s : Ledger) (attemptId : Nat) : Option StageAttempt :=
  (spansOf s attemptId).find? (fun r => decide (r.state = .started))

/-- Write the span of a report: its id, its number, its start and the ledger. -/
def recordSpan (attempt : Attempt) (generation : Nat) (report : StageReport) (s : Ledger) :
    Result ((Nat × Nat × Time) × Ledger) :=
  match report.status, openSpan? s attempt.attemptId with
  | .started, some span =>
    .error (.coordinator s!"stage {span.stage} is already running for this attempt")
  | .skipped, some span =>
    .error (.coordinator s!"cannot skip {report.stage} while stage {span.stage} is running")
  | .started, none | .skipped, none => do
    let span := newSpan s attempt generation report
    let s ← s.insertStageAttempt span
    pure ((span.stageAttemptId, span.stageAttempt, report.startedAt), s)
  | status, none =>
    .error (.coordinator s!"cannot mark stage {report.stage} {status.text}; running stage is None")
  | status, some span => do
    require (span.stage = report.stage)
      (.coordinator s!"cannot mark stage {report.stage} {status.text}; running stage is '{span.stage}'")
    require (report.details.startedAt = none ∨ report.startedAt = span.startedAt)
      (.coordinator "terminal stage started_at does not match its open span")
    let s := s.updateStageAttempts
      (fun r => decide (r.stageAttemptId = span.stageAttemptId) && decide (r.state = .started))
      (StageAttempt.closed report span)
    pure ((span.stageAttemptId, span.stageAttempt, span.startedAt), s)

def stageEvent (report : StageReport) (generation stageAttemptId stageAttempt : Nat) (startedAt : Time) :
    EventBody :=
  .stage report.status report.stage stageAttemptId stageAttempt generation report.durationNs
    (report.endedAt.any (fun t => decide (t < startedAt))) startedAt report.endedAt report.details

/-- Persist one strict, fenced stage-span transition; replies with its event id. -/
def recordStage (jobId token : String) (generation : Nat) (stage status : String) (durationNs : Option Int)
    (details : Option StageDetails) (now : Time) (s : Ledger) : Result (Nat × Ledger) := do
  let report ← checkStage stage status durationNs details now
  let (row, s) ← requireLease jobId token generation now s
  match s.attempts.find? (fun r => r.liveFor jobId generation) with
  | none => .error (.coordinator "live lease has no active attempt")
  | some attempt => do
    let ((stageAttemptId, stageAttempt, startedAt), s) ← recordSpan attempt generation report s
    let s := s.updateJobs (Job.leasedAs jobId token generation)
      (fun r => { r with
        state := .running
        currentStage := if report.status = .started then some report.stage else none
        updatedAt := now })
    let s := s.updateAttempts (fun r => r.liveFor jobId generation) (fun r => { r with state := .running })
    let eventId := s.nextEventId
    let s ← s.event now (row.leasedBy.getD "None") (.job row)
      (stageEvent report generation stageAttemptId stageAttempt startedAt)
    pure (eventId, s)

/-- Commit success only after every worker stage reached a terminal state. -/
def complete (jobId token : String) (generation : Nat) (result : String) (now : Time) (s : Ledger) :
    Result (Option Job × Ledger) := do
  let (row, s) ← requireLease jobId token generation now s
  match s.stageAttempts.find? (fun r => r.openFor jobId generation) with
  | some span => .error (.coordinator s!"cannot complete job while stage {span.stage} is still running")
  | none => do
    let s := s.updateJobs (Job.leasedAs jobId token generation)
      (fun r => { r.unleased .complete now with result := some result, error := none })
    let s := s.updateAttempts (fun r => r.liveFor jobId generation)
      (fun r => { r with state := .complete, endedAt := some now })
    let s ← s.event now (row.leasedBy.getD "None") (.job row) (.jobCompleted generation result)
    pure (s.job? jobId, s)

/-- Whether a failure class counts towards the authority circuit breaker. -/
def authorityFailure (failureClass : String) : Bool :=
  "authority-resolution:".toList.isPrefixOf failureClass.toList

/-- Pause the queue once one authority failure class repeats up to the threshold. -/
def openCircuit (now : Time) (row : Job) (failureClass : String) (s : Ledger) : Result Ledger := do
  let failureCount := s.jobs.countP (fun r => s.selects r && decide (r.batchId = row.batchId) &&
    decide (r.state = .failed) && decide (r.failureClass = some failureClass))
  let threshold := s.state.authorityFailureThreshold
  if threshold ≤ failureCount ∧ s.state.paused = false then
    (s.updateState (fun c => { c with paused := true })).event now "coordinator"
      (.batch row.batchId row.planDigest) (.queueCircuitOpened failureClass failureCount threshold)
  else pure s

def checkCircuit (now : Time) (row : Job) (failed : Bool) (failureClass : Option String) (s : Ledger) :
    Result Ledger :=
  match failureClass with
  | some c =>
    if failed = true ∧ authorityFailure c = true ∧ 0 < s.state.authorityFailureThreshold then
      openCircuit now row c s
    else pure s
  | none => pure s

/-- Record the active quarantine of a cell whose analysis is pathological. -/
def quarantineRow (now : Time) (reason : String) (failureClass : Option String) (row : Job) (s : Ledger) :
    Result Ledger := do
  let pathologyClass := failureClass.getD "pathological:analysis-timeout"
  let s ← s.insertQuarantine
    { quarantineId := s.nextQuarantineId, jobId := row.jobId, batchId := row.batchId, state := .active,
      reason := reason, failureClass := pathologyClass, attemptCount := row.attemptCount, createdAt := now,
      releasedAt := none, releaseReason := none }
  s.event now (row.leasedBy.getD "None") (.job row)
    (.jobPathologicalQuarantined reason (.analysis pathologyClass row.attemptCount))

def checkFailureClass : Option String → Result (Option String)
  | none => pure none
  | some c => do
    let c ← text c "failure class"
    pure (some c)

/-- The fenced writes of a failure: its spans, its job, its attempt and their event. -/
def failLease (token failure : String) (classified : Option String) (retry : Bool) (eligibleAt : Time)
    (ending : LeaseEnd) (now : Time) (row : Job) (s : Ledger) : Result Ledger := do
  let s ← closeOpenStageAttempts row now failure (row.leasedBy.getD "None") s
  let s := s.updateJobs (Job.leasedAs row.jobId token row.leaseGeneration)
    (fun r => { r.unleased (if retry then .queued else .failed) now with
      error := some failure, failureClass := classified, eligibleAt := eligibleAt })
  let s := s.updateAttempts (fun r => r.liveFor row.jobId row.leaseGeneration)
    (Attempt.ended .failed now (some failure))
  s.event now (row.leasedBy.getD "None") (.job row) (if retry then .jobRequeued ending else .jobFailed ending)

/-- Record a fenced failure and requeue while attempts remain. -/
def fail (jobId token : String) (generation : Nat) (error : String) (retryable : Bool)
    (failureClass : Option String) (pathological : Bool) (now : Time) (s : Ledger) :
    Result (Option Job × Ledger) := do
  let failure ← text error "failure error"
  let classified ← checkFailureClass failureClass
  let (row, s) ← requireLease jobId token generation now s
  let retry := !pathological && retryable && decide (row.attemptCount < s.state.maxAttempts)
  let delay := if retry then retryDelay s.state row.attemptCount else 0
  let eligibleAt := if retry then now + seconds delay else 0
  let ending := LeaseEnd.reported failure generation row.attemptCount retryable classified
    (retryable && !pathological && !retry) pathological delay (if retry then some eligibleAt else none)
  let s ← failLease token failure classified retry eligibleAt ending now row s
  let s ← if pathological then quarantineRow now failure classified row s else pure s
  let s ← checkCircuit now row (!retry) classified s
  pure (s.job? jobId, s)

section Raises

variable {p : Error → Prop} (hvalue : ∀ message, p (.value message))

include hvalue

theorem suppliedOr_raises (value : Option WireTimestamp) (context : String) (recordedAt : Time) :
    RaisesOnly p (suppliedOr value context recordedAt) := by
  unfold suppliedOr utcTimestamp
  split
  · split
    · exact .ok _
    · exact .error (hvalue _)
  · exact .ok _

theorem stageDurationNs_raises (value : Option Int) (status : StageStatus) :
    RaisesOnly p (stageDurationNs value status) := by
  unfold stageDurationNs
  split
  · exact .ok _
  · exact .error (hvalue _)
  · exact .error (hvalue _)
  · exact .bind (.require fun _ => hvalue _) fun _ _ => .bind (.require fun _ => hvalue _) fun _ _ => .ok _

theorem stageEndedAt_raises (status : StageStatus) (details : StageDetails) (recordedAt startedAt : Time) :
    RaisesOnly p (stageEndedAt status details recordedAt startedAt) := by
  unfold stageEndedAt
  split
  · exact .bind (.require fun _ => hvalue _) fun _ _ => .ok _
  · exact .bind (suppliedOr_raises hvalue _ _ _) fun _ _ => .bind (.require fun _ => hvalue _) fun _ _ => .ok _

theorem stageStatus_raises (status : String) : RaisesOnly p (stageStatus status) := by
  unfold stageStatus
  repeat' split
  all_goals first | exact .ok _ | exact .error (hvalue _)

/-- A report that is turned down before its transaction is turned down by a `ValueError`. -/
theorem checkStage_raises (stage status : String) (durationNs : Option Int) (details : Option StageDetails)
    (now : Time) : RaisesOnly p (checkStage stage status durationNs details now) :=
  .bind (identifier_raises hvalue _ _) fun _ _ => .bind (identifier_raises hvalue _ _) fun _ _ =>
    .bind (stageStatus_raises hvalue _) fun _ _ => .bind (stageDurationNs_raises hvalue _ _) fun _ _ =>
    .bind (suppliedOr_raises hvalue _ _ _) fun _ _ => .bind (stageEndedAt_raises hvalue _ _ _ _) fun _ _ => .ok _

theorem checkFailureClass_raises (failureClass : Option String) : RaisesOnly p (checkFailureClass failureClass) := by
  cases failureClass with
  | none => exact .ok _
  | some c => exact .bind (text_raises hvalue _ _) fun _ _ => .ok _

end Raises

end FidbPoc.Coordinator
