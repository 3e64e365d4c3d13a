import Mathlib.Algebra.Order.Ring.Nat

namespace FidbPoc.Coordinator

/-- Unix time in microseconds, the resolution of the ledger's text timestamps. -/
abbrev Time := Int

def seconds (n : Nat) : Time := (n : Int) * 1000000

/-- The exceptions a coordinator operation can raise. -/
inductive Error
  | value (message : String)
  | coordinator (message : String)
  | leaseConflict (message : String)
  | integrity (constraint : String)
  | type (message : String)
  deriving DecidableEq

abbrev Result := Except Error

inductive RowState
  | planned | blocked
  deriving DecidableEq

/-- A row of a resolved plan's queue preview. -/
structure QueueRow where
  position : Nat
  baseCell : String
  factorVariants : List String
  state : RowState
  blockers : List String
  position_pos : 0 < position
  deriving DecidableEq

structure Routing where
  executor : Option String
  workerPool : Option String
  deriving DecidableEq

/-- A resolved cell; `document` is the canonical text of the fields the
coordinator stores and compares but never reads. -/
structure Cell where
  id : String
  matrix : String
  status : RowState
  kind : Option String
  routing : Option Routing
  document : String
  deriving DecidableEq

/-- The document `resolve_plan` returns, without its inventory; `_queue_preview`
numbers its rows. -/
structure ResolvedPlan where
  schemaVersion : String
  planDigest : String
  name : String
  matrices : List String
  cells : List Cell
  queuePreview : List QueueRow
  document : String
  positions_nodup : (queuePreview.map (·.position)).Nodup
  deriving DecidableEq

inductive JobState
  | queued | blocked | leased | running | complete | failed
  deriving DecidableEq

/-- The states of a job, and of an attempt, that a worker holds under a lease. -/
def JobState.live : JobState → Bool
  | .leased | .running => true
  | _ => false

inductive AttemptState
  | leased | running | complete | failed | expired
  deriving DecidableEq

def AttemptState.live : AttemptState → Bool
  | .leased | .running => true
  | _ => false

inductive SpanState
  | started | completed | failed | skipped | interrupted
  deriving DecidableEq

inductive StageStatus
  | started | completed | failed | skipped
  deriving DecidableEq

def StageStatus.span : StageStatus → SpanState
  | .started => .started
  | .completed => .completed
  | .failed => .failed
  | .skipped => .skipped

inductive DurationSource
  | workerMonotonic | coordinatorWallClock
  deriving DecidableEq

/-- A worker's wall-clock text: the instant it denotes, if it is a UTC timestamp. -/
abbrev WireTimestamp := Option Time

structure StageDetails where
  startedAt : Option WireTimestamp
  finishedAt : Option WireTimestamp
  message : Option String
  metrics : String
  document : String
  deriving DecidableEq

/-- The `details_json` of a span; an interruption wraps what the worker had sent. -/
inductive SpanDetails
  | reported (details : StageDetails)
  | interrupted (started : SpanDetails) (reason : String)
  deriving DecidableEq

structure CoordinatorState where
  configName : Option String
  configPath : Option String
  armed : Bool
  paused : Bool
  maxWorkers : Nat
  performance : Option String
  pollSeconds : Nat
  leaseSeconds : Nat
  maxAttempts : Nat
  retryBackoffSeconds : Nat
  retryBackoffMaxSeconds : Nat
  authorityFailureThreshold : Nat
  operations : String
  activeBatchId : Option String
  activeAdmissionId : Option String
  lookaheadBatchId : Option String
  lookaheadAdmissionId : Option String
  lastScheduleAdmissionId : Option String
  syncGeneration : Nat
  syncedAt : Option Time
  deriving DecidableEq

structure Plan where
  planDigest : String
  schemaVersion : String
  name : String
  plan : ResolvedPlan
  createdAt : Time
  deriving DecidableEq

structure Batch where
  batchId : String
  name : String
  planDigest : String
  planPath : String
  matrices : Option (List String)
  position : Nat
  active : Bool
  syncGeneration : Nat
  createdAt : Time
  updatedAt : Time
  deriving DecidableEq

structure ResolvedCell where
  planDigest : String
  cellId : String
  cell : Cell
  deriving DecidableEq

structure Job where
  jobId : String
  batchId : String
  planDigest : String
  baseCellId : String
  position : Nat
  state : JobState
  blockers : List String
  factorVariants : List String
  queueRow : QueueRow
  attemptCount : Nat
  eligibleAt : Time
  leaseToken : Option String
  leaseGeneration : Nat
  leasedBy : Option String
  leaseExpiresAt : Option Time
  currentStage : Option String
  result : Option String
  error : Option String
  failureClass : Option String
  active : Bool
  syncGeneration : Nat
  createdAt : Time
  updatedAt : Time
  deriving DecidableEq

inductive QuarantineState
  | active | released
  deriving DecidableEq

structure Quarantine where
  quarantineId : Nat
  jobId : String
  batchId : String
  state : QuarantineState
  reason : String
  failureClass : String
  attemptCount : Nat
  createdAt : Time
  releasedAt : Option Time
  releaseReason : Option String
  deriving DecidableEq

structure Attempt where
  attemptId : Nat
  jobId : String
  attemptNumber : Nat
  leaseToken : String
  leaseGeneration : Nat
  workerId : String
  state : AttemptState
  startedAt : Time
  leaseExpiresAt : Time
  endedAt : Option Time
  error : Option String
  deriving DecidableEq

structure StageAttempt where
  stageAttemptId : Nat
  attemptId : Nat
  jobId : String
  attemptNumber : Nat
  leaseGeneration : Nat
  workerId : String
  sequence : Nat
  stage : String
  stageAttempt : Nat
  state : SpanState
  startedAt : Time
  endedAt : Option Time
  durationNs : Option Nat
  durationSource : Option DurationSource
  wallClockRegressed : Bool
  details : SpanDetails
  metrics : String
  error : Option String
  deriving DecidableEq

structure Worker where
  workerId : String
  transport : String
  pools : List String
  metadata : List (String × String)
  registeredAt : Time
  lastSeenAt : Time
  deriving DecidableEq

structure BatchSummary where
  batchId : String
  count : Nat
  jobIdsSha256 : String
  reason : String
  deriving DecidableEq

/-- The payload of `job.requeued` and `job.failed`: an expiry sweep and a worker's
own report write different documents. -/
inductive LeaseEnd
  | expired (reason : String) (expiredGeneration attemptCount : Nat) (retryCapReached : Bool) (retryDelay : Nat)
      (eligibleAt : Option Time)
  | reported (reason : String) (leaseGeneration attemptCount : Nat) (retryable : Bool)
      (failureClass : Option String) (retryCapReached pathological : Bool) (retryDelay : Nat)
      (eligibleAt : Option Time)
  deriving DecidableEq

inductive QuarantineCause
  | analysis (failureClass : String) (attemptCount : Nat)
  | operator (previousState : JobState) (previousError : Option String)
  deriving DecidableEq

/-- An event's type together with its payload. -/
inductive EventBody
  | planResolved (plan : String)
  | jobQueued (position : Nat) (baseCell : String) (blockers : List String)
  | jobBlocked (position : Nat) (baseCell : String) (blockers : List String)
  | jobExecutionCarriedForward (baseCell : String) (state : JobState) (currentPlanDigest : String)
  | queueSynced (config : String) (generation batches submitted blocked createdJobs carriedForwardJobs : Nat)
      (armed : Bool)
  | queueRuntimeReconfigured (reason : String) (syncGeneration activeJobs : Nat) (previousArmed armed : Bool)
      (previousMaxWorkers maxWorkers : Nat) (previousProfile profile : Option String)
  | queueRecoveryDisarmed (reason : String) (syncGeneration activeJobs liveJobs : Nat)
  | batchAdmitted (admissionId : String) (scheduled : Bool)
  | batchLookaheadAdmitted (admissionId primaryBatchId : String) (idleSlots : Int) (minimumIdleSlots : Nat)
  | batchDrained (admissionId : String)
  | batchLookaheadPromoted (admissionId drainedPrimaryBatchId : String)
  | stageInterrupted (stage : String) (stageAttemptId stageAttempt leaseGeneration durationNs : Nat)
      (wallClockRegressed : Bool) (reason : String)
  | jobRequeued (ending : LeaseEnd)
  | jobFailed (ending : LeaseEnd)
  | jobClaimed (attempt leaseGeneration : Nat) (leaseExpiresAt : Time) (workerPool : Option String)
  | leaseRenewed (leaseGeneration : Nat) (leaseExpiresAt : Time)
  | stage (status : StageStatus) (stage : String) (stageAttemptId stageAttempt leaseGeneration : Nat)
      (durationNs : Option Nat) (wallClockRegressed : Bool) (startedAt : Time) (endedAt : Option Time)
      (details : StageDetails)
  | jobCompleted (leaseGeneration : Nat) (result : String)
  | jobPathologicalQuarantined (reason : String) (cause : QuarantineCause)
  | queueCircuitOpened (failureClass : String) (failureCount threshold : Nat)
  | batchPathologicalJobsQuarantined (summary : BatchSummary)
  | jobPathologicalQuarantineReleased (reason : String)
  | jobOperatorRequeued (reason : String) (attemptCount : Nat) (previousError previousFailureClass : Option String)
  | batchFailedJobsRequeued (summary : BatchSummary)
  | jobOperatorInterruptedRequeued (reason : String) (attemptCount interruptedGeneration : Nat)
      (interruptedWorker : Option String)
  | batchInterruptedJobsRequeued (summary : BatchSummary)
  | queuePaused (reason : String)
  | queueResumed
  | workerRegistered (transport : String) (pools : List String)
  deriving DecidableEq

structure Event where
  eventId : Nat
  occurredAt : Time
  actor : String
  batchId : Option String
  jobId : Option String
  planDigest : Option String
  body : EventBody
  deriving DecidableEq

/-- The coordinator's database; every table is kept in insertion order. -/
structure Ledger where
  state : CoordinatorState
  plans : List Plan
  batches : List Batch
  resolvedCells : List ResolvedCell
  jobs : List Job
  quarantines : List Quarantine
  attempts : List Attempt
  stageAttempts : List StageAttempt
  workers : List Worker
  events : List Event
  deriving DecidableEq

/-- The ledger `_create_schema` leaves in a new database file. -/
def freshLedger : Ledger where
  state :=
    { configName := none, configPath := none, armed := false, paused := false, maxWorkers := 4,
      performance := none, pollSeconds := 5, leaseSeconds := 3600, maxAttempts := 3,
      retryBackoffSeconds := 0, retryBackoffMaxSeconds := 0, authorityFailureThreshold := 0,
      operations := "\x7b\x7d", activeBatchId := none, activeAdmissionId := none, lookaheadBatchId := none,
      lookaheadAdmissionId := none, lastScheduleAdmissionId := none, syncGeneration := 0, syncedAt := none }
  plans := []
  batches := []
  resolvedCells := []
  jobs := []
  quarantines := []
  attempts := []
  stageAttempts := []
  workers := []
  events := []

end FidbPoc.Coordinator
