import FidbPoc.Coordinator.Statements

namespace FidbPoc.Coordinator

open FidbPoc.Lib.Checked

def maxDurationNs : Nat := 9223372036854775807

def elapsedNs (startedAt endedAt : Time) : Nat := min maxDurationNs ((endedAt - startedAt).toNat * 1000)

def JobState.remaining : JobState → Bool
  | .queued | .leased | .running => true
  | _ => false

inductive WorkerPool
  | libraryLocal | macosNative
  deriving DecidableEq

def WorkerPool.text : WorkerPool → String
  | .libraryLocal => "library-local"
  | .macosNative => "macos-native"

def workerPool (name : String) : Result WorkerPool :=
  if name = WorkerPool.libraryLocal.text then pure .libraryLocal
  else if name = WorkerPool.macosNative.text then pure .macosNative
  else .error (.value s!"unsupported worker pool: {name}")

/-- Fail-closed routing predicate for a named worker pool. -/
def workerPoolAcceptsCell (pool : WorkerPool) (cell : Cell) : Bool :=
  match cell.routing with
  | none => false
  | some routing =>
    match pool with
    | .libraryLocal =>
      (cell.kind = some "native" && routing.executor = some "native-local" &&
        routing.workerPool.getD "library-local" = "library-local") ||
      (cell.kind = some "source-library" && routing.executor = some "local") ||
      (cell.kind = some "archive-library" && routing.executor = some "archive-local") ||
      (cell.kind = some "runtime-library" && routing.executor = some "runtime-archive-local")
    | .macosNative =>
      cell.kind = some "native" && routing.executor = some "native-local" &&
        routing.workerPool = some "macos-native"

def StageAttempt.openFor (span : StageAttempt) (jobId : String) (leaseGeneration : Nat) : Bool :=
  decide (span.jobId = jobId) && decide (span.leaseGeneration = leaseGeneration) && decide (span.state = .started)

def StageAttempt.interrupted (now : Time) (reason : String) (span r : StageAttempt) : StageAttempt :=
  { r with
    state := .interrupted
    endedAt := some now
    durationNs := some (elapsedNs span.startedAt now)
    durationSource := some .coordinatorWallClock
    wallClockRegressed := decide (now < span.startedAt)
    details := .interrupted span.details reason
    error := some reason }

def interruptedEvent (now : Time) (reason : String) (row : Job) (span : StageAttempt) : EventBody :=
  .stageInterrupted span.stage span.stageAttemptId span.stageAttempt row.leaseGeneration
    (elapsedNs span.startedAt now) (decide (now < span.startedAt)) reason

def interruptSpan (row : Job) (now : Time) (reason actor : String) (s : Ledger) (span : StageAttempt) :
    Result Ledger :=
  (s.updateStageAttempts
    (fun r => decide (r.stageAttemptId = span.stageAttemptId) && decide (r.state = .started))
    (StageAttempt.interrupted now reason span)).event now actor (.job row) (interruptedEvent now reason row span)

/-- Interrupt open spans when their fenced attempt cannot continue. -/
def closeOpenStageAttempts (row : Job) (now : Time) (reason actor : String) (s : Ledger) : Result Ledger :=
  ((s.stageAttempts.filter (fun r => r.openFor row.jobId row.leaseGeneration)).insertionSort
    (fun r r' => r.sequence ≤ r'.sequence)).foldlM (interruptSpan row now reason actor) s

def Attempt.liveFor (r : Attempt) (jobId : String) (leaseGeneration : Nat) : Bool :=
  decide (r.jobId = jobId) && decide (r.leaseGeneration = leaseGeneration) && r.state.live

def Attempt.ended (state : AttemptState) (now : Time) (error : Option String) (r : Attempt) : Attempt :=
  { r with state := state, endedAt := some now, error := error }

/-- The assignments that take a job out of its lease. -/
def Job.unleased (state : JobState) (now : Time) (r : Job) : Job :=
  { r with
    state := state, leaseToken := none, leasedBy := none, leaseExpiresAt := none, currentStage := none,
    updatedAt := now }

def retryDelay (state : CoordinatorState) (attemptCount : Nat) : Nat :=
  if state.retryBackoffSeconds = 0 ∨ state.retryBackoffMaxSeconds = 0 then 0
  else min state.retryBackoffMaxSeconds (state.retryBackoffSeconds * 2 ^ (attemptCount - 1))

def expiryOrder (r r' : Job) : Prop :=
  r.leaseExpiresAt.getD 0 < r'.leaseExpiresAt.getD 0 ∨
    r.leaseExpiresAt.getD 0 = r'.leaseExpiresAt.getD 0 ∧ r.jobId ≤ r'.jobId

instance : DecidableRel expiryOrder := fun r r' => by unfold expiryOrder; infer_instance

def Job.expired (now : Time) (r : Job) : Bool := r.state.live && r.leaseExpiresAt.any (fun t => decide (t ≤ now))

def recoverRow (now : Time) (actor : String) (s : Ledger) (row : Job) : Result Ledger := do
  let retry := decide (row.attemptCount < s.state.maxAttempts)
  let delay := if retry then retryDelay s.state row.attemptCount else 0
  let eligibleAt := if retry then now + seconds delay else 0
  -- a span ends at the lease fence, not at a later sweep
  let spanEnd := min now (row.leaseExpiresAt.getD now)
  let s ← closeOpenStageAttempts row spanEnd "lease expired" actor s
  let s := s.updateAttempts (fun r => r.liveFor row.jobId row.leaseGeneration)
    (Attempt.ended .expired spanEnd (some "lease expired"))
  let s := s.updateJobs (fun r => decide (r.jobId = row.jobId) && decide (r.leaseGeneration = row.leaseGeneration))
    (fun r => { r.unleased (if retry then .queued else .failed) now with
      error := some "lease expired", eligibleAt := eligibleAt })
  let ending := LeaseEnd.expired "lease expired" row.leaseGeneration row.attemptCount (!retry) delay
    (if retry then some eligibleAt else none)
  s.event now actor (.job row) (if retry then .jobRequeued ending else .jobFailed ending)

def expiredJobs (now : Time) (s : Ledger) : List Job :=
  (s.jobs.filter (Job.expired now)).insertionSort expiryOrder

/-- `_recover_expired_locked`. -/
def recoverExpiredLocked (now : Time) (actor : String) (s : Ledger) : Result (Nat × Ledger) := do
  let rows := expiredJobs now s
  let s ← rows.foldlM (recoverRow now actor) s
  pure (rows.length, s)

/-- Requeue expired leases, or fail jobs which reached the retry cap. -/
def recoverExpired (now : Time) (actor : String) (s : Ledger) : Result (Nat × Ledger) :=
  recoverExpiredLocked now actor s

structure LeasePayload where
  jobId : String
  batchId : String
  batchPosition : Nat
  jobPosition : Nat
  planDigest : String
  baseCell : String
  factorVariants : List String
  attemptNumber : Nat
  leaseToken : String
  leaseGeneration : Nat
  leasedBy : String
  leaseExpiresAt : Time
  queueRow : QueueRow
  cell : Cell
  deriving DecidableEq

/-- The joined row of a job under lease; a missing join or column is a `TypeError`. -/
def leasePayload (s : Ledger) (jobId : String) : Result LeasePayload :=
  let payload := do
    let row ← s.job? jobId
    let batch ← s.batch? row.batchId
    let cell ← s.cell? row.planDigest row.baseCellId
    let leaseToken ← row.leaseToken
    let leasedBy ← row.leasedBy
    let leaseExpiresAt ← row.leaseExpiresAt
    pure
      { jobId := row.jobId, batchId := row.batchId, batchPosition := batch.position,
        jobPosition := row.position, planDigest := row.planDigest, baseCell := row.baseCellId,
        factorVariants := row.factorVariants, attemptNumber := row.attemptCount,
        leaseToken := leaseToken, leaseGeneration := row.leaseGeneration, leasedBy := leasedBy,
        leaseExpiresAt := leaseExpiresAt, queueRow := row.queueRow, cell := cell }
  match payload with
  | some payload => pure payload
  | none => .error (.type "lease payload")

structure Candidate where
  job : Job
  batchPosition : Nat
  cell : Cell

def claimOrder (c c' : Candidate) : Prop :=
  c.batchPosition < c'.batchPosition ∨ c.batchPosition = c'.batchPosition ∧
    (c.job.position < c'.job.position ∨ c.job.position = c'.job.position ∧ c.job.jobId ≤ c'.job.jobId)

instance : DecidableRel claimOrder := fun c c' => by unfold claimOrder; infer_instance

/-- An eligible job joined with its active batch and its resolved cell. -/
def candidate? (now : Time) (batchIds : Option (List String)) (s : Ledger) (job : Job) : Option Candidate :=
  if job.active && decide (job.state = .queued) && decide (job.eligibleAt ≤ now) &&
      batchIds.all (fun ids => decide (job.batchId ∈ ids)) then do
    let batch ← s.activeBatch? job.batchId
    let cell ← s.cell? job.planDigest job.baseCellId
    pure ⟨job, batch.position, cell⟩
  else none

def claimCandidates (now : Time) (batchIds : Option (List String)) (s : Ledger) : List Candidate :=
  (s.jobs.filterMap (candidate? now batchIds s)).insertionSort claimOrder

def activeWorkers (s : Ledger) : Nat := s.jobs.countP (fun r => s.selects r && r.state.live)

def Job.claimed (token worker : String) (attempt generation : Nat) (expiresAt now : Time) (r : Job) : Job :=
  { r with
    state := .leased, attemptCount := attempt, leaseToken := some token, leaseGeneration := generation,
    leasedBy := some worker, leaseExpiresAt := some expiresAt, currentStage := none, error := none,
    failureClass := none, eligibleAt := 0, updatedAt := now }

def newAttempt (attemptId : Nat) (jobId : String) (attempt : Nat) (token : String) (generation : Nat)
    (worker : String) (now expiresAt : Time) : Attempt where
  attemptId := attemptId
  jobId := jobId
  attemptNumber := attempt
  leaseToken := token
  leaseGeneration := generation
  workerId := worker
  state := .leased
  startedAt := now
  leaseExpiresAt := expiresAt
  endedAt := none
  error := none

/-- Lease one eligible row; `token` is what `secrets.token_urlsafe` drew. -/
def claimRow (worker token : String) (now : Time) (pool : Option WorkerPool) (row : Job) (s : Ledger) :
    Result (LeasePayload × Ledger) := do
  let generation := row.leaseGeneration + 1
  let attempt := row.attemptCount + 1
  let expiresAt := now + seconds s.state.leaseSeconds
  let eligible := fun (r : Job) => decide (r.jobId = row.jobId) && decide (r.state = .queued) && r.active
  require (s.jobs.countP eligible = 1) (.coordinator "eligible job changed during atomic claim")
  let s := s.updateJobs eligible (Job.claimed token worker attempt generation expiresAt now)
  let s ← s.insertAttempt (newAttempt s.nextAttemptId row.jobId attempt token generation worker now expiresAt)
  let s ← s.event now worker (.job row) (.jobClaimed attempt generation expiresAt (pool.map (·.text)))
  let payload ← leasePayload s row.jobId
  pure (payload, s)

def claimBatches (batchId : Option String) (batchIds : Option (List String)) : Result (Option (List String)) := do
  require (batchId = none ∨ batchIds = none) (.value "claim accepts either batch_id or batch_ids")
  match batchId, batchIds with
  | some id, _ => do
    let id ← identifier id "claim batch id"
    pure (some [id])
  | none, some ids => do
    let ids ← ids.mapM (fun id => identifier id "claim batch id")
    require (ids ≠ [] ∧ ids.Nodup) (.value "claim batch_ids must be non-empty and unique")
    pure (some ids)
  | none, none => pure none

def claimPool : Option String → Result (Option WorkerPool)
  | none => pure none
  | some name => do
    let pool ← workerPool name
    pure (some pool)

/-- Atomically claim the first eligible job in batch and job order. -/
def claim (workerId token : String) (now : Time) (pool batchId : Option String) (batchIds : Option (List String))
    (s : Ledger) : Result (Option LeasePayload × Ledger) := do
  let worker ← text workerId "worker id"
  let pool ← claimPool pool
  let selected ← claimBatches batchId batchIds
  let (_, s) ← recoverExpiredLocked now "coordinator" s
  if s.state.armed = false ∨ s.state.paused = true then pure (none, s)
  else if s.state.maxWorkers ≤ activeWorkers s then pure (none, s)
  else
    match (claimCandidates now selected s).find? (fun c => pool.all (fun p => workerPoolAcceptsCell p c.cell)) with
    | none => pure (none, s)
    | some found => do
      let (payload, s) ← claimRow worker token now pool found.job s
      pure (some payload, s)

def Job.holds (r : Job) (token : String) (generation : Nat) (now : Time) : Bool :=
  r.state.live && decide (r.leaseToken = some token) && decide (r.leaseGeneration = generation) &&
    r.leaseExpiresAt.any (fun t => decide (now < t))

/-- `_require_lease_locked`: the sweep runs first, then the fence is checked. -/
def requireLease (jobId token : String) (generation : Nat) (now : Time) (s : Ledger) : Result (Job × Ledger) := do
  let (_, s) ← recoverExpiredLocked now "coordinator" s
  match s.job? jobId with
  | none => .error (.leaseConflict s!"unknown job: {jobId}")
  | some row => do
    require (row.holds token generation now = true)
      (.leaseConflict s!"stale or inactive lease for job {jobId} generation {generation}")
    pure (row, s)

def Job.leasedAs (jobId token : String) (generation : Nat) (r : Job) : Bool :=
  decide (r.jobId = jobId) && decide (r.leaseToken = some token) && decide (r.leaseGeneration = generation)

/-- Renew a live lease after validating its token and generation. -/
def renew (jobId token : String) (generation : Nat) (now : Time) (leaseSeconds : Option Int) (s : Ledger) :
    Result (LeasePayload × Ledger) := do
  let requested ← leaseSeconds.mapM (fun n => positiveInteger n "lease_seconds")
  let (row, s) ← requireLease jobId token generation now s
  let expiresAt := now + seconds (requested.getD s.state.leaseSeconds)
  let s := s.updateJobs (Job.leasedAs jobId token generation)
    (fun r => { r with leaseExpiresAt := some expiresAt, updatedAt := now })
  let s := s.updateAttempts (fun r => r.liveFor jobId generation) (fun r => { r with leaseExpiresAt := expiresAt })
  let s ← s.event now (row.leasedBy.getD "None") (.job row) (.leaseRenewed generation expiresAt)
  let payload ← leasePayload s jobId
  pure (payload, s)

end FidbPoc.Coordinator
