import FidbPoc.Coordinator.Lease

namespace FidbPoc.Coordinator

open FidbPoc.Lib.Checked

def liveCount (s : Ledger) : Nat := s.jobs.countP (fun r => r.state.live)

def jobOrder (r r' : Job) : Prop := r.position < r'.position ∨ r.position = r'.position ∧ r.jobId ≤ r'.jobId

instance : DecidableRel jobOrder := fun r r' => by unfold jobOrder; infer_instance

/-- Operator recovery runs only on a disarmed and paused queue. -/
def requireStopped (disarmed paused : String) (s : Ledger) : Result Unit := do
  require (s.state.armed = false) (.coordinator disarmed)
  require (s.state.paused = true) (.coordinator paused)

/-- No admission, or the admission of the selected batch. -/
def requireAdmission (batchId message : String) (s : Ledger) : Result Unit :=
  require (s.state.activeBatchId = none ∨ s.state.activeBatchId = some batchId) (.coordinator message)

def requireActiveBatch (batchId : String) (s : Ledger) : Result Batch :=
  match s.activeBatch? batchId with
  | some batch => pure batch
  | none => .error (.coordinator s!"unknown active batch: {batchId}")

section Digests

variable (sha256 : String → String)

def summarize (batchId reason : String) (rows : List Job) : BatchSummary :=
  ⟨batchId, rows.length, jobIdsSha256 sha256 rows, reason⟩

def quarantineJob (now : Time) (actor reason : String) (s : Ledger) (row : Job) : Result Ledger := do
  require (∀ q ∈ s.quarantines, ¬(q.jobId = row.jobId ∧ q.state = .active))
    (.coordinator s!"job is already quarantined: {row.jobId}")
  let s := if row.state = .queued then
      s.updateJobs (fun r => decide (r.jobId = row.jobId) && decide (r.state = .queued))
        (fun r => { r with
          state := .failed, error := some reason, failureClass := some "pathological:operator-quarantine",
          updatedAt := now })
    else s
  let s ← s.insertQuarantine
    { quarantineId := s.nextQuarantineId, jobId := row.jobId, batchId := row.batchId, state := .active,
      reason := reason, failureClass := "pathological:operator-quarantine", attemptCount := row.attemptCount,
      createdAt := now, releasedAt := none, releaseReason := none }
  s.event now actor (.job row) (.jobPathologicalQuarantined reason (.operator row.state row.error))

def quarantineSelection (batchId : String) (jobIds : List String) (s : Ledger) : List Job :=
  (s.jobs.filter (fun r => decide (r.batchId = batchId) && r.active && decide (r.jobId ∈ jobIds))).insertionSort
    jobOrder

/-- Quarantine an exact reviewed queued/failed set without erasing evidence. -/
def quarantinePathologicalJobs (batchId : String) (jobIds : List String) (expectedCount : Int)
    (reason actor : String) (now : Time) (s : Ledger) : Result (BatchSummary × Ledger) := do
  let batchId ← identifier batchId "quarantine batch id"
  let count ← positiveInteger expectedCount "quarantine expected count"
  let reason ← text reason "quarantine reason"
  let jobIds ← jobIds.mapM (fun id => identifier id "quarantine job id")
  require (jobIds.length = count ∧ jobIds.Nodup)
    (.coordinator "quarantine job ids must be unique and match expected count")
  requireStopped "pathological quarantine requires a paused, disarmed queue"
    "pathological quarantine requires a paused, disarmed queue" s
  requireAdmission batchId "pathological quarantine cannot cross an active admission" s
  require (liveCount s = 0) (.coordinator "pathological quarantine requires no live leases")
  let rows := quarantineSelection batchId jobIds s
  require (rows.length = count ∧ ∀ r ∈ rows, r.state = .queued ∨ r.state = .failed)
    (.coordinator "quarantine selection changed or contains a live/complete job")
  let s ← rows.foldlM (quarantineJob now actor reason) s
  let summary := summarize sha256 batchId reason rows
  let s ← s.event now actor ⟨some batchId, none, rows.head?.map (·.planDigest)⟩
    (.batchPathologicalJobsQuarantined summary)
  pure (summary, s)

/-- The active quarantines of a batch, each joined with its job. -/
def quarantinedRows (batchId : String) (s : Ledger) : List (Quarantine × Job) :=
  (s.quarantines.filter (fun q => decide (q.batchId = batchId) && decide (q.state = .active))).filterMap
    (fun q => (s.job? q.jobId).map (fun job => (q, job)))

def releaseRow (now : Time) (actor reason : String) (s : Ledger) (row : Quarantine × Job) : Result Ledger :=
  let s := s.updateQuarantines
    (fun q => decide (q.quarantineId = row.1.quarantineId) && decide (q.state = .active))
    (fun q => { q with state := .released, releasedAt := some now, releaseReason := some reason })
  let s := s.updateJobs (fun r => decide (r.jobId = row.2.jobId) && decide (r.state = .failed))
    (fun r => { r with
      state := .queued, eligibleAt := 0, error := none, failureClass := none, updatedAt := now })
  s.event now actor ⟨some row.1.batchId, some row.2.jobId, some row.2.planDigest⟩
    (.jobPathologicalQuarantineReleased reason)

/-- Release exactly one reviewed quarantine set back to queued state. -/
def releasePathologicalQuarantine (batchId : String) (expectedCount : Int) (reason actor : String) (now : Time)
    (s : Ledger) : Result (BatchSummary × Ledger) := do
  let batchId ← identifier batchId "quarantine batch id"
  let count ← positiveInteger expectedCount "quarantine expected count"
  let reason ← text reason "quarantine release reason"
  requireStopped "quarantine release requires a paused, disarmed queue"
    "quarantine release requires a paused, disarmed queue" s
  require (liveCount s = 0) (.coordinator "quarantine release requires no live leases")
  let rows := quarantinedRows batchId s
  require (rows.length = count)
    (.coordinator s!"quarantine release count mismatch: expected {count}, found {rows.length}")
  let s ← rows.foldlM (releaseRow now actor reason) s
  pure (summarize sha256 batchId reason (rows.map (·.2)), s)

def requeueFailedRow (now : Time) (actor reason : String) (s : Ledger) (row : Job) : Result Ledger :=
  (s.updateJobs (fun r => decide (r.jobId = row.jobId) && decide (r.state = .failed) && r.active)
    (fun r => { r with
      state := .queued, eligibleAt := 0, error := none, failureClass := none, updatedAt := now })).event
    now actor (.job row) (.jobOperatorRequeued reason row.attemptCount row.error row.failureClass)

def failedJobs (batchId : String) (s : Ledger) : List Job :=
  (s.jobs.filter (fun r => decide (r.batchId = batchId) && r.active && decide (r.state = .failed))).insertionSort
    jobOrder

/-- Requeue an exact failed batch without erasing attempt evidence. -/
def requeueFailedBatch (batchId : String) (expectedCount : Int) (reason actor : String) (now : Time)
    (s : Ledger) : Result (BatchSummary × Ledger) := do
  let batchId ← identifier batchId "requeue batch id"
  let count ← positiveInteger expectedCount "requeue expected count"
  let reason ← text reason "requeue reason"
  requireStopped "failed-job recovery requires a disarmed queue" "failed-job recovery requires a paused queue" s
  requireAdmission batchId "failed-job recovery cannot cross an active batch admission" s
  require (liveCount s = 0) (.coordinator "failed-job recovery requires all leases to be terminal")
  let batch ← requireActiveBatch batchId s
  let rows := failedJobs batchId s
  require (rows.length = count)
    (.coordinator s!"failed-job recovery count mismatch for {batchId}: expected {count}, found {rows.length}")
  let s ← rows.foldlM (requeueFailedRow now actor reason) s
  let summary := summarize sha256 batchId reason rows
  let s ← s.event now actor (.batch batchId batch.planDigest) (.batchFailedJobsRequeued summary)
  pure (summary, s)

def interruptRow (now : Time) (actor reason interruption : String) (s : Ledger) (row : Job) : Result Ledger := do
  let s ← closeOpenStageAttempts row now interruption actor s
  let s := s.updateAttempts (fun r => r.liveFor row.jobId row.leaseGeneration)
    (Attempt.ended .failed now (some interruption))
  let s := s.updateJobs (fun r => decide (r.jobId = row.jobId) &&
      decide (r.leaseGeneration = row.leaseGeneration) && r.state.live)
    (fun r => { r.unleased .queued now with error := none, failureClass := none, eligibleAt := 0 })
  s.event now actor (.job row)
    (.jobOperatorInterruptedRequeued reason row.attemptCount row.leaseGeneration row.leasedBy)

def liveOrder (r r' : Job) : Prop := r.batchId < r'.batchId ∨ r.batchId = r'.batchId ∧ jobOrder r r'

instance : DecidableRel liveOrder := fun r r' => by unfold liveOrder; infer_instance

def liveJobs (s : Ledger) : List Job := (s.jobs.filter (fun r => r.state.live)).insertionSort liveOrder

/-- Fence and requeue an exact stopped-worker set without losing evidence. -/
def requeueInterruptedBatch (batchId : String) (expectedCount : Int) (reason actor : String) (now : Time)
    (s : Ledger) : Result (BatchSummary × Ledger) := do
  let batchId ← identifier batchId "interrupted batch id"
  let count ← positiveInteger expectedCount "interrupted expected count"
  let reason ← text reason "interrupted reason"
  requireStopped "interrupted-job recovery requires a disarmed queue"
    "interrupted-job recovery requires a paused queue" s
  requireAdmission batchId "interrupted-job recovery cannot cross an active batch admission" s
  let live := liveJobs s
  let rows := live.filter (fun r => decide (r.batchId = batchId))
  require (rows.length = count ∧ live.length = count)
    (.coordinator s!"interrupted-job recovery count mismatch for {batchId}: expected {count}, found {rows.length} in batch and {live.length} globally")
  let batch ← requireActiveBatch batchId s
  let s ← rows.foldlM (interruptRow now actor reason s!"operator interrupted: {reason}") s
  let summary := summarize sha256 batchId reason rows
  let s ← s.event now actor (.batch batchId batch.planDigest) (.batchInterruptedJobsRequeued summary)
  pure (summary, s)

end Digests

/-- Stop new claims while leaving existing leases fenced and renewable. -/
def pause (reason actor : String) (now : Time) (s : Ledger) : Result Ledger := do
  let reason ← text reason "pause reason"
  if s.state.paused = true then pure s
  else (s.updateState (fun c => { c with paused := true })).event now actor .queue (.queuePaused reason)

/-- Allow claims again if the declarative queue is armed. -/
def resume (actor : String) (now : Time) (s : Ledger) : Result Ledger :=
  if s.state.paused = true then
    (s.updateState (fun c => { c with paused := false })).event now actor .queue .queueResumed
  else pure s

/-- The runtime columns that a configuration assigns. -/
def CoordinatorState.withPolicy (config : QueueConfig) (c : CoordinatorState) : CoordinatorState :=
  { c with
    armed := config.armed
    maxWorkers := config.maxWorkers
    performance := config.performanceProfile
    pollSeconds := config.pollSeconds
    leaseSeconds := config.leaseSeconds
    maxAttempts := config.maxAttempts
    retryBackoffSeconds := config.retryBackoffSeconds
    retryBackoffMaxSeconds := config.retryBackoffMaxSeconds
    authorityFailureThreshold := config.authorityFailureThreshold
    operations := config.operations }

def batchOrder (r r' : Batch) : Prop := r.position < r'.position ∨ r.position = r'.position ∧ r.batchId ≤ r'.batchId

instance : DecidableRel batchOrder := fun r r' => by unfold batchOrder; infer_instance

/-- The ordered batch references of the ledger and of a configuration. -/
def durableBatches (s : Ledger) : List (String × String × Option (List String) × Nat) :=
  ((s.batches.filter (·.active)).insertionSort batchOrder).map
    (fun r => (r.batchId, r.planPath, r.matrices, r.position))

def configuredBatches (config : QueueConfig) : List (String × String × Option (List String) × Nat) :=
  (config.batches.zipIdx 1).map (fun p => (p.1.id, p.1.planPath, p.1.matrices, p.2))

def configuredJobs (config : QueueConfig) : Nat := (config.batches.map (fun b => b.executions.getD 0)).sum

/-- What `transition` asserts of the queue already synchronized into the ledger. -/
def requireSameQueue (transition : String) (config : QueueConfig) (generation : Nat) (s : Ledger) :
    Result Unit := do
  require (s.state.paused = true) (.coordinator s!"{transition} requires a paused queue")
  require (s.state.syncGeneration = generation)
    (.coordinator s!"{transition} sync generation changed: {s.state.syncGeneration} != {generation}")
  require (s.state.configName.getD "None" = config.name) (.coordinator s!"{transition} queue name changed")
  require (s.state.configPath.getD "None" = config.sourcePath) (.coordinator s!"{transition} queue path changed")

def requireSameBatches (transition : String) (config : QueueConfig) (jobs : Nat) (s : Ledger) :
    Result Unit := do
  require (∀ b ∈ config.batches, b.executions ≠ none)
    (.coordinator s!"{transition} requires executions on every batch")
  require (configuredJobs config = jobs)
    (.coordinator s!"{transition} queue job count changed: {configuredJobs config} != {jobs}")
  require (durableBatches s = configuredBatches config)
    (.coordinator s!"{transition} cannot change ordered batch references")

def activeJobCount (s : Ledger) : Nat := s.jobs.countP (·.active)

def liveActiveCount (s : Ledger) : Nat := s.jobs.countP (fun r => r.active && r.state.live)

/-- Rebind runtime policy without replacing immutable execution work. -/
def reconfigureRuntime (config : QueueConfig) (expectedSyncGeneration expectedActiveJobs : Int)
    (reason actor : String) (now : Time) (s : Ledger) : Result Ledger := do
  let generation ← positiveInteger expectedSyncGeneration "expected sync generation"
  let jobs ← positiveInteger expectedActiveJobs "expected active jobs"
  let reason ← text reason "runtime reconfiguration reason"
  requireSameQueue "runtime reconfiguration" config generation s
  require (liveActiveCount s = 0) (.coordinator "runtime reconfiguration requires zero live active jobs")
  require (activeJobCount s = jobs)
    (.coordinator s!"runtime reconfiguration active-job count changed: {activeJobCount s} != {jobs}")
  requireSameBatches "runtime reconfiguration" config jobs s
  (s.updateState (CoordinatorState.withPolicy config)).event now actor .queue
    (.queueRuntimeReconfigured reason generation jobs s.state.armed config.armed s.state.maxWorkers
      config.maxWorkers s.state.performance config.performanceProfile)

/-- Disarm a paused queue without disturbing live recovery evidence. -/
def disarmForRecovery (config : QueueConfig) (expectedSyncGeneration expectedActiveJobs expectedLiveJobs : Int)
    (reason actor : String) (now : Time) (s : Ledger) : Result Ledger := do
  let generation ← positiveInteger expectedSyncGeneration "expected sync generation"
  let jobs ← positiveInteger expectedActiveJobs "expected active jobs"
  let live ← positiveInteger expectedLiveJobs "expected live jobs"
  let reason ← text reason "recovery disarm reason"
  require (config.armed = false) (.coordinator "recovery disarm requires disarmed queue TOML")
  requireSameQueue "recovery disarm" config generation s
  require (activeJobCount s = jobs)
    (.coordinator s!"recovery disarm active-job count changed: {activeJobCount s} != {jobs}")
  require (liveActiveCount s = live)
    (.coordinator s!"recovery disarm live-job count changed: {liveActiveCount s} != {live}")
  requireSameBatches "recovery disarm" config jobs s
  (s.updateState (fun c => { c with armed := false })).event now actor .queue
    (.queueRecoveryDisarmed reason generation jobs live)

def workerPools : List String := [WorkerPool.libraryLocal.text, WorkerPool.macosNative.text]

def mergeMetadata (stored update : List (String × String)) : List (String × String) :=
  stored.filter (fun m => decide (m.1 ∉ update.map (·.1))) ++ update

def registerWorker (worker transport : String) (pools : List String) (metadata : List (String × String))
    (now : Time) (s : Ledger) : Result Ledger :=
  match s.workers.find? (fun w => decide (w.workerId = worker)) with
  | some existing => pure { s with
      workers := FidbPoc.Lib.Table.updateWhere (fun w => decide (w.workerId = worker))
        (fun w => { w with
          transport := transport, pools := pools, metadata := mergeMetadata existing.metadata metadata,
          lastSeenAt := now }) s.workers }
  | none =>
    let s : Ledger := { s with workers := s.workers ++ [⟨worker, transport, pools, metadata, now, now⟩] }
    s.event now worker .queue (.workerRegistered transport pools)

/-- Register or heartbeat one authenticated, typed worker identity. -/
def touchWorker (workerId transport : String) (pools : List String) (metadata : List (String × String))
    (now : Time) (s : Ledger) : Result Ledger := do
  let worker ← text workerId "worker id"
  require (transport = "local" ∨ transport = "remote-http")
    (.value s!"unsupported worker transport: {transport}")
  require (pools ≠ [] ∧ ∀ p ∈ pools, p ∈ workerPools) (.value "worker pools contain an unsupported pool")
  require pools.Nodup (.value "worker pools contain duplicates")
  registerWorker worker transport pools metadata now s

end FidbPoc.Coordinator
