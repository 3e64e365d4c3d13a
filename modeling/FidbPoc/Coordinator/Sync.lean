import FidbPoc.Coordinator.Operator

namespace FidbPoc.Coordinator

open FidbPoc.Lib.Table FidbPoc.Lib.Checked

/-- The counters of the `queue.synced` event. -/
structure SyncCounts where
  submitted : Nat
  blocked : Nat
  createdJobs : Nat
  carriedForwardJobs : Nat

/-- A job's execution is over and may be carried to another plan: it completed,
or it failed and its quarantine is active. -/
def carryable (s : Ledger) (job : Job) : Bool :=
  (decide (job.state = .complete) &&
      s.attempts.any (fun a => decide (a.jobId = job.jobId) && decide (a.state = .complete))) ||
    (decide (job.state = .failed) &&
      s.quarantines.any (fun q => decide (q.jobId = job.jobId) && decide (q.state = .active)))

/-- The identical resolved execution authority of a prior job and a current row. -/
def sameExecution (s : Ledger) (batchId planDigest : String) (row : QueueRow) (job : Job) : Bool :=
  decide (job.batchId = batchId) && decide (job.baseCellId = row.baseCell) &&
    decide (job.factorVariants = row.factorVariants) && decide (job.queueRow = row) &&
    (s.cell? planDigest row.baseCell).any (fun cell => decide (s.cell? job.planDigest job.baseCellId = some cell))

def carryOrder (r r' : Job) : Prop := r'.updatedAt < r.updatedAt ∨ r.updatedAt = r'.updatedAt ∧ r.jobId ≤ r'.jobId

instance : DecidableRel carryOrder := fun r r' => by unfold carryOrder; infer_instance

def carryCandidates (s : Ledger) (batchId planDigest jobId : String) (row : QueueRow) : List Job :=
  (s.jobs.filter (fun job => !job.active && decide (job.jobId ≠ jobId) &&
    sameExecution s batchId planDigest row job && carryable s job)).insertionSort carryOrder

/-- The assignments that select a job for the new generation. -/
def Job.placed (position generation : Nat) (now : Time) (r : Job) : Job :=
  { r with position := position, active := true, syncGeneration := generation, updatedAt := now }

def placeJob (jobId : String) (position generation : Nat) (now : Time) (s : Ledger) : Ledger :=
  s.updateJobs (fun r => decide (r.jobId = jobId)) (Job.placed position generation now)

def newJob (jobId batchId planDigest : String) (generation : Nat) (now : Time) (row : QueueRow) : Job where
  jobId := jobId
  batchId := batchId
  planDigest := planDigest
  baseCellId := row.baseCell
  position := row.position
  state := if row.state = .planned then .queued else .blocked
  blockers := row.blockers
  factorVariants := row.factorVariants
  queueRow := row
  attemptCount := 0
  eligibleAt := 0
  leaseToken := none
  leaseGeneration := 0
  leasedBy := none
  leaseExpiresAt := none
  currentStage := none
  result := none
  error := none
  failureClass := none
  active := true
  syncGeneration := generation
  createdAt := now
  updatedAt := now

def createdEvent (row : QueueRow) : EventBody :=
  if row.state = .planned then .jobQueued row.position row.baseCell row.blockers
  else .jobBlocked row.position row.baseCell row.blockers

def carryJob (now : Time) (actor : String) (generation : Nat) (batchId planDigest : String) (row : QueueRow)
    (carried : Job) (s : Ledger) : Result Ledger :=
  (placeJob carried.jobId row.position generation now s).event now actor
    ⟨some batchId, some carried.jobId, some carried.planDigest⟩
    (.jobExecutionCarriedForward row.baseCell carried.state planDigest)

def createJob (now : Time) (actor : String) (generation : Nat) (batchId planDigest jobId : String)
    (row : QueueRow) (s : Ledger) : Result Ledger := do
  let s ← s.insertJob (newJob jobId batchId planDigest generation now row)
  s.event now actor ⟨some batchId, some jobId, some planDigest⟩ (createdEvent row)

/-- The immutable columns that a stable job id stands for. -/
def sameIdentity (batchId planDigest : String) (row : QueueRow) (job : Job) : Bool :=
  decide (job.batchId = batchId) && decide (job.planDigest = planDigest) && decide (job.baseCellId = row.baseCell) &&
    decide (job.factorVariants = row.factorVariants) && decide (job.queueRow = row)

def reuseJob (now : Time) (generation : Nat) (batchId planDigest : String) (row : QueueRow) (existing : Job)
    (s : Ledger) : Result Ledger := do
  require (sameIdentity batchId planDigest row existing = true)
    (.coordinator s!"stable job id collision: {existing.jobId}")
  pure (placeJob existing.jobId row.position generation now s)

/-- The prior jobs a row may carry forward; a job of its own that has started
or ended stands for the row itself. -/
def rowCandidates (s : Ledger) (batchId planDigest jobId : String) (row : QueueRow) : List Job :=
  match s.job? jobId with
  | none => carryCandidates s batchId planDigest jobId row
  | some existing =>
    if existing.state = .queued ∨ existing.state = .blocked then carryCandidates s batchId planDigest jobId row
    else []

def ambiguousCarry (batchId : String) (row : QueueRow) : Error :=
  .coordinator s!"ambiguous terminal job carry-forward for {batchId}:{row.baseCell}"

section Digests

variable (sha256 : String → String)

/-- The routes of one queue row: carry forward, create, or select again. -/
def routeRow (now : Time) (actor : String) (generation : Nat) (batchId planDigest : String) (s : Ledger)
    (row : QueueRow) : Result (Ledger × Nat × Nat) :=
  let jobId := stableJobId sha256 batchId planDigest row.baseCell row.factorVariants
  match rowCandidates s batchId planDigest jobId row, s.job? jobId with
  | _ :: _ :: _, _ => .error (ambiguousCarry batchId row)
  | [carried], _ => do
    let s ← carryJob now actor generation batchId planDigest row carried s
    pure (s, 0, 1)
  | [], none => do
    let s ← createJob now actor generation batchId planDigest jobId row s
    pure (s, 1, 0)
  | [], some existing => do
    let s ← reuseJob now generation batchId planDigest row existing s
    pure (s, 0, 0)

def SyncCounts.add (counts : SyncCounts) (row : QueueRow) (created carried : Nat) : SyncCounts where
  submitted := if row.state = .planned then counts.submitted + 1 else counts.submitted
  blocked := if row.state = .planned then counts.blocked else counts.blocked + 1
  createdJobs := counts.createdJobs + created
  carriedForwardJobs := counts.carriedForwardJobs + carried

def syncRow (now : Time) (actor : String) (generation : Nat) (batchId planDigest : String)
    (acc : SyncCounts × Ledger) (row : QueueRow) : Result (SyncCounts × Ledger) := do
  let (s, created, carried) ← routeRow sha256 now actor generation batchId planDigest acc.2 row
  pure (acc.1.add row created carried, s)

def syncPlan (now : Time) (actor : String) (resolved : ResolvedBatch) (s : Ledger) : Result Ledger :=
  let plan := resolved.plan
  match s.plans.find? (fun p => decide (p.planDigest = plan.planDigest)) with
  | none => (s.insertPlan ⟨plan.planDigest, plan.schemaVersion, plan.name, plan, now⟩).event now actor
      (.batch resolved.batch.id plan.planDigest) (.planResolved resolved.batch.planPath)
  | some existing => do
    require (existing.plan = plan) (.coordinator s!"immutable plan digest collision: {plan.planDigest}")
    pure s

/-- `INSERT INTO batches … ON CONFLICT(batch_id) DO UPDATE`. -/
def upsertBatch (now : Time) (generation position : Nat) (resolved : ResolvedBatch) (s : Ledger) : Ledger :=
  let batch := resolved.batch
  match s.batch? batch.id with
  | none => s.insertBatch
      { batchId := batch.id, name := batch.name, planDigest := resolved.plan.planDigest,
        planPath := batch.planPath, matrices := batch.matrices, position := position, active := true,
        syncGeneration := generation, createdAt := now, updatedAt := now }
  | some _ => s.updateBatches (fun r => decide (r.batchId = batch.id)) (fun r => { r with
      name := batch.name, planDigest := resolved.plan.planDigest, planPath := batch.planPath,
      matrices := batch.matrices, position := position, active := true, syncGeneration := generation,
      updatedAt := now })

def syncCell (planDigest : String) (s : Ledger) (cell : Cell) : Result Ledger :=
  match s.cell? planDigest cell.id with
  | none => pure (s.insertCell ⟨planDigest, cell.id, cell⟩)
  | some existing => do
    require (existing = cell) (.coordinator s!"immutable resolved cell collision: {planDigest}:{cell.id}")
    pure s

def syncBatch (now : Time) (actor : String) (generation : Nat) (acc : SyncCounts × Ledger)
    (resolved : ResolvedBatch × Nat) : Result (SyncCounts × Ledger) := do
  let planDigest := resolved.1.plan.planDigest
  let s ← syncPlan now actor resolved.1 acc.2
  let s := upsertBatch now generation resolved.2 resolved.1 s
  let s ← resolved.1.cells.foldlM (syncCell planDigest) s
  resolved.1.rows.foldlM (syncRow sha256 now actor generation resolved.1.batch.id planDigest) (acc.1, s)

/-- The old generation is deselected and the runtime policy of the queue assigned. -/
def openGeneration (config : QueueConfig) (now : Time) (s : Ledger) : Ledger :=
  ((s.updateBatches (fun _ => true) (fun r => { r with active := false })).updateJobs (fun _ => true)
    (fun r => { r with active := false })).updateState (fun c => { c.withPolicy config with
      configName := some config.name
      configPath := some config.sourcePath
      syncGeneration := c.syncGeneration + 1
      syncedAt := some now })

/-- Each admission whose batch is no longer selected is cleared on its own. -/
def clearAdmissions (s : Ledger) : Ledger :=
  let dropped := fun (id : Option String) => id.any (fun b => (s.activeBatch? b).isNone)
  s.updateState (fun c => { c with
    activeBatchId := if dropped c.activeBatchId then none else c.activeBatchId
    activeAdmissionId := if dropped c.activeBatchId then none else c.activeAdmissionId
    lookaheadBatchId := if dropped c.lookaheadBatchId then none else c.lookaheadBatchId
    lookaheadAdmissionId := if dropped c.lookaheadBatchId then none else c.lookaheadAdmissionId })

/-- The transaction of `sync_queue`, on a queue resolved before it. -/
def syncResolved (config : QueueConfig) (resolved : List ResolvedBatch) (actor : String) (now : Time)
    (s : Ledger) : Result Ledger := do
  let generation := s.state.syncGeneration + 1
  let (counts, s) ← (resolved.zipIdx 1).foldlM (syncBatch sha256 now actor generation)
    (⟨0, 0, 0, 0⟩, openGeneration config now s)
  (clearAdmissions s).event now actor .queue (.queueSynced config.name generation resolved.length counts.submitted
    counts.blocked counts.createdJobs counts.carriedForwardJobs config.armed)

/-- Resolve and durably synchronize every selected queue row. -/
def syncQueue (config : QueueConfig) (resolvePlan : BatchConfig → Result ResolvedPlan) (actor : String)
    (now : Time) (s : Ledger) : Result Ledger := do
  let resolved ← resolveQueue sha256 config resolvePlan
  syncResolved sha256 config resolved actor now s

end Digests

/-- A row that a configuration selects. -/
structure Selected where
  batchId : String
  planDigest : String
  row : QueueRow

def Selected.jobId (sha256 : String → String) (p : Selected) : String :=
  stableJobId sha256 p.batchId p.planDigest p.row.baseCell p.row.factorVariants

/-- The rows of a resolved batch, as the batch selects them. -/
def ResolvedBatch.selected (resolved : ResolvedBatch) : List Selected :=
  resolved.rows.map (fun row => ⟨resolved.batch.id, resolved.plan.planDigest, row⟩)

def selectedRows (resolved : List ResolvedBatch) : List Selected := resolved.flatMap ResolvedBatch.selected

end FidbPoc.Coordinator
