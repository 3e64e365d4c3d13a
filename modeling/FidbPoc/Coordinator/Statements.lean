import FidbPoc.Coordinator.Config
import FidbPoc.Lib.Table

namespace FidbPoc.Coordinator

open FidbPoc.Lib.Table FidbPoc.Lib.Checked

/-- The `batch_id`, `job_id` and `plan_digest` columns of an event. -/
structure Subject where
  batchId : Option String
  jobId : Option String
  planDigest : Option String

def Subject.queue : Subject := ⟨none, none, none⟩

def Subject.batch (batchId planDigest : String) : Subject := ⟨some batchId, none, some planDigest⟩

def Subject.job (row : Job) : Subject := ⟨some row.batchId, some row.jobId, some row.planDigest⟩

namespace Ledger

def job? (s : Ledger) (jobId : String) : Option Job :=
  s.jobs.find? (fun r => decide (r.jobId = jobId))

def batch? (s : Ledger) (batchId : String) : Option Batch :=
  s.batches.find? (fun r => decide (r.batchId = batchId))

def activeBatch? (s : Ledger) (batchId : String) : Option Batch :=
  s.batches.find? (fun r => decide (r.batchId = batchId) && r.active)

def cell? (s : Ledger) (planDigest cellId : String) : Option Cell :=
  (s.resolvedCells.find? (fun r => decide (r.planDigest = planDigest ∧ r.cellId = cellId))).map (·.cell)

/-- `jobs.active = 1 AND batches.active = 1` of the joined rows. -/
def selects (s : Ledger) (row : Job) : Bool := row.active && (s.activeBatch? row.batchId).isSome

def updateState (s : Ledger) (f : CoordinatorState → CoordinatorState) : Ledger := { s with state := f s.state }

def updateBatches (s : Ledger) (p : Batch → Bool) (f : Batch → Batch) : Ledger :=
  { s with batches := updateWhere p f s.batches }

def updateJobs (s : Ledger) (p : Job → Bool) (f : Job → Job) : Ledger :=
  { s with jobs := updateWhere p f s.jobs }

def updateQuarantines (s : Ledger) (p : Quarantine → Bool) (f : Quarantine → Quarantine) : Ledger :=
  { s with quarantines := updateWhere p f s.quarantines }

def updateAttempts (s : Ledger) (p : Attempt → Bool) (f : Attempt → Attempt) : Ledger :=
  { s with attempts := updateWhere p f s.attempts }

def updateStageAttempts (s : Ledger) (p : StageAttempt → Bool) (f : StageAttempt → StageAttempt) : Ledger :=
  { s with stageAttempts := updateWhere p f s.stageAttempts }

def insertPlan (s : Ledger) (plan : Plan) : Ledger := { s with plans := s.plans ++ [plan] }

def insertBatch (s : Ledger) (batch : Batch) : Ledger := { s with batches := s.batches ++ [batch] }

def insertCell (s : Ledger) (cell : ResolvedCell) : Ledger := { s with resolvedCells := s.resolvedCells ++ [cell] }

def insertJob (s : Ledger) (job : Job) : Result Ledger := do
  require (∀ r ∈ s.jobs, r.jobId ≠ job.jobId) (.integrity "jobs.job_id")
  pure { s with jobs := s.jobs ++ [job] }

/-- One active quarantine a job, by the partial unique index. -/
def insertQuarantine (s : Ledger) (row : Quarantine) : Result Ledger := do
  require (∀ r ∈ s.quarantines, ¬(r.jobId = row.jobId ∧ r.state = .active ∧ row.state = .active))
    (.integrity "one_active_pathological_quarantine")
  pure { s with quarantines := s.quarantines ++ [row] }

def insertAttempt (s : Ledger) (row : Attempt) : Result Ledger := do
  require (∀ r ∈ s.attempts, r.leaseToken ≠ row.leaseToken ∧
      ¬(r.jobId = row.jobId ∧ (r.attemptNumber = row.attemptNumber ∨ r.leaseGeneration = row.leaseGeneration)))
    (.integrity "attempts")
  pure { s with attempts := s.attempts ++ [row] }

def insertStageAttempt (s : Ledger) (row : StageAttempt) : Result Ledger := do
  require (∀ r ∈ s.stageAttempts, r.attemptId = row.attemptId → r.sequence ≠ row.sequence ∧
      ¬(r.stage = row.stage ∧ r.stageAttempt = row.stageAttempt) ∧ ¬(r.state = .started ∧ row.state = .started))
    (.integrity "stage_attempts")
  pure { s with stageAttempts := s.stageAttempts ++ [row] }

def nextQuarantineId (s : Ledger) : Nat := s.quarantines.length + 1

def nextAttemptId (s : Ledger) : Nat := s.attempts.length + 1

def nextStageAttemptId (s : Ledger) : Nat := s.stageAttempts.length + 1

def nextEventId (s : Ledger) : Nat := s.events.length + 1

def newEvent (s : Ledger) (now : Time) (actor : String) (subject : Subject) (body : EventBody) : Event where
  eventId := s.nextEventId
  occurredAt := now
  actor := actor
  batchId := subject.batchId
  jobId := subject.jobId
  planDigest := subject.planDigest
  body := body

/-- `_event_locked`. -/
def event (s : Ledger) (now : Time) (actor : String) (subject : Subject) (body : EventBody) : Result Ledger := do
  let actor ← text actor "event actor"
  pure { s with events := s.events ++ [s.newEvent now actor subject body] }

theorem event_eq_ok {s s' : Ledger} {now : Time} {actor : String} {subject : Subject} {body : EventBody}
    (h : s.event now actor subject body = .ok s') :
    s' = { s with events := s.events ++ [s.newEvent now actor subject body] } := by
  simp only [event, text, bind_eq_ok, require_eq_ok, pure_eq_ok] at h
  obtain ⟨_, ⟨_, _, rfl⟩, rfl⟩ := h
  rfl

theorem event_raises {p : Error → Prop} (hvalue : ∀ message, p (.value message)) (s : Ledger) (now : Time)
    (actor : String) (subject : Subject) (body : EventBody) : RaisesOnly p (s.event now actor subject body) :=
  .bind (text_raises hvalue _ _) fun _ _ => .ok _

theorem event_total (s : Ledger) (now : Time) {actor : String} (ha : Trimmed actor.toList = true)
    (subject : Subject) (body : EventBody) :
    s.event now actor subject body = .ok { s with events := s.events ++ [s.newEvent now actor subject body] } := by
  simp [event, text, require, ha, pure, Except.pure, bind, Except.bind]

theorem insertJob_eq_ok {s s' : Ledger} {job : Job} (h : s.insertJob job = .ok s') :
    (∀ r ∈ s.jobs, r.jobId ≠ job.jobId) ∧ s' = { s with jobs := s.jobs ++ [job] } := by
  simp only [insertJob, bind_eq_ok, require_eq_ok, pure_eq_ok] at h
  obtain ⟨_, hf, rfl⟩ := h
  exact ⟨hf, rfl⟩

theorem insertQuarantine_eq_ok {s s' : Ledger} {row : Quarantine} (h : s.insertQuarantine row = .ok s') :
    (∀ r ∈ s.quarantines, ¬(r.jobId = row.jobId ∧ r.state = .active ∧ row.state = .active)) ∧
      s' = { s with quarantines := s.quarantines ++ [row] } := by
  simp only [insertQuarantine, bind_eq_ok, require_eq_ok, pure_eq_ok] at h
  obtain ⟨_, hf, rfl⟩ := h
  exact ⟨hf, rfl⟩

theorem insertAttempt_eq_ok {s s' : Ledger} {row : Attempt} (h : s.insertAttempt row = .ok s') :
    s' = { s with attempts := s.attempts ++ [row] } := by
  simp only [insertAttempt, bind_eq_ok, require_eq_ok, pure_eq_ok] at h
  obtain ⟨_, _, rfl⟩ := h
  rfl

theorem insertAttempt_total {s : Ledger} {row : Attempt}
    (h : ∀ r ∈ s.attempts, r.leaseToken ≠ row.leaseToken ∧
      ¬(r.jobId = row.jobId ∧ (r.attemptNumber = row.attemptNumber ∨ r.leaseGeneration = row.leaseGeneration))) :
    s.insertAttempt row = .ok { s with attempts := s.attempts ++ [row] } := by
  rw [insertAttempt, require, if_pos h]
  rfl

theorem insertStageAttempt_eq_ok {s s' : Ledger} {row : StageAttempt} (h : s.insertStageAttempt row = .ok s') :
    s' = { s with stageAttempts := s.stageAttempts ++ [row] } := by
  simp only [insertStageAttempt, bind_eq_ok, require_eq_ok, pure_eq_ok] at h
  obtain ⟨_, _, rfl⟩ := h
  rfl

end Ledger

end FidbPoc.Coordinator
