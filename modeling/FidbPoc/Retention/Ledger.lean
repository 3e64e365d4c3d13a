import FidbPoc.Coordinator.Records
import FidbPoc.Retention.Policy

namespace FidbPoc.Retention

open FidbPoc.Lib FidbPoc.Lib.Checked FidbPoc.Lib.Patterns
open FidbPoc.Coordinator (JobState AttemptState SpanState)

/-- The columns of `jobs` that the collector reads; `result` is `result_json` parsed. -/
structure Job where
  jobId : String
  batchId : String
  baseCellId : String
  state : JobState
  active : Bool
  result : Option Json

structure Attempt where
  attemptId : Nat
  jobId : String
  attemptNumber : Nat
  leaseGeneration : Nat
  state : AttemptState
  startedAt : String
  endedAt : Option String
  error : Option String
  deriving DecidableEq

/-- A row of `stage_attempts`, its two documents parsed. -/
structure StageAttempt where
  stageAttemptId : Nat
  attemptId : Nat
  sequence : Nat
  stage : String
  state : SpanState
  error : Option String
  details : Option Json
  metrics : Option Json

/-- The coordinator's database as the collector opens it: the rows, and the keys
that the schema and the naming of jobs give them. -/
structure Ledger where
  syncGeneration : Nat
  syncedAt : Option String
  armed : Bool
  paused : Bool
  jobs : List Job
  attempts : List Attempt
  stageAttempts : List StageAttempt
  drained : List Nat
  jobs_nodup : (jobs.map (·.jobId)).Nodup
  jobId_valid : ∀ job ∈ jobs, isJobId job.jobId = true
  attempts_nodup : (attempts.map (·.attemptId)).Nodup
  numbers_nodup : (attempts.map fun a => (a.jobId, a.attemptNumber)).Nodup
  generations_nodup : (attempts.map fun a => (a.jobId, a.leaseGeneration)).Nodup

def jobStateText : JobState → String
  | .queued => "queued"
  | .blocked => "blocked"
  | .leased => "leased"
  | .running => "running"
  | .complete => "complete"
  | .failed => "failed"

/-- `state in {"failed", "expired"}`. -/
def isFailed : AttemptState → Bool
  | .failed | .expired => true
  | _ => false

def attemptStateText : AttemptState → String
  | .leased => "leased"
  | .running => "running"
  | .complete => "complete"
  | .failed => "failed"
  | .expired => "expired"

/-- `state in {"failed", "interrupted"}`. -/
def isFailedStage : SpanState → Bool
  | .failed | .interrupted => true
  | _ => false

def spanStateText : SpanState → String
  | .started => "started"
  | .completed => "completed"
  | .failed => "failed"
  | .skipped => "skipped"
  | .interrupted => "interrupted"

structure RetentionHold where
  id : String
  jobId : String
  attemptNumbers : List Nat
  reason : String
  deriving DecidableEq

/-- A hold without numbers holds every attempt of its job. -/
def RetentionHold.covers (hold : RetentionHold) (jobId : String) (attemptNumber : Option Nat) : Bool :=
  decide (hold.jobId = jobId) &&
    (hold.attemptNumbers.isEmpty || attemptNumber.all fun n => decide (n ∈ hold.attemptNumbers))

def holdFor (holds : List RetentionHold) (jobId : String) (attemptNumber : Option Nat) : Option RetentionHold :=
  holds.find? fun hold => hold.covers jobId attemptNumber

/-- Which part of the repository's state a plan is for. -/
inductive Scope
  | all | production | machineValidation
  deriving DecidableEq

def Scope.production? : Scope → Bool
  | .machineValidation => false
  | _ => true

def Scope.validation? : Scope → Bool
  | .production => false
  | _ => true

/-- `SELECT * FROM jobs ORDER BY job_id`, of one batch or of all. -/
def jobRows (ledger : Ledger) (batchId : Option String) : List Job :=
  (ledger.jobs.filter fun job => batchId.all fun batch => decide (job.batchId = batch)).insertionSort
    fun a b => a.jobId ≤ b.jobId

def attemptOrder (a b : Attempt) : Prop :=
  a.attemptNumber < b.attemptNumber ∨ (a.attemptNumber = b.attemptNumber ∧ a.attemptId ≤ b.attemptId)

instance decidableAttemptOrder (a b : Attempt) : Decidable (attemptOrder a b) := inferInstanceAs (Decidable (_ ∨ _))

/-- The entry of a job in `attempts_by_job`. -/
def attemptsOf (ledger : Ledger) (jobId : String) : List Attempt :=
  (ledger.attempts.filter fun a => a.jobId = jobId).insertionSort attemptOrder

def stagesOf (ledger : Ledger) (attemptId : Nat) : List StageAttempt :=
  (ledger.stageAttempts.filter fun s => s.attemptId = attemptId).insertionSort
    fun a b => a.sequence < b.sequence ∨ (a.sequence = b.sequence ∧ a.stageAttemptId ≤ b.stageAttemptId)

structure LedgerFingerprint where
  syncGeneration : Nat
  syncedAt : Option String
  jobCounts : List (JobState × Nat)
  attemptCount : Nat
  maximumAttemptId : Nat
  deriving DecidableEq

def ledgerFingerprint (ledger : Ledger) : LedgerFingerprint :=
  { syncGeneration := ledger.syncGeneration
    syncedAt := ledger.syncedAt
    jobCounts := ([.blocked, .complete, .failed, .leased, .queued, .running].map fun state =>
      (state, ledger.jobs.countP fun job => job.state = state)).filter fun row => 0 < row.2
    attemptCount := ledger.attempts.length
    maximumAttemptId := (ledger.attempts.map (·.attemptId)).foldl max 0 }

def latestSession (ledger : Ledger) : String :=
  match ledger.drained.max? with
  | some eventId => s!"batch-drained-{eventId}"
  | none => s!"attempt-{(ledger.attempts.map (·.attemptId)).foldl max 0}"

/-- `_assert_apply_idle`. -/
def assertApplyIdle (ledger : Ledger) : Result Unit := do
  require ((ledger.jobs.all fun job => !job.state.live) ∧ ledger.attempts.all fun a => !a.state.live)
    (.retention "retention apply requires zero leased or running work")
  require (¬((ledger.jobs.any fun job => job.active && decide (job.state = .queued)) ∧ ledger.armed ∧ ¬ledger.paused))
    (.retention "retention apply requires a terminal queue, or an explicitly paused/disarmed queue")

section

variable {ledger : Ledger} {batchId : Option String}

theorem mem_jobRows {job : Job} :
    job ∈ jobRows ledger batchId ↔ job ∈ ledger.jobs ∧ ∀ batch, batchId = some batch → job.batchId = batch := by
  unfold jobRows
  rw [List.mem_insertionSort, List.mem_filter]
  cases batchId <;> simp

theorem jobRows_nodup : ((jobRows ledger batchId).map (·.jobId)).Nodup := by
  have hperm : (jobRows ledger batchId).Perm
      (ledger.jobs.filter fun job => batchId.all fun batch => decide (job.batchId = batch)) :=
    List.perm_insertionSort ..
  rw [(hperm.map _).nodup_iff]
  exact ledger.jobs_nodup.sublist (List.filter_sublist.map _)

theorem mem_attemptsOf {jobId : String} {a : Attempt} :
    a ∈ attemptsOf ledger jobId ↔ a ∈ ledger.attempts ∧ a.jobId = jobId := by
  unfold attemptsOf
  rw [List.mem_insertionSort, List.mem_filter, decide_eq_true_eq]

/-- The numbers of a job's attempts are distinct. -/
theorem attemptsOf_nodup (jobId : String) : ((attemptsOf ledger jobId).map (·.attemptNumber)).Nodup := by
  have hperm : (attemptsOf ledger jobId).Perm (ledger.attempts.filter fun a => a.jobId = jobId) :=
    List.perm_insertionSort ..
  rw [(hperm.map _).nodup_iff]
  have hpairs : ((ledger.attempts.filter fun a => a.jobId = jobId).map fun a => (a.jobId, a.attemptNumber)).Nodup :=
    ledger.numbers_nodup.sublist (List.filter_sublist.map _)
  refine List.Nodup.of_map (fun n => (jobId, n)) ?_
  rw [List.map_map]
  have hsame : (ledger.attempts.filter fun a => a.jobId = jobId).map (fun a => (a.jobId, a.attemptNumber)) =
      (ledger.attempts.filter fun a => a.jobId = jobId).map ((fun n => (jobId, n)) ∘ fun a => a.attemptNumber) :=
    List.map_congr_left fun a ha => by simp [of_decide_eq_true (List.mem_filter.mp ha).2]
  exact hsame ▸ hpairs

end

end FidbPoc.Retention
