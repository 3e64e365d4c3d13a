import FidbPoc.Coordinator.Operator

namespace FidbPoc.Coordinator

open FidbPoc.Lib.Checked

/-- One admitted batch with the counts of its selected jobs by state. -/
structure Block where
  batchId : String
  admissionId : String
  counts : List (JobState × Nat)
  remaining : Nat
  deriving DecidableEq

structure ExecutionBlock where
  primary : Option Block
  lastScheduleAdmissionId : Option String
  lookahead : Option Block
  deriving DecidableEq

def jobStates : List JobState := [.blocked, .complete, .failed, .leased, .queued, .running]

def countIn (s : Ledger) (batchId : String) (state : JobState) : Nat :=
  s.jobs.countP (fun r => s.selects r && decide (r.batchId = batchId) && decide (r.state = state))

/-- The selected jobs of a batch that still hold its admission open. -/
def remaining (s : Ledger) (batchId : String) : Nat :=
  s.jobs.countP (fun r => s.selects r && decide (r.batchId = batchId) && r.state.remaining)

def blockDocument (s : Ledger) (batchId admissionId : Option String) : Option Block :=
  batchId.map (fun id =>
    ⟨id, admissionId.getD "None", jobStates.map (fun state => (state, countIn s id state)), remaining s id⟩)

/-- The primary and look-ahead admissions that workers may drain. -/
def executionBlock (s : Ledger) : ExecutionBlock :=
  ⟨blockDocument s s.state.activeBatchId s.state.activeAdmissionId, s.state.lastScheduleAdmissionId,
    blockDocument s s.state.lookaheadBatchId s.state.lookaheadAdmissionId⟩

def hasRemaining (s : Ledger) (batchId : String) : Bool :=
  s.jobs.any (fun r => decide (r.batchId = batchId) && r.active && r.state.remaining)

/-- The first active batch, in queue order, of those that satisfy `p` and have work left. -/
def firstBatch? (s : Ledger) (p : Batch → Bool) : Option Batch :=
  ((s.batches.filter (fun b => b.active && p b && hasRemaining s b.batchId)).insertionSort batchOrder).head?

def lookaheadWithoutPrimary : Error := .coordinator "look-ahead admission exists without a primary block"

/-- Admit one ordered queue batch, without claiming or executing a cell. -/
def startNextBlock (admissionId : String) (scheduled allowScheduledReentry : Bool) (actor : String) (now : Time)
    (s : Ledger) : Result (Option ExecutionBlock × Ledger) := do
  let admission ← text admissionId "block admission id"
  if s.state.armed = false ∨ s.state.paused = true then pure (none, s)
  else if s.state.activeBatchId ≠ none then pure (some (executionBlock s), s)
  else if s.state.lookaheadBatchId ≠ none then .error lookaheadWithoutPrimary
  else if scheduled = true ∧ allowScheduledReentry = false ∧
      s.state.lastScheduleAdmissionId = some admission then pure (none, s)
  else
    match firstBatch? s (fun _ => true) with
    | none => pure (none, s)
    | some batch => do
      let s := s.updateState (fun c => { c with
        activeBatchId := some batch.batchId
        activeAdmissionId := some admission
        lastScheduleAdmissionId := if scheduled then some admission else c.lastScheduleAdmissionId })
      let s ← s.event now actor (.batch batch.batchId batch.planDigest) (.batchAdmitted admission scheduled)
      pure (some (executionBlock s), s)

def primaryQueued (s : Ledger) (batchId : String) : Nat :=
  s.jobs.countP (fun r => decide (r.batchId = batchId) && r.active && decide (r.state = .queued))

def admitSuccessor (admission primaryId : String) (idleThreshold : Nat) (idleSlots : Int) (actor : String)
    (now : Time) (primary : Batch) (s : Ledger) : Result (Option ExecutionBlock × Ledger) :=
  match firstBatch? s (fun b => decide (primary.position < b.position)) with
  | none => pure (none, s)
  | some successor => do
    let s := s.updateState (fun c => { c with
      lookaheadBatchId := some successor.batchId, lookaheadAdmissionId := some admission })
    let s ← s.event now actor (.batch successor.batchId successor.planDigest)
      (.batchLookaheadAdmitted admission primaryId idleSlots idleThreshold)
    pure (some (executionBlock s), s)

/-- Admit only the immediate successor when the primary has no queued work. -/
def admitLookaheadBlock (admissionId : String) (minimumIdleSlots : Int) (actor : String) (now : Time)
    (s : Ledger) : Result (Option ExecutionBlock × Ledger) := do
  let admission ← text admissionId "look-ahead admission id"
  let idleThreshold ← positiveInteger minimumIdleSlots "minimum idle slots"
  if s.state.armed = false ∨ s.state.paused = true then pure (none, s)
  else
    match s.state.activeBatchId with
    | none => pure (none, s)
    | some primaryId =>
      let idleSlots : Int := (s.state.maxWorkers : Int) - liveActiveCount s
      if s.state.lookaheadBatchId ≠ none then pure (some (executionBlock s), s)
      else if primaryQueued s primaryId ≠ 0 then pure (none, s)
      else if idleSlots < idleThreshold then pure (none, s)
      else
        match s.activeBatch? primaryId with
        | none => .error (.coordinator "primary admission is not an active batch")
        | some primary => admitSuccessor admission primaryId idleThreshold idleSlots actor now primary s

/-- The assignments that promote the look-ahead, if any, to primary. -/
def CoordinatorState.promoted (c : CoordinatorState) : CoordinatorState :=
  { c with
    activeBatchId := c.lookaheadBatchId
    activeAdmissionId := c.lookaheadAdmissionId
    lookaheadBatchId := none
    lookaheadAdmissionId := none }

def promotionEvent (drainedId : String) (lookaheadId lookaheadAdmission : Option String) (actor : String)
    (now : Time) (s : Ledger) : Result Ledger :=
  match lookaheadId with
  | none => pure s
  | some id =>
    match s.batch? id with
    | none => .error (.type "look-ahead batch row")
    | some promoted => s.event now actor (.batch id promoted.planDigest)
        (.batchLookaheadPromoted (lookaheadAdmission.getD "None") drainedId)

/-- Close an active admission only after queued and live jobs drain. -/
def finishActiveBlockIfDrained (actor : String) (now : Time) (s : Ledger) : Result (Bool × Ledger) :=
  match s.state.activeBatchId with
  | none => pure (false, s)
  | some batchId =>
    if remaining s batchId ≠ 0 then pure (false, s)
    else do
      let c := s.state
      let s := s.updateState CoordinatorState.promoted
      let s ← s.event now actor ⟨some batchId, none, (s.batch? batchId).map (·.planDigest)⟩
        (.batchDrained (c.activeAdmissionId.getD "None"))
      let s ← promotionEvent batchId c.lookaheadBatchId c.lookaheadAdmissionId actor now s
      pure (true, s)

end FidbPoc.Coordinator
