import FidbPoc.Coordinator.Admission
import FidbPoc.Coordinator.Stages
import FidbPoc.Coordinator.Sync
import FidbPoc.Lib.Run

namespace FidbPoc.Coordinator

open FidbPoc.Lib FidbPoc.Lib.Checked

/-- The public operations that write the ledger, with their arguments. -/
inductive Op
  | syncQueue (config : QueueConfig) (resolvePlan : BatchConfig → Result ResolvedPlan) (actor : String) (now : Time)
  | reconfigureRuntime (config : QueueConfig) (expectedSyncGeneration expectedActiveJobs : Int)
      (reason actor : String) (now : Time)
  | disarmForRecovery (config : QueueConfig)
      (expectedSyncGeneration expectedActiveJobs expectedLiveJobs : Int) (reason actor : String) (now : Time)
  | startNextBlock (admissionId : String) (scheduled allowScheduledReentry : Bool) (actor : String) (now : Time)
  | admitLookaheadBlock (admissionId : String) (minimumIdleSlots : Int) (actor : String) (now : Time)
  | finishActiveBlockIfDrained (actor : String) (now : Time)
  | recoverExpired (actor : String) (now : Time)
  | claim (workerId token : String) (pool batchId : Option String) (batchIds : Option (List String)) (now : Time)
  | renew (jobId token : String) (generation : Nat) (leaseSeconds : Option Int) (now : Time)
  | recordStage (jobId token : String) (generation : Nat) (stage status : String) (durationNs : Option Int)
      (details : Option StageDetails) (now : Time)
  | complete (jobId token : String) (generation : Nat) (result : String) (now : Time)
  | fail (jobId token : String) (generation : Nat) (error : String) (retryable : Bool)
      (failureClass : Option String) (pathological : Bool) (now : Time)
  | quarantinePathologicalJobs (batchId : String) (jobIds : List String) (expectedCount : Int)
      (reason actor : String) (now : Time)
  | releasePathologicalQuarantine (batchId : String) (expectedCount : Int) (reason actor : String) (now : Time)
  | requeueFailedBatch (batchId : String) (expectedCount : Int) (reason actor : String) (now : Time)
  | requeueInterruptedBatch (batchId : String) (expectedCount : Int) (reason actor : String) (now : Time)
  | pause (reason actor : String) (now : Time)
  | resume (actor : String) (now : Time)
  | touchWorker (workerId transport : String) (pools : List String) (metadata : List (String × String)) (now : Time)

def Op.now : Op → Time
  | .syncQueue _ _ _ now | .reconfigureRuntime _ _ _ _ _ now | .disarmForRecovery _ _ _ _ _ _ now
  | .startNextBlock _ _ _ _ now | .admitLookaheadBlock _ _ _ now | .finishActiveBlockIfDrained _ now
  | .recoverExpired _ now | .claim _ _ _ _ _ now | .renew _ _ _ _ now | .recordStage _ _ _ _ _ _ _ now
  | .complete _ _ _ _ now | .fail _ _ _ _ _ _ _ now | .quarantinePathologicalJobs _ _ _ _ _ now
  | .releasePathologicalQuarantine _ _ _ _ now | .requeueFailedBatch _ _ _ _ now
  | .requeueInterruptedBatch _ _ _ _ now | .pause _ _ now | .resume _ now | .touchWorker _ _ _ _ now => now

/-- The configuration that an operation synchronizes. -/
def Op.synced : Op → Option QueueConfig
  | .syncQueue config _ _ _ => some config
  | _ => none

/-- The configuration whose runtime policy an operation assigns. -/
def Op.configured : Op → Option QueueConfig
  | .syncQueue config _ _ _ | .reconfigureRuntime config _ _ _ _ _ => some config
  | _ => none

/-- What an operation returns; `done` stands for a document read after the commit. -/
inductive Reply
  | done
  | block (block : Option ExecutionBlock)
  | drained (drained : Bool)
  | recovered (count : Nat)
  | claimed (lease : Option LeasePayload)
  | renewed (lease : LeasePayload)
  | recorded (eventId : Nat)
  | job (row : Option Job)
  | summary (summary : BatchSummary)
  deriving DecidableEq

/-- The body of an operation, as run between `BEGIN IMMEDIATE` and its end. -/
def Op.body (sha256 : String → String) : Op → Ledger → Result (Reply × Ledger)
  | .syncQueue config resolvePlan actor now, s =>
    (fun s' => (.done, s')) <$> Coordinator.syncQueue sha256 config resolvePlan actor now s
  | .reconfigureRuntime config generation jobs reason actor now, s =>
    (fun s' => (.done, s')) <$> Coordinator.reconfigureRuntime config generation jobs reason actor now s
  | .disarmForRecovery config generation jobs live reason actor now, s =>
    (fun s' => (.done, s')) <$> Coordinator.disarmForRecovery config generation jobs live reason actor now s
  | .startNextBlock admissionId scheduled reentry actor now, s =>
    Prod.map .block id <$> Coordinator.startNextBlock admissionId scheduled reentry actor now s
  | .admitLookaheadBlock admissionId idle actor now, s =>
    Prod.map .block id <$> Coordinator.admitLookaheadBlock admissionId idle actor now s
  | .finishActiveBlockIfDrained actor now, s =>
    Prod.map .drained id <$> Coordinator.finishActiveBlockIfDrained actor now s
  | .recoverExpired actor now, s => Prod.map .recovered id <$> Coordinator.recoverExpired now actor s
  | .claim workerId token pool batchId batchIds now, s =>
    Prod.map .claimed id <$> Coordinator.claim workerId token now pool batchId batchIds s
  | .renew jobId token generation leaseSeconds now, s =>
    Prod.map .renewed id <$> Coordinator.renew jobId token generation now leaseSeconds s
  | .recordStage jobId token generation stage status durationNs details now, s =>
    Prod.map .recorded id <$>
      Coordinator.recordStage jobId token generation stage status durationNs details now s
  | .complete jobId token generation result now, s =>
    Prod.map .job id <$> Coordinator.complete jobId token generation result now s
  | .fail jobId token generation error retryable failureClass pathological now, s =>
    Prod.map .job id <$> Coordinator.fail jobId token generation error retryable failureClass pathological now s
  | .quarantinePathologicalJobs batchId jobIds count reason actor now, s =>
    Prod.map .summary id <$>
      Coordinator.quarantinePathologicalJobs sha256 batchId jobIds count reason actor now s
  | .releasePathologicalQuarantine batchId count reason actor now, s =>
    Prod.map .summary id <$> Coordinator.releasePathologicalQuarantine sha256 batchId count reason actor now s
  | .requeueFailedBatch batchId count reason actor now, s =>
    Prod.map .summary id <$> Coordinator.requeueFailedBatch sha256 batchId count reason actor now s
  | .requeueInterruptedBatch batchId count reason actor now, s =>
    Prod.map .summary id <$> Coordinator.requeueInterruptedBatch sha256 batchId count reason actor now s
  | .pause reason actor now, s => (fun s' => (.done, s')) <$> Coordinator.pause reason actor now s
  | .resume actor now, s => (fun s' => (.done, s')) <$> Coordinator.resume actor now s
  | .touchWorker workerId transport pools metadata now, s =>
    (fun s' => (.done, s')) <$> Coordinator.touchWorker workerId transport pools metadata now s

/-- `_transaction`: the writes of a body that returns are committed, those of a
body that raises are rolled back. -/
def transaction {α : Type} (body : Ledger → Result (α × Ledger)) (s : Ledger) : Result α × Ledger :=
  match body s with
  | .ok (reply, s') => (.ok reply, s')
  | .error e => (.error e, s)

theorem transaction_ok {α : Type} {body : Ledger → Result (α × Ledger)} {s s' : Ledger} {reply : α} :
    transaction body s = (.ok reply, s') ↔ body s = .ok (reply, s') := by
  unfold transaction
  cases h : body s with
  | ok r => obtain ⟨r, t⟩ := r; simp
  | error e => simp

theorem transaction_error {α : Type} {body : Ledger → Result (α × Ledger)} {s s' : Ledger} {e : Error}
    (h : transaction body s = (.error e, s')) : body s = .error e ∧ s' = s := by
  unfold transaction at h
  cases hb : body s with
  | ok r => rw [hb] at h; cases h
  | error e' => rw [hb] at h; cases h; exact ⟨rfl, rfl⟩

section Runs

variable (sha256 : String → String)

/-- The batches that an operation resolves, when its configuration does. -/
def Op.resolved : Op → List ResolvedBatch
  | .syncQueue config resolvePlan _ _ =>
    match resolveQueue sha256 config resolvePlan with
    | .ok resolved => resolved
    | .error _ => []
  | _ => []

/-- The rows that an operation selects. -/
def Op.rows (op : Op) : List Selected := selectedRows (op.resolved sha256)

theorem Op.resolved_eq {config : QueueConfig} {resolvePlan : BatchConfig → Result ResolvedPlan} {actor : String}
    {now : Time} {resolved : List ResolvedBatch} (h : resolveQueue sha256 config resolvePlan = .ok resolved) :
    (Op.syncQueue config resolvePlan actor now).resolved sha256 = resolved := by
  simp only [Op.resolved, h]

def Op.apply (op : Op) (s : Ledger) : Result Reply × Ledger := transaction (op.body sha256) s

/-- One call of one client: any operation on the current ledger, raising or not. -/
def Next (s : Ledger) (op : Op) (s' : Ledger) : Prop := (op.apply sha256 s).2 = s'

/-- The histories of one ledger file: transactions are serialized, so every
interleaving of clients is a sequence of operations. -/
abbrev History : List (Step Ledger Op) → Ledger → Prop := Run (Next sha256) freshLedger

def Reachable (s : Ledger) : Prop := ∃ trace, History sha256 trace s

/-- A step is either rolled back or the commit of its body. -/
theorem next_cases {s s' : Ledger} {op : Op} (h : Next sha256 s op s') :
    ((∃ e, op.apply sha256 s = (.error e, s)) ∧ s' = s) ∨ ∃ reply, op.body sha256 s = .ok (reply, s') := by
  cases hr : op.apply sha256 s with
  | mk r t =>
    have ht : t = s' := by simpa [Next, hr] using h
    subst ht
    cases r with
    | ok reply => exact .inr ⟨reply, transaction_ok.mp hr⟩
    | error e =>
      obtain ⟨_, rfl⟩ := transaction_error hr
      exact .inl ⟨⟨e, rfl⟩, rfl⟩

/-- A step whose operation returns, so that its writes are committed. -/
def Commits (st : Step Ledger Op) : Prop := ∃ reply, st.op.apply sha256 st.before = (.ok reply, st.after)

/-- The ledger that operations, called one after the other, leave behind. -/
def after (s : Ledger) (ops : List Op) : Ledger := ops.foldl (fun s op => (op.apply sha256 s).2) s

def traceOf (s : Ledger) : List Op → List (Step Ledger Op)
  | [] => []
  | op :: ops => ⟨s, op, (op.apply sha256 s).2⟩ :: traceOf (op.apply sha256 s).2 ops

theorem run_after (s : Ledger) (ops : List Op) : Run (Next sha256) s (traceOf sha256 s ops) (after sha256 s ops) := by
  induction ops generalizing s with
  | nil => exact .nil
  | cons op ops ih => exact .cons rfl (ih _)

theorem reachable_after (ops : List Op) : Reachable sha256 (after sha256 freshLedger ops) :=
  ⟨_, run_after sha256 freshLedger ops⟩

end Runs

namespace Sample

/-- A cell that both the local workers and a worker without a pool accept. -/
def cell (id : String) : Cell := ⟨id, "m", .planned, some "native", some ⟨some "native-local", none⟩, "\x7b\x7d"⟩

def row (cellId : String) : QueueRow := ⟨1, cellId, [], .planned, [], by decide⟩

/-- A plan with one cell and one row. -/
def plan (digest cellId : String) : ResolvedPlan :=
  ⟨resolvedSchema, digest, "plan", ["m"], [cell cellId], [row cellId], "\x7b\x7d", List.nodup_singleton _⟩

def batch (id : String) : BatchConfig := ⟨id, id, id, none, none, none⟩

/-- A queue of one worker slot and two attempts. -/
def queue (batches : List BatchConfig) (hne : batches ≠ []) (hnodup : (batches.map (·.id)).Nodup) : QueueConfig :=
  ⟨"queue", true, 1, none, 1, 10, 2, 0, 0, 0, "\x7b\x7d", batches, "queue.toml", by decide, by decide, by decide,
    by decide, by decide, hne, hnodup⟩

def queueAB : QueueConfig := queue [batch "a", batch "b"] (by decide) (by decide)

def queueA : QueueConfig := queue [batch "a"] (by decide) (by decide)

def queueB : QueueConfig := queue [batch "b"] (by decide) (by decide)

/-- Every batch resolves to a plan of its own, whose digest carries a version. -/
def resolve (version : String) (b : BatchConfig) : Result ResolvedPlan := .ok (plan (b.id ++ version) b.id)

def jobId (batchId version : String) : String := stableJobId id batchId (batchId ++ version) batchId []

end Sample

end FidbPoc.Coordinator
