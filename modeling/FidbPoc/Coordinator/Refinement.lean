import FidbPoc.Coordinator.OperatorSteps
import FidbPoc.Coordinator.QueueSteps
import FidbPoc.Coordinator.Synchronization
import FidbPoc.Coordinator.System

namespace FidbPoc.Coordinator

open FidbPoc.Lib FidbPoc.Lib.Checked Relation

/-- The move by which an operation on jobs acts, beside the expiry sweep. -/
def Op.move : Op → Option Move
  | .recoverExpired .. => some .expired
  | .claim .. => some .claimed
  | .renew .. => some .renewed
  | .recordStage .. => some .staged
  | .complete .. => some .completed
  | .fail .. => some .failed
  | .quarantinePathologicalJobs .. => some .quarantined
  | .releasePathologicalQuarantine .. => some .released
  | .requeueFailedBatch .. => some .requeued
  | .requeueInterruptedBatch .. => some .interrupted
  | _ => none

theorem Op.move_not_selecting {op : Op} {m : Move} (h : op.move = some m) : ¬m.selecting := by
  cases op <;> cases h <;> simp [Move.selecting]

/-- The jobs that a requeue of failed jobs names, read off the ledger before it. -/
def Op.requeued (s : Ledger) : Op → List String
  | .requeueFailedBatch batchId _ _ _ _ => (failedJobs batchId s).map (·.jobId)
  | _ => []

/-- The limits that the runtime policy sets. -/
structure Limits where
  maxWorkers : Nat
  maxAttempts : Nat

def CoordinatorState.limits (c : CoordinatorState) : Limits := ⟨c.maxWorkers, c.maxAttempts⟩

def QueueConfig.limits (config : QueueConfig) : Limits := ⟨config.maxWorkers, config.maxAttempts⟩

/-- A ledger with jobs has been synchronized, to a policy whose limits satisfy `P`. -/
def Ledger.Policed (P : Limits → Prop) (s : Ledger) : Prop := s.jobs = [] ∨ P s.state.limits

theorem Frame.limits {s s' : Ledger} (h : Frame s s') : s'.state.limits = s.state.limits := by
  rw [CoordinatorState.limits, h.maxWorkers, h.maxAttempts]
  rfl

theorem Frame.jobs_nil {s s' : Ledger} (h : Frame s s') (hs : s.jobs = []) : s'.jobs = [] := by
  have hids := h.jobIds
  rw [hs] at hids
  exact List.map_eq_nil_iff.mp hids

/-- What a queue-wide operation may do to the coordinator's state. -/
inductive StateStep (s : Ledger) : Op → CoordinatorState → Prop
  | paused {op : Op} {paused : Bool} : StateStep s op { s.state with paused := paused }
  | disarmed {op : Op} : StateStep s op { s.state with armed := false }
  | policy {config : QueueConfig} {generation jobs : Int} {reason actor : String} {now : Time} :
      StateStep s (.reconfigureRuntime config generation jobs reason actor now) (s.state.withPolicy config)
  | admission {op : Op} {c : CoordinatorState} (h : AdmissionStep s c) : StateStep s op c

/-- The three kinds of committed operations: a synchronization; queue-wide work that
no job sees; a sweep of expired leases followed by one move of each job of a set. -/
inductive Committed (sha256 : String → String) (op : Op) (s s' : Ledger) : Prop
  | synchronized {config : QueueConfig} {resolvePlan : BatchConfig → Result ResolvedPlan} {actor : String}
      {now : Time} {resolved : List ResolvedBatch} (hop : op = .syncQueue config resolvePlan actor now)
      (hr : resolveQueue sha256 config resolvePlan = .ok resolved)
      (h : Synchronized sha256 now config resolved s s')
  | still (hop : op.move = none) (h : Still s s') (hstate : StateStep s op s'.state)
  | worked {m : Move} {t : Ledger} {js ks : List String} (hop : op.move = some m)
      (hsweep : Acts op.now .expired js s t) (hact : Acts op.now m ks t s')
      (hrequeued : m = .requeued → t = s ∧ ks = op.requeued s)
      (hclaimed : m = .claimed → ks = [] ∨ activeWorkers t < t.state.maxWorkers ∧ ∃ k, ks = [k])

section Refinement

variable {sha256 : String → String}

theorem committed {op : Op} {s s' : Ledger} {reply : Reply} (hs : s.WellFormed)
    (h : op.body sha256 s = .ok (reply, s')) : Committed sha256 op s s' := by
  have hpair : ∀ {α : Type} {x : Result (α × Ledger)} {f : α → Reply},
      Prod.map f id <$> x = .ok (reply, s') → ∃ r, x = .ok (r, s') := by
    intro α x f hx
    obtain ⟨⟨r, u⟩, hxr, hp⟩ := map_eq_ok.mp hx
    obtain ⟨-, rfl⟩ := Prod.mk.inj hp
    exact ⟨r, hxr⟩
  have hdone : ∀ {x : Result Ledger}, (fun u => (Reply.done, u)) <$> x = .ok (reply, s') → x = .ok s' := by
    intro x hx
    obtain ⟨u, hxu, hp⟩ := map_eq_ok.mp hx
    obtain ⟨-, rfl⟩ := Prod.mk.inj hp
    exact hxu
  cases op with
  | syncQueue config resolvePlan actor now =>
    obtain ⟨resolved, hr, hsync⟩ := syncQueue_synchronized hs (hdone h)
    exact .synchronized rfl hr hsync
  | reconfigureRuntime config generation jobs reason actor now =>
    obtain ⟨hstill, hstate⟩ := reconfigureRuntime_still hs (hdone h)
    exact .still rfl hstill (hstate ▸ .policy)
  | disarmForRecovery config generation jobs live reason actor now =>
    obtain ⟨hstill, hstate⟩ := disarmForRecovery_still hs (hdone h)
    exact .still rfl hstill (hstate ▸ .disarmed)
  | startNextBlock admissionId scheduled reentry actor now =>
    obtain ⟨r, hr⟩ := hpair h
    obtain ⟨hstill, hstate⟩ := startNextBlock_still hs hr
    exact .still rfl hstill (.admission hstate)
  | admitLookaheadBlock admissionId idle actor now =>
    obtain ⟨r, hr⟩ := hpair h
    obtain ⟨hstill, hstate⟩ := admitLookaheadBlock_still hs hr
    exact .still rfl hstill (.admission hstate)
  | finishActiveBlockIfDrained actor now =>
    obtain ⟨r, hr⟩ := hpair h
    obtain ⟨hstill, hstate⟩ := finishActiveBlockIfDrained_still hs hr
    exact .still rfl hstill (.admission hstate)
  | recoverExpired actor now =>
    obtain ⟨r, hr⟩ := hpair h
    have hacts := recoverExpiredLocked_acts hs hr
    exact .worked rfl hacts (Acts.nil hacts.wellFormed) (fun hm => by cases hm) (fun hm => by cases hm)
  | claim workerId token pool batchId batchIds now =>
    obtain ⟨r, hr⟩ := hpair h
    obtain ⟨t, hsweep, ⟨-, rfl⟩ | ⟨row, payload, -, hact, -, -, hslot, -⟩⟩ := claim_acts hs hr
    · exact .worked rfl hsweep (Acts.nil hsweep.wellFormed) (fun hm => by cases hm) fun _ => .inl rfl
    · exact .worked rfl hsweep hact (fun hm => by cases hm) fun _ => .inr ⟨hslot, row.jobId, rfl⟩
  | renew jobId token generation leaseSeconds now =>
    obtain ⟨r, hr⟩ := hpair h
    obtain ⟨t, hsweep, hact⟩ := renew_acts hs hr
    exact .worked rfl hsweep hact (fun hm => by cases hm) (fun hm => by cases hm)
  | recordStage jobId token generation stage status durationNs details now =>
    obtain ⟨r, hr⟩ := hpair h
    obtain ⟨t, hsweep, hact⟩ := recordStage_acts hs hr
    exact .worked rfl hsweep hact (fun hm => by cases hm) (fun hm => by cases hm)
  | complete jobId token generation result now =>
    obtain ⟨r, hr⟩ := hpair h
    obtain ⟨t, hsweep, hact⟩ := complete_acts hs hr
    exact .worked rfl hsweep hact (fun hm => by cases hm) (fun hm => by cases hm)
  | fail jobId token generation error retryable failureClass pathological now =>
    obtain ⟨r, hr⟩ := hpair h
    obtain ⟨t, hsweep, hact⟩ := fail_acts hs hr
    exact .worked rfl hsweep hact (fun hm => by cases hm) (fun hm => by cases hm)
  | quarantinePathologicalJobs batchId jobIds count reason actor now =>
    obtain ⟨r, hr⟩ := hpair h
    obtain ⟨rows, -, hact⟩ := quarantinePathologicalJobs_acts hs hr
    exact .worked rfl (Acts.nil hs) hact (fun hm => by cases hm) (fun hm => by cases hm)
  | releasePathologicalQuarantine batchId count reason actor now =>
    obtain ⟨r, hr⟩ := hpair h
    exact .worked rfl (Acts.nil hs) (releasePathologicalQuarantine_acts hs hr) (fun hm => by cases hm) (fun hm => by cases hm)
  | requeueFailedBatch batchId count reason actor now =>
    obtain ⟨r, hr⟩ := hpair h
    exact .worked rfl (Acts.nil hs) (requeueFailedBatch_acts hs hr) (fun _ => ⟨rfl, rfl⟩) fun hm => by cases hm
  | requeueInterruptedBatch batchId count reason actor now =>
    obtain ⟨r, hr⟩ := hpair h
    obtain ⟨rows, -, hact⟩ := requeueInterruptedBatch_acts hs hr
    exact .worked rfl (Acts.nil hs) hact (fun hm => by cases hm) (fun hm => by cases hm)
  | pause reason actor now =>
    obtain ⟨hstill, paused, hstate⟩ := pause_still hs (hdone h)
    exact .still rfl hstill (hstate ▸ .paused)
  | resume actor now =>
    obtain ⟨hstill, paused, hstate⟩ := resume_still hs (hdone h)
    exact .still rfl hstill (hstate ▸ .paused)
  | touchWorker workerId transport pools metadata now =>
    obtain ⟨hstill, hstate⟩ := touchWorker_still hs (hdone h)
    exact .still rfl hstill (hstate ▸ .admission .stayed)

namespace Committed

variable {op : Op} {s s' : Ledger}

theorem wellFormed (h : Committed sha256 op s s') : s'.WellFormed := by
  cases h with
  | synchronized hop hr hsync => exact hsync.selection.syncs.wellFormed
  | still hop hstill hstate => exact hstill.wellFormed
  | worked hop hsweep hact _ _ => exact hact.wellFormed

/-- Only a configuration changes the limits. -/
theorem limits (h : Committed sha256 op s s') :
    s'.state.limits = s.state.limits ∨ ∃ config ∈ op.configured, s'.state.limits = config.limits := by
  cases h with
  | synchronized hop hr hsync =>
    refine .inr ⟨_, by rw [hop]; rfl, ?_⟩
    rw [CoordinatorState.limits, hsync.maxAttempts, hsync.maxWorkers]
    rfl
  | still hop hstill hstate =>
    generalize s'.state = c at hstate ⊢
    cases hstate with
    | paused | disarmed => exact .inl rfl
    | policy => exact .inr ⟨_, rfl, rfl⟩
    | admission h => cases h <;> exact .inl rfl
  | worked hop hsweep hact _ _ => exact .inl (hsweep.frame.trans hact.frame).limits

/-- What the limits of every configuration satisfy holds as long as there are jobs. -/
theorem policed {P : Limits → Prop} (h : Committed sha256 op s s') (hP : ∀ config ∈ op.configured, P config.limits)
    (hs : s.Policed P) : s'.Policed P := by
  rcases h.limits with hkept | ⟨config, hconfig, hset⟩
  · rcases hs with hnil | hs
    · cases h with
      | @synchronized config _ _ _ _ hop hr hsync =>
        have hconfig := hP config (by rw [hop]; rfl)
        refine .inr ?_
        rw [CoordinatorState.limits, hsync.maxAttempts, hsync.maxWorkers]
        exact hconfig
      | still hop hstill hstate => exact .inl (hstill.jobs.trans hnil)
      | worked hop hsweep hact _ _ => exact .inl ((hsweep.frame.trans hact.frame).jobs_nil hnil)
    · exact .inr (hkept ▸ hs)
  · exact .inr (hset ▸ hP config hconfig)

/-- The refinement: every job follows its lifecycle through every operation. -/
theorem views (h : Committed sha256 op s s') (j : String) :
    ReflTransGen (fun v v' => ∃ m, JobStep op.now s.state.maxAttempts m v v') (s.view j) (s'.view j) := by
  cases h with
  | synchronized hop hr hsync =>
    subst hop
    refine ReflTransGen.mono ?_ _ _ (hsync.selection.syncs.views j s.state.maxAttempts)
    rintro v v' ⟨m, -, hstep⟩
    exact ⟨m, hstep⟩
  | still hop hstill hstate => rw [hstill.views]
  | worked hop hsweep hact _ _ =>
    have hone : ∀ {m : Move} {t u : Ledger} {js : List String}, Acts op.now m js t u →
        t.state.maxAttempts = s.state.maxAttempts →
        ReflTransGen (fun v v' => ∃ m, JobStep op.now s.state.maxAttempts m v v') (t.view j) (u.view j) := by
      intro m t u js hacts hmax
      by_cases hj : j ∈ js
      · exact .single ⟨m, hmax ▸ hacts.steps j hj⟩
      · rw [hacts.others j hj]
    exact (hone hsweep rfl).trans (hone hact hsweep.frame.maxAttempts)

theorem invariant {P : JobView → Prop} (h : Committed sha256 op s s')
    (hstep : ∀ m v v', JobStep op.now s.state.maxAttempts m v v' → P v → P v') {j : String} (hP : P (s.view j)) :
    P (s'.view j) := by
  have hviews := h.views j
  generalize s'.view j = v' at hviews ⊢
  induction hviews with
  | refl => exact hP
  | tail _ hlast ih =>
    obtain ⟨m, hlast⟩ := hlast
    exact hstep m _ _ hlast ih

end Committed

/-- Every step of a run that commits is one of the three kinds, so what they keep is kept
by the run. -/
theorem run_invariant {P : Ledger → Prop} {trace : List (Step Ledger Op)} {s s' : Ledger}
    (h : Run (Next sha256) s trace s') (hs : s.WellFormed) (hP : P s)
    (hstep : ∀ st ∈ trace, Commits sha256 st → st.before.WellFormed → Committed sha256 st.op st.before st.after →
      P st.before → P st.after) : s'.WellFormed ∧ P s' := by
  refine h.invariant (P := fun s => s.WellFormed ∧ P s) ⟨hs, hP⟩ ?_
  rintro st hst hnext ⟨hs, hP⟩
  rcases next_cases sha256 hnext with ⟨-, he⟩ | ⟨reply, hbody⟩
  · rw [he]
    exact ⟨hs, hP⟩
  · have hc := committed hs hbody
    exact ⟨hc.wellFormed, hstep st hst ⟨reply, transaction_ok.mpr hbody⟩ hs hc hP⟩

/-- Every reachable ledger keeps what no move of the lifecycle breaks. -/
theorem reachable_invariant {P : JobView → Prop} (hempty : P .empty)
    (hstep : ∀ now n m v v', JobStep now n m v v' → P v → P v') {s : Ledger} (h : Reachable sha256 s) :
    s.WellFormed ∧ ∀ j, P (s.view j) := by
  obtain ⟨trace, htrace⟩ := h
  refine run_invariant (P := fun s => ∀ j, P (s.view j)) htrace freshLedger_wellFormed
    (fun j => freshLedger_view j ▸ hempty) ?_
  exact fun st _ _ _ hc hP j => hc.invariant (hstep _ _) (hP j)

end Refinement

end FidbPoc.Coordinator
