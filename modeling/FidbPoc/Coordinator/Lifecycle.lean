import FidbPoc.Coordinator.Edits
import FidbPoc.Coordinator.Stages
import FidbPoc.Coordinator.Sync
import Mathlib.Logic.Relation

namespace FidbPoc.Coordinator

open FidbPoc.Lib.Table

/-- What can happen to one job. -/
inductive Move
  | created | deselected | placed | claimed | renewed | staged | completed | expired | failed | interrupted
  | quarantined | released | requeued
  deriving DecidableEq

/-- Events about a job that do not move it. -/
def EventBody.quiet : EventBody → Bool
  | .jobExecutionCarriedForward .. | .stageInterrupted .. | .leaseRenewed .. => true
  | _ => false

def Quiet (events : List Event) : Prop := ∀ e ∈ events, e.body.quiet = true

/-- How a lease ends: what its job and its attempt are left with. -/
structure LeaseOutcome where
  state : JobState
  attempt : AttemptState
  endedAt : Time
  reason : String
  error : Option String
  failureClass : Option String
  eligibleAt : Time

def Job.endLease (now : Time) (o : LeaseOutcome) (r : Job) : Job :=
  { r.unleased o.state now with error := o.error, failureClass := o.failureClass, eligibleAt := o.eligibleAt }

/-- The assignments that put a failed job back in the queue. -/
def Job.requeued (now : Time) (r : Job) : Job :=
  { r with state := .queued, eligibleAt := 0, error := none, failureClass := none, updatedAt := now }

def Job.pathological (now : Time) (reason : String) (r : Job) : Job :=
  { r with
    state := .failed, error := some reason, failureClass := some "pathological:operator-quarantine",
    updatedAt := now }

def Quarantine.release (now : Time) (reason : String) (q : Quarantine) : Quarantine :=
  { q with state := .released, releasedAt := some now, releaseReason := some reason }

namespace JobView

/-- The one way out of a lease without a result: spans, attempt and job end together. -/
def endLease (now : Time) (r : Job) (o : LeaseOutcome) (notes : List Event) (e : Event) (v : JobView) :
    JobView where
  job := some (r.endLease now o)
  attempts := updateWhere (fun a => a.liveFor r.jobId r.leaseGeneration)
    (Attempt.ended o.attempt o.endedAt (some o.reason)) v.attempts
  spans := updateWhere (fun x => x.openFor r.jobId r.leaseGeneration)
    (fun x => x.interrupted o.endedAt o.reason x) v.spans
  quarantines := v.quarantines
  events := v.events ++ notes ++ [e]

def quarantine (q : Quarantine) (e : Event) (v : JobView) : JobView :=
  { v with quarantines := v.quarantines ++ [q], events := v.events ++ [e] }

def NoQuarantine (v : JobView) : Prop := ∀ q ∈ v.quarantines, q.state ≠ .active

end JobView

/-- The span a report appends to those of its attempt. -/
structure StageAttempt.Follows (x : StageAttempt) (a : Attempt) (spans : List StageAttempt) : Prop where
  jobId : x.jobId = a.jobId
  attemptId : x.attemptId = a.attemptId
  leaseGeneration : x.leaseGeneration = a.leaseGeneration
  sequence : x.sequence = nextSequence (spans.filter (fun y => decide (y.attemptId = a.attemptId)))
  stageAttempt : x.stageAttempt =
    nextStageAttempt (spans.filter (fun y => decide (y.attemptId = a.attemptId))) x.stage

/-- What a stage report does to the spans of a job, and the stage it leaves current. -/
inductive SpanStep (a : Attempt) (spans : List StageAttempt) : Option String → List StageAttempt → Prop
  | opened {x : StageAttempt} (hopen : ∀ y ∈ spans, y.attemptId = a.attemptId → y.state ≠ .started)
      (hx : x.Follows a spans) (hs : x.state = .started) : SpanStep a spans (some x.stage) (spans ++ [x])
  | skipped {x : StageAttempt} (hopen : ∀ y ∈ spans, y.attemptId = a.attemptId → y.state ≠ .started)
      (hx : x.Follows a spans) (hs : x.state = .skipped) : SpanStep a spans none (spans ++ [x])
  | closed {x : StageAttempt} {report : StageReport} (hx : x ∈ spans) (ha : x.attemptId = a.attemptId)
      (hs : x.state = .started) (hr : report.status = .completed ∨ report.status = .failed) :
      SpanStep a spans none (updateWhere (fun y => decide (y = x)) (StageAttempt.closed report x) spans)

/-- The moves of a job: the coordinator's purpose, seen from one cell of the queue. -/
inductive JobStep (now : Time) (maxAttempts : Nat) : Move → JobView → JobView → Prop
  | created {jobId batchId planDigest : String} {generation : Nat} {row : QueueRow} {e : Event}
      (he : e.body = createdEvent row) :
      JobStep now maxAttempts .created .empty
        ⟨some (newJob jobId batchId planDigest generation now row), [], [], [], [e]⟩
  | deselected {v : JobView} {r : Job} (hr : v.job = some r) :
      JobStep now maxAttempts .deselected v { v with job := some { r with active := false } }
  | placed {v : JobView} {r : Job} {position generation : Nat} {notes : List Event} (hr : v.job = some r)
      (hn : Quiet notes) :
      JobStep now maxAttempts .placed v
        { v with job := some (r.placed position generation now), events := v.events ++ notes }
  | claimed {v : JobView} {r : Job} {token worker : String} {expiresAt : Time} {pool : Option String}
      {attemptId : Nat} {e : Event} (hr : v.job = some r) (hq : r.state = .queued) (ha : r.active = true)
      (hid : ∀ a ∈ v.attempts, a.attemptId ≠ attemptId) (hsp : ∀ x ∈ v.spans, x.attemptId ≠ attemptId)
      (he : e.body = .jobClaimed (r.attemptCount + 1) (r.leaseGeneration + 1) expiresAt pool) :
      JobStep now maxAttempts .claimed v
        { v with
          job := some (r.claimed token worker (r.attemptCount + 1) (r.leaseGeneration + 1) expiresAt now)
          attempts := v.attempts ++
            [newAttempt attemptId r.jobId (r.attemptCount + 1) token (r.leaseGeneration + 1) worker now expiresAt]
          events := v.events ++ [e] }
  | renewed {v : JobView} {r : Job} {token : String} {generation : Nat} {expiresAt : Time} {e : Event}
      (hr : v.job = some r) (hh : r.holds token generation now = true) (he : e.body.quiet = true) :
      JobStep now maxAttempts .renewed v
        { v with
          job := some { r with leaseExpiresAt := some expiresAt, updatedAt := now }
          attempts := updateWhere (fun a => a.liveFor r.jobId r.leaseGeneration)
            (fun a => { a with leaseExpiresAt := expiresAt }) v.attempts
          events := v.events ++ [e] }
  | staged {v : JobView} {r : Job} {token : String} {generation stageAttemptId stageAttempt : Nat} {a : Attempt}
      {stage : Option String} {spans : List StageAttempt} {report : StageReport} {startedAt : Time} {e : Event}
      (hr : v.job = some r) (hh : r.holds token generation now = true) (ha : a ∈ v.attempts)
      (hlive : a.liveFor r.jobId r.leaseGeneration = true) (hs : SpanStep a v.spans stage spans)
      (he : e.body = stageEvent report generation stageAttemptId stageAttempt startedAt) :
      JobStep now maxAttempts .staged v
        { v with
          job := some { r with state := .running, currentStage := stage, updatedAt := now }
          attempts := updateWhere (fun a => a.liveFor r.jobId r.leaseGeneration)
            (fun a => { a with state := .running }) v.attempts
          spans := spans
          events := v.events ++ [e] }
  | completed {v : JobView} {r : Job} {token result : String} {generation : Nat} {e : Event}
      (hr : v.job = some r) (hh : r.holds token generation now = true)
      (hopen : ∀ x ∈ v.spans, x.openFor r.jobId r.leaseGeneration = false)
      (he : e.body = .jobCompleted generation result) :
      JobStep now maxAttempts .completed v
        { v with
          job := some { r.unleased .complete now with result := some result, error := none }
          attempts := updateWhere (fun a => a.liveFor r.jobId r.leaseGeneration)
            (fun a => { a with state := .complete, endedAt := some now }) v.attempts
          events := v.events ++ [e] }
  | expired {v : JobView} {r : Job} {o : LeaseOutcome} {notes : List Event} {e : Event} {ending : LeaseEnd}
      (hr : v.job = some r) (hx : r.expired now = true) (ho : o.attempt = .expired) (hn : Quiet notes)
      (he : o.state = .queued ∧ r.attemptCount < maxAttempts ∧ e.body = .jobRequeued ending ∨
        o.state = .failed ∧ maxAttempts ≤ r.attemptCount ∧ e.body = .jobFailed ending) :
      JobStep now maxAttempts .expired v (v.endLease now r o notes e)
  | failed {v : JobView} {r : Job} {token : String} {generation : Nat} {o : LeaseOutcome} {notes : List Event}
      {e : Event} {ending : LeaseEnd} (hr : v.job = some r) (hh : r.holds token generation now = true)
      (ho : o.attempt = .failed) (hn : Quiet notes)
      (he : o.state = .queued ∧ r.attemptCount < maxAttempts ∧ e.body = .jobRequeued ending ∨
        o.state = .failed ∧ e.body = .jobFailed ending) :
      JobStep now maxAttempts .failed v (v.endLease now r o notes e)
  | failedPathological {v : JobView} {r : Job} {token reason : String} {generation : Nat} {o : LeaseOutcome}
      {notes : List Event} {e e' : Event} {ending : LeaseEnd} {q : Quarantine} {cause : QuarantineCause}
      (hr : v.job = some r) (hh : r.holds token generation now = true) (ho : o.attempt = .failed)
      (hn : Quiet notes) (hs : o.state = .failed) (he : e.body = .jobFailed ending) (hno : v.NoQuarantine)
      (hq : q.state = .active) (he' : e'.body = .jobPathologicalQuarantined reason cause) :
      JobStep now maxAttempts .failed v ((v.endLease now r o notes e).quarantine q e')
  | interrupted {v : JobView} {r : Job} {o : LeaseOutcome} {notes : List Event} {e : Event} {reason : String}
      {attempt generation : Nat} {worker : Option String} (hr : v.job = some r) (hl : r.state.live = true)
      (ho : o.attempt = .failed) (hn : Quiet notes) (hs : o.state = .queued)
      (he : e.body = .jobOperatorInterruptedRequeued reason attempt generation worker) :
      JobStep now maxAttempts .interrupted v (v.endLease now r o notes e)
  | quarantined {v : JobView} {r : Job} {q : Quarantine} {e : Event} {reason : String} {cause : QuarantineCause}
      (hr : v.job = some r) (ha : r.active = true) (hs : r.state = .queued ∨ r.state = .failed)
      (hno : v.NoQuarantine) (hq : q.state = .active) (he : e.body = .jobPathologicalQuarantined reason cause) :
      JobStep now maxAttempts .quarantined v
        ({ v with job := some (if r.state = JobState.queued then r.pathological now reason else r) }.quarantine q e)
  | released {v : JobView} {r : Job} {q : Quarantine} {e : Event} {reason : String} (hr : v.job = some r)
      (hq : q ∈ v.quarantines) (ha : q.state = .active)
      (hone : ∀ q' ∈ v.quarantines, q'.state = .active → q' = q)
      (he : e.body = .jobPathologicalQuarantineReleased reason) :
      JobStep now maxAttempts .released v
        { v with
          job := some (if r.state = .failed then r.requeued now else r)
          quarantines := updateWhere (fun q' => decide (q' = q)) (Quarantine.release now reason) v.quarantines
          events := v.events ++ [e] }
  | requeued {v : JobView} {r : Job} {e : Event} {reason : String} {attempt : Nat} {error cls : Option String}
      (hr : v.job = some r) (ha : r.active = true) (hs : r.state = .failed)
      (he : e.body = .jobOperatorRequeued reason attempt error cls) :
      JobStep now maxAttempts .requeued v { v with job := some (r.requeued now), events := v.events ++ [e] }

theorem JobStep.of_claimed {now : Time} {n : Nat} {v v' : JobView} (h : JobStep now n .claimed v v') :
    ∃ r r', v.job = some r ∧ v'.job = some r' ∧ r.state = .queued ∧ r'.state = .leased := by
  cases h with
  | claimed hr hq => exact ⟨_, _, hr, rfl, hq, rfl⟩

/-- Every job of a set makes one move, and no other job sees any of it. -/
structure Acts (now : Time) (m : Move) (jobs : List String) (s s' : Ledger) : Prop where
  wellFormed : s'.WellFormed
  steps : ∀ j ∈ jobs, JobStep now s.state.maxAttempts m (s.view j) (s'.view j)
  others : ∀ k, k ∉ jobs → s'.view k = s.view k
  frame : Frame s s'

theorem Edits.acts {now : Time} {m : Move} {j : String} {s s' : Ledger} (h : Edits j s s')
    (hstep : JobStep now s.state.maxAttempts m (s.view j) (s'.view j)) : Acts now m [j] s s' where
  wellFormed := h.wellFormed
  steps := by
    intro k hk
    rw [List.mem_singleton.mp hk]
    exact hstep
  others := fun k hk => h.others k (fun he => hk (List.mem_singleton.mpr he))
  frame := h.frame

theorem Acts.nil {now : Time} {m : Move} {s : Ledger} (hs : s.WellFormed) : Acts now m [] s s where
  wellFormed := hs
  steps := fun _ h => (List.not_mem_nil h).elim
  others := fun _ _ => rfl
  frame := Frame.refl s

theorem Acts.append {now : Time} {m : Move} {js ks : List String} {s t u : Ledger} (h : Acts now m js s t)
    (h' : Acts now m ks t u) (hd : ∀ j ∈ js, j ∉ ks) : Acts now m (js ++ ks) s u where
  wellFormed := h'.wellFormed
  steps := by
    intro j hj
    by_cases hjs : j ∈ js
    · rw [h'.others j (hd j hjs)]
      exact h.steps j hjs
    · have hjk : j ∈ ks := (List.mem_append.mp hj).resolve_left hjs
      rw [← h.others j hjs, ← h.frame.maxAttempts]
      exact h'.steps j hjk
  others := by
    intro k hk
    rw [List.mem_append, not_or] at hk
    rw [h'.others k hk.2, h.others k hk.1]
  frame := h.frame.trans h'.frame

theorem Acts.still {now : Time} {m : Move} {jobs : List String} {s t u : Ledger} (h : Acts now m jobs s t)
    (h' : Still t u) (hstate : u.state = t.state) : Acts now m jobs s u where
  wellFormed := h'.wellFormed
  steps := by
    intro j hj
    rw [h'.views]
    exact h.steps j hj
  others := by
    intro k hk
    rw [h'.views]
    exact h.others k hk
  frame := h.frame.trans (h'.frame hstate)

/-- A property of one job's view that the moves of a set keep holds of every job. -/
theorem Acts.invariant {now : Time} {m : Move} {jobs : List String} {s s' : Ledger} {P : JobView → Prop}
    (h : Acts now m jobs s s')
    (hstep : ∀ v v', JobStep now s.state.maxAttempts m v v' → P v → P v') (hP : ∀ j, P (s.view j)) :
    ∀ j, P (s'.view j) := by
  intro j
  by_cases hj : j ∈ jobs
  · exact hstep _ _ (h.steps j hj) (hP j)
  · rw [h.others j hj]
    exact hP j

end FidbPoc.Coordinator
