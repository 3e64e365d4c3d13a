import FidbPoc.Coordinator.Mirror

namespace FidbPoc.Coordinator

open FidbPoc.Lib FidbPoc.Lib.Table

/-- What the audit log says of a job: where it stands and how often it was leased. -/
structure Standing where
  state : JobState
  attemptCount : Nat
  leaseGeneration : Nat
  deriving DecidableEq

def Job.standing (r : Job) : Standing := ⟨r.state, r.attemptCount, r.leaseGeneration⟩

/-- The reading of one event of a job. -/
def EventBody.replay (body : EventBody) (m : Option Standing) : Option Standing :=
  match body with
  | .jobQueued .. => some ⟨.queued, 0, 0⟩
  | .jobBlocked .. => some ⟨.blocked, 0, 0⟩
  | .jobClaimed attempt generation _ _ => m.map (fun _ => ⟨.leased, attempt, generation⟩)
  | .stage .. => m.map (fun m => { m with state := .running })
  | .jobCompleted .. => m.map (fun m => { m with state := .complete })
  | .jobRequeued .. => m.map (fun m => { m with state := .queued })
  | .jobFailed .. => m.map (fun m => { m with state := .failed })
  | .jobPathologicalQuarantined .. => m.map (fun m => { m with state := .failed })
  | .jobOperatorRequeued .. => m.map (fun m => { m with state := .queued })
  | .jobOperatorInterruptedRequeued .. => m.map (fun m => { m with state := .queued })
  | .jobPathologicalQuarantineReleased .. =>
    m.map (fun m => if m.state = .failed then { m with state := .queued } else m)
  | _ => m

def replay (events : List Event) : Option Standing := events.foldl (fun m e => e.body.replay m) none

/-- The events of a job in the order of their ids. -/
def eventsOf (s : Ledger) (jobId : String) : List Event :=
  (s.events.filter (fun e => decide (e.jobId = some jobId))).insertionSort (fun e e' => e.eventId ≤ e'.eventId)

theorem replay_append (events rest : List Event) :
    replay (events ++ rest) = rest.foldl (fun m e => e.body.replay m) (replay events) :=
  List.foldl_append

theorem replay_concat (events : List Event) (e : Event) : replay (events ++ [e]) = e.body.replay (replay events) :=
  replay_append events [e]

theorem replay_quiet {body : EventBody} (h : body.quiet = true) (m : Option Standing) : body.replay m = m := by
  cases body <;> first | rfl | cases h

theorem replay_notes {notes : List Event} (h : Quiet notes) (events : List Event) :
    replay (events ++ notes) = replay events := by
  induction notes using List.reverseRecOn with
  | nil => rw [List.append_nil]
  | append_singleton notes e ih =>
    rw [← List.append_assoc, replay_concat, replay_quiet (h e (by simp))]
    exact ih fun x hx => h x (List.mem_append_left _ hx)

def JobView.Replays (v : JobView) : Prop := replay v.events = v.job.map Job.standing

namespace JobView

variable {v : JobView}

theorem Replays.of_job (hv : v.Replays) {r : Job} (hr : v.job = some r) : replay v.events = some r.standing := by
  rw [hv, hr]
  rfl

/-- The announced end of a lease is the end that the job row records. -/
theorem Replays.endLease (hv : v.Replays) {now : Time} {r : Job} {o : LeaseOutcome} {notes : List Event}
    {e : Event} (hr : v.job = some r) (hn : Quiet notes)
    (he : e.body.replay (some r.standing) = some { r.standing with state := o.state }) :
    (v.endLease now r o notes e).Replays := by
  simp only [Replays, JobView.endLease]
  rw [replay_concat, replay_notes hn, hv.of_job hr, he]
  rfl

end JobView

theorem replay_createdEvent {jobId batchId planDigest : String} {generation : Nat} {now : Time} (row : QueueRow)
    (m : Option Standing) :
    (createdEvent row).replay m = some (newJob jobId batchId planDigest generation now row).standing := by
  by_cases h : row.state = .planned <;> simp [createdEvent, newJob, Job.standing, EventBody.replay, h]

/-- Every move appends the events that say what it did. -/
theorem JobStep.replays {now : Time} {n : Nat} {m : Move} {v v' : JobView} (h : JobStep now n m v v')
    (hv : v.Replays) : v'.Replays := by
  cases h with
  | @created jobId batchId planDigest generation row e he =>
    show e.body.replay none = _
    rw [he]
    exact replay_createdEvent row none
  | deselected hr =>
    simp only [JobView.Replays]
    rw [hv.of_job hr]
    rfl
  | placed hr hn =>
    simp only [JobView.Replays]
    rw [replay_notes hn, hv.of_job hr]
    rfl
  | claimed hr hq ha hid hsp he =>
    simp only [JobView.Replays]
    rw [replay_concat, hv.of_job hr, he]
    rfl
  | renewed hr hh he =>
    simp only [JobView.Replays]
    rw [replay_concat, replay_quiet he, hv.of_job hr]
    rfl
  | staged hr hh ha hlive hs he =>
    simp only [JobView.Replays]
    rw [replay_concat, hv.of_job hr, he]
    rfl
  | completed hr hh hopen he =>
    simp only [JobView.Replays]
    rw [replay_concat, hv.of_job hr, he]
    rfl
  | expired hr hx ho hn he =>
    refine hv.endLease hr hn ?_
    rcases he with ⟨hs, -, he⟩ | ⟨hs, -, he⟩ <;> rw [he, hs] <;> rfl
  | failed hr hh ho hn he =>
    refine hv.endLease hr hn ?_
    rcases he with ⟨hs, -, he⟩ | ⟨hs, he⟩ <;> rw [he, hs] <;> rfl
  | @failedPathological _ r _ _ _ o notes e _ _ _ _ hr hh ho hn hs he hno hq he' =>
    have hfirst : (v.endLease now r o notes e).Replays := hv.endLease hr hn (by rw [he, hs]; rfl)
    simp only [JobView.Replays, JobView.quarantine] at hfirst ⊢
    rw [replay_concat, hfirst, he']
    simp [EventBody.replay, JobView.endLease, Job.endLease, Job.unleased, Job.standing, hs]
  | interrupted hr hl ho hn hs he =>
    refine hv.endLease hr hn ?_
    rw [he, hs]
    rfl
  | quarantined hr ha hs hno hq he =>
    simp only [JobView.Replays, JobView.quarantine]
    rw [replay_concat, hv.of_job hr, he]
    rcases hs with hs | hs <;> simp [EventBody.replay, Job.standing, Job.pathological, hs]
  | @released _ r q e reason hr hq ha hone he =>
    simp only [JobView.Replays]
    rw [replay_concat, hv.of_job hr, he]
    by_cases hf : r.state = .failed <;> simp [EventBody.replay, Job.standing, Job.requeued, hf]
  | requeued hr ha hs he =>
    simp only [JobView.Replays]
    rw [replay_concat, hv.of_job hr, he]
    rfl

theorem eventsOf_eq_view {s : Ledger} (hs : s.WellFormed) (j : String) : eventsOf s j = (s.view j).events := by
  refine List.Pairwise.insertionSort_eq ?_
  have hids : (s.events.map (·.eventId)).Pairwise (· ≤ ·) := by
    rw [hs.events_serial]
    exact List.pairwise_le_range' 1
  exact (List.pairwise_map.mp hids).sublist List.filter_sublist

/-- The audit log of a reachable ledger tells every job's state, attempts and lease
generation; an operation that raises adds nothing to it. -/
theorem eventLog_reconstructs (sha256 : String → String) {s : Ledger} (h : Reachable sha256 s) :
    (∀ jobId, replay (eventsOf s jobId) = (s.job? jobId).map Job.standing) ∧
      ∀ (op : Op) (e : Error), (op.apply sha256 s).1 = .error e → (op.apply sha256 s).2.events = s.events := by
  obtain ⟨hs, hv⟩ := reachable_invariant (P := JobView.Replays) rfl
    (fun _ _ _ _ _ hstep hv => hstep.replays hv) h
  refine ⟨fun jobId => ?_, fun op e he => ?_⟩
  · rw [eventsOf_eq_view hs]
    exact hv jobId
  · cases hr : op.apply sha256 s with
    | mk result t =>
      rw [hr] at he
      simp only at he
      subst he
      rw [(transaction_error hr).2]

theorem eventLog_reconstructs_retried :
    replay (eventsOf (after id freshLedger Sample.retried) (Sample.jobId "a" "1")) = some ⟨.leased, 2, 2⟩ := by
  rw [(eventLog_reconstructs id (reachable_after id Sample.retried)).1]
  decide +kernel

end FidbPoc.Coordinator
