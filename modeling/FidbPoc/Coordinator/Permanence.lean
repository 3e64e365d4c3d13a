import FidbPoc.Coordinator.Refinement
import FidbPoc.Lib.Growth

namespace FidbPoc.Coordinator

open FidbPoc.Lib FidbPoc.Lib.Table FidbPoc.Lib.Growth Relation

/-- The columns of an attempt that its lease gave it. -/
def Attempt.lease (a : Attempt) : Nat × String × Nat × String × Nat × String × Time :=
  (a.attemptId, a.jobId, a.attemptNumber, a.leaseToken, a.leaseGeneration, a.workerId, a.startedAt)

/-- The columns of a span that its start gave it. -/
def StageAttempt.start (x : StageAttempt) : Nat × Nat × String × Nat × Nat × String × Nat × String × Nat × Time :=
  (x.stageAttemptId, x.attemptId, x.jobId, x.attemptNumber, x.leaseGeneration, x.workerId, x.sequence, x.stage, x.stageAttempt,
    x.startedAt)

def Quarantine.cause (q : Quarantine) : Nat × String × String × String × String × Nat × Time :=
  (q.quarantineId, q.jobId, q.batchId, q.reason, q.failureClass, q.attemptCount, q.createdAt)

/-- The columns of a job that say which cell of which plan it is. -/
def Job.cell (r : Job) : String × String × String × String × List String × QueueRow × Time :=
  (r.jobId, r.batchId, r.planDigest, r.baseCellId, r.factorVariants, r.queueRow, r.createdAt)

namespace JobView

/-- What later ledgers keep of a job: its cell, its result once it is complete, its events, and the attempts, spans and
quarantines that have ended. -/
structure KeptBy (v v' : JobView) : Prop where
  job : ∀ r, v.job = some r → ∃ r', v'.job = some r' ∧ r'.cell = r.cell ∧ r.attemptCount ≤ r'.attemptCount ∧
    r.leaseGeneration ≤ r'.leaseGeneration ∧ (r.state = .complete → r'.state = .complete ∧ r'.result = r.result)
  attempts : Grown Attempt.lease (fun a => a.state.live = false) v.attempts v'.attempts
  spans : Grown StageAttempt.start (fun x => x.state ≠ .started) v.spans v'.spans
  quarantines : Grown Quarantine.cause (fun q => q.state = .released) v.quarantines v'.quarantines
  events : v.events <+: v'.events

variable {v v' v'' : JobView}

theorem KeptBy.refl (v : JobView) : v.KeptBy v where
  job r hr := ⟨r, hr, rfl, Nat.le_refl _, Nat.le_refl _, fun h => ⟨h, rfl⟩⟩
  attempts := .refl _
  spans := .refl _
  quarantines := .refl _
  events := List.prefix_refl _

theorem KeptBy.trans (h : v.KeptBy v') (h' : v'.KeptBy v'') : v.KeptBy v'' where
  job r hr := by
    obtain ⟨r', hr', hcell, hcount, hgeneration, hcomplete⟩ := h.job r hr
    obtain ⟨r'', hr'', hcell', hcount', hgeneration', hcomplete'⟩ := h'.job r' hr'
    refine ⟨r'', hr'', hcell'.trans hcell, hcount.trans hcount', hgeneration.trans hgeneration', fun hstate => ?_⟩
    obtain ⟨hstate', hresult⟩ := hcomplete hstate
    obtain ⟨hstate'', hresult'⟩ := hcomplete' hstate'
    exact ⟨hstate'', hresult'.trans hresult⟩
  attempts := h.attempts.trans h'.attempts
  spans := h.spans.trans h'.spans
  quarantines := h.quarantines.trans h'.quarantines
  events := h.events.trans h'.events

end JobView

section Moves

variable {now : Time} {n : Nat} {m : Move} {v v' : JobView} {r : Job}

/-- A job that is not complete may go into any state of the same cell. -/
theorem keeps_job {r' : Job} (hr : v.job = some r) (hr' : v'.job = some r') (hcell : r'.cell = r.cell)
    (hcount : r.attemptCount ≤ r'.attemptCount) (hgeneration : r.leaseGeneration ≤ r'.leaseGeneration)
    (hcomplete : r.state = .complete → r'.state = .complete ∧ r'.result = r.result) :
    ∀ x, v.job = some x → ∃ x', v'.job = some x' ∧ x'.cell = x.cell ∧ x.attemptCount ≤ x'.attemptCount ∧
      x.leaseGeneration ≤ x'.leaseGeneration ∧ (x.state = .complete → x'.state = .complete ∧ x'.result = x.result) := by
  intro x hx
  obtain rfl : r = x := Option.some.inj (hr.symm.trans hx)
  exact ⟨r', hr', hcell, hcount, hgeneration, hcomplete⟩

theorem not_complete_of_live (h : r.state.live = true) : r.state ≠ .complete := by
  intro hstate
  rw [hstate] at h
  cases h

theorem live_of_holds {token : String} {generation : Nat} (h : r.holds token generation now = true) : r.state.live = true := by
  simp only [Job.holds, Bool.and_eq_true] at h
  exact h.1.1.1

theorem live_of_liveFor {a : Attempt} {jobId : String} {generation : Nat} (h : a.liveFor jobId generation = true) :
    ¬a.state.live = false := by
  simp only [Attempt.liveFor, Bool.and_eq_true] at h
  rw [h.2]
  decide

theorem started_of_openFor {x : StageAttempt} {jobId : String} {generation : Nat} (h : x.openFor jobId generation = true) :
    ¬x.state ≠ .started := by
  simp only [StageAttempt.openFor, Bool.and_eq_true, decide_eq_true_eq] at h
  exact not_not_intro h.2

/-- An update of the live attempts of a lease. -/
theorem grown_liveFor {attempts : List Attempt} {jobId : String} {generation : Nat} {f : Attempt → Attempt}
    (hf : ∀ a, (f a).lease = a.lease) : Grown Attempt.lease (fun a => a.state.live = false) attempts
      (updateWhere (fun a => a.liveFor jobId generation) f attempts) :=
  grown_updateWhere (fun a _ => hf a) fun _ _ h => live_of_liveFor h

theorem endLease_keptBy {o : LeaseOutcome} {notes : List Event} {e : Event} (hr : v.job = some r) (hlive : r.state.live = true) :
    v.KeptBy (v.endLease now r o notes e) where
  job := keeps_job hr rfl rfl (Nat.le_refl _) (Nat.le_refl _) fun h => absurd h (not_complete_of_live hlive)
  attempts := grown_liveFor fun _ => rfl
  spans := grown_updateWhere (fun _ _ => rfl) fun _ _ h => started_of_openFor h
  quarantines := .refl _
  events := by
    rw [JobView.endLease, List.append_assoc]
    exact List.prefix_append ..

theorem quarantine_keptBy {q : Quarantine} {e : Event} : v.KeptBy (v.quarantine q e) where
  job _ hr := ⟨_, hr, rfl, Nat.le_refl _, Nat.le_refl _, fun h => ⟨h, rfl⟩⟩
  attempts := .refl _
  spans := .refl _
  quarantines := grown_append ..
  events := List.prefix_append ..

theorem SpanStep.grown {a : Attempt} {spans spans' : List StageAttempt} {stage : Option String}
    (h : SpanStep a spans stage spans') : Grown StageAttempt.start (fun x => x.state ≠ .started) spans spans' := by
  cases h with
  | opened | skipped => exact grown_append ..
  | @closed x report hx ha hs hr =>
    refine grown_updateWhere (fun _ _ => rfl) fun y _ hy => ?_
    rw [of_decide_eq_true hy]
    exact not_not_intro hs

/-- No move of a job rewrites its past. -/
theorem JobStep.keptBy (h : JobStep now n m v v') : v.KeptBy v' := by
  cases h with
  | created =>
    refine ⟨fun _ hr => ?_, grown_append .., grown_append .., grown_append .., List.nil_prefix⟩
    cases hr
  | deselected hr =>
    exact ⟨keeps_job hr rfl rfl (Nat.le_refl _) (Nat.le_refl _) fun h => ⟨h, rfl⟩, .refl _, .refl _, .refl _, List.prefix_refl _⟩
  | placed hr =>
    exact ⟨keeps_job hr rfl rfl (Nat.le_refl _) (Nat.le_refl _) fun h => ⟨h, rfl⟩, .refl _, .refl _, .refl _,
      List.prefix_append ..⟩
  | claimed hr hq =>
    refine ⟨keeps_job hr rfl rfl (Nat.le_succ _) (Nat.le_succ _) fun h => ?_, grown_append .., .refl _, .refl _,
      List.prefix_append ..⟩
    rw [hq] at h
    cases h
  | renewed hr hh =>
    have hlive := live_of_holds hh
    exact ⟨keeps_job hr rfl rfl (Nat.le_refl _) (Nat.le_refl _) fun h => absurd h (not_complete_of_live hlive),
      grown_liveFor fun _ => rfl, .refl _, .refl _, List.prefix_append ..⟩
  | staged hr hh _ _ hs =>
    have hlive := live_of_holds hh
    exact ⟨keeps_job hr rfl rfl (Nat.le_refl _) (Nat.le_refl _) fun h => absurd h (not_complete_of_live hlive),
      grown_liveFor fun _ => rfl, hs.grown, .refl _, List.prefix_append ..⟩
  | completed hr hh =>
    have hlive := live_of_holds hh
    exact ⟨keeps_job hr rfl rfl (Nat.le_refl _) (Nat.le_refl _) fun h => absurd h (not_complete_of_live hlive),
      grown_liveFor fun _ => rfl, .refl _, .refl _, List.prefix_append ..⟩
  | expired hr hx =>
    refine endLease_keptBy hr ?_
    simp only [Job.expired, Bool.and_eq_true] at hx
    exact hx.1
  | failed hr hh => exact endLease_keptBy hr (live_of_holds hh)
  | failedPathological hr hh => exact (endLease_keptBy hr (live_of_holds hh)).trans quarantine_keptBy
  | interrupted hr hl => exact endLease_keptBy hr hl
  | @quarantined _ r q e reason cause hr ha hs hno hq he =>
    have hstate : r.state ≠ .complete := by
      obtain hs | hs := hs
      · rw [hs]
        exact fun h => nomatch h
      · rw [hs]
        exact fun h => nomatch h
    have hpathological : v.KeptBy { v with job := some (if r.state = JobState.queued then r.pathological now reason else r) } := by
      refine ⟨keeps_job hr rfl ?_ ?_ ?_ fun h => absurd h hstate, .refl _, .refl _, .refl _, List.prefix_refl _⟩
      · split <;> rfl
      · split <;> exact Nat.le_refl _
      · split <;> exact Nat.le_refl _
    exact hpathological.trans quarantine_keptBy
  | @released _ r q e reason hr hq ha hone he =>
    refine ⟨keeps_job hr rfl ?_ ?_ ?_ fun h => ?_, .refl _, .refl _, ?_, List.prefix_append ..⟩
    · split <;> rfl
    · split <;> exact Nat.le_refl _
    · split <;> exact Nat.le_refl _
    · have hstate : r.state ≠ .failed := fun hfailed => nomatch hfailed.symm.trans h
      rw [if_neg hstate]
      exact ⟨h, rfl⟩
    · refine grown_updateWhere (fun _ _ => rfl) fun q' _ hq' => ?_
      rw [of_decide_eq_true hq', ha]
      exact fun h => nomatch h
  | requeued hr ha hs =>
    refine ⟨keeps_job hr rfl rfl (Nat.le_refl _) (Nat.le_refl _) fun h => ?_, .refl _, .refl _, .refl _, List.prefix_append ..⟩
    rw [hs] at h
    cases h

end Moves

section Histories

variable {sha256 : String → String} {op : Op} {s s' : Ledger}

theorem Committed.keptBy (h : Committed sha256 op s s') (j : String) : (s.view j).KeptBy (s'.view j) := by
  have hviews := h.views j
  generalize s'.view j = v' at hviews ⊢
  induction hviews with
  | refl => exact .refl _
  | tail _ hlast ih =>
    obtain ⟨m, hlast⟩ := hlast
    exact ih.trans hlast.keptBy

/-- Whatever is called after a step of a history, the ledger keeps the past of every job: no event, ended attempt, ended span or
released quarantine changes, a job stays the cell that it is, and a complete job keeps its result. -/
theorem past_kept {trace : List (Step Ledger Op)} (h : History sha256 trace s) {st : Step Ledger Op} (hst : st ∈ trace)
    (j : String) : (st.before.view j).KeptBy (s.view j) := by
  obtain ⟨xs, ys, hbefore, hnext, hafter⟩ := h.split hst
  have hreachable : st.before.WellFormed := (reachable_invariant (P := fun _ => True) trivial (fun _ _ _ _ _ _ _ => trivial)
    ⟨xs, hbefore⟩).1
  have hrun : Run (Next sha256) st.before (⟨st.before, st.op, st.after⟩ :: ys) s := hafter.cons hnext
  refine (run_invariant (P := fun t => (st.before.view j).KeptBy (t.view j)) hrun hreachable (.refl _) ?_).2
  exact fun _ _ _ _ hc hkept => hkept.trans (hc.keptBy j)

end Histories

/-- A job completes, and the queue is synchronized to another plan and back. -/
def Sample.resynchronized : List Op :=
  [.syncQueue Sample.queueA (Sample.resolve "1") "coordinator" 0,
    .claim "worker" "first" none none none 1,
    .complete (Sample.jobId "a" "1") "first" 1 "result" 2,
    .syncQueue Sample.queueA (Sample.resolve "2") "coordinator" 3,
    .syncQueue Sample.queueA (Sample.resolve "1") "coordinator" 4]

theorem past_kept_resynchronized :
    ∃ r, ((after id freshLedger Sample.resynchronized).view (Sample.jobId "a" "1")).job = some r ∧
    r.state = .complete ∧ r.result = some "result" := by
  have hst : ∃ st ∈ traceOf id freshLedger Sample.resynchronized,
      ∃ r, (st.before.view (Sample.jobId "a" "1")).job = some r ∧ r.state = .complete ∧ r.result = some "result" := by
    decide
  obtain ⟨st, hst, r, hr, hstate, hresult⟩ := hst
  obtain ⟨r', hr', -, -, -, hcomplete⟩ :=
    (past_kept (run_after id freshLedger Sample.resynchronized) hst (Sample.jobId "a" "1")).job r hr
  obtain ⟨hstate', hresult'⟩ := hcomplete hstate
  exact ⟨r', hr', hstate', hresult'.trans hresult⟩

end FidbPoc.Coordinator
