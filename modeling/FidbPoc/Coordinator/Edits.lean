import FidbPoc.Coordinator.View

namespace FidbPoc.Coordinator

open FidbPoc.Lib.Table

/-- What work on existing jobs leaves alone: everything but the rows about jobs,
the event log and the pause flag. -/
structure Frame (s s' : Ledger) : Prop where
  plans : s'.plans = s.plans
  batches : s'.batches = s.batches
  resolvedCells : s'.resolvedCells = s.resolvedCells
  jobIds : s'.jobs.map (·.jobId) = s.jobs.map (·.jobId)
  state : ∃ paused, s'.state = { s.state with paused := paused }

namespace Frame

theorem refl (s : Ledger) : Frame s s := ⟨rfl, rfl, rfl, rfl, s.state.paused, rfl⟩

theorem trans {s t u : Ledger} (h : Frame s t) (h' : Frame t u) : Frame s u := by
  obtain ⟨p, hp⟩ := h.state
  obtain ⟨q, hq⟩ := h'.state
  refine ⟨h'.plans.trans h.plans, h'.batches.trans h.batches, h'.resolvedCells.trans h.resolvedCells,
    h'.jobIds.trans h.jobIds, q, ?_⟩
  rw [hq, hp]

theorem maxAttempts {s s' : Ledger} (h : Frame s s') : s'.state.maxAttempts = s.state.maxAttempts := by
  obtain ⟨p, hp⟩ := h.state
  rw [hp]

theorem maxWorkers {s s' : Ledger} (h : Frame s s') : s'.state.maxWorkers = s.state.maxWorkers := by
  obtain ⟨p, hp⟩ := h.state
  rw [hp]

end Frame

/-- Statements about one job: the ledger stays well formed, and no other job sees them. -/
structure Edits (j : String) (s s' : Ledger) : Prop where
  wellFormed : s'.WellFormed
  others : ∀ k, k ≠ j → s'.view k = s.view k
  frame : Frame s s'

namespace Edits

theorem refl {s : Ledger} (hs : s.WellFormed) (j : String) : Edits j s s := ⟨hs, fun _ _ => rfl, Frame.refl s⟩

theorem trans {j : String} {s t u : Ledger} (h : Edits j s t) (h' : Edits j t u) : Edits j s u where
  wellFormed := h'.wellFormed
  others := fun k hk => (h'.others k hk).trans (h.others k hk)
  frame := h.frame.trans h'.frame

section Statements

variable {s : Ledger} {j : String}

theorem updateJobs (hs : s.WellFormed) {p : Job → Bool} {f : Job → Job} (hp : ∀ r, p r = true → r.jobId = j)
    (h : ∀ r, (f r).jobId = r.jobId) : Edits j s (s.updateJobs p f) where
  wellFormed := hs.updateJobs fun r _ => h r
  others := by
    intro k hk
    rw [Ledger.view_updateJobs fun r _ => h r]
    have hjob : (s.view k).job.map (fun r => if p r then f r else r) = (s.view k).job := by
      cases hr : (s.view k).job with
      | none => rfl
      | some r =>
        have hrk : r.jobId = k := Ledger.job?_jobId hr
        have hpr : ¬p r = true := fun hpr => hk (hrk.symm.trans (hp r hpr))
        rw [Option.map_some, if_neg hpr]
    rw [hjob]
  frame := ⟨rfl, rfl, rfl, map_updateWhere _ (fun r _ => h r) s.jobs, s.state.paused, rfl⟩

theorem updateAttempts (hs : s.WellFormed) {p : Attempt → Bool} {f : Attempt → Attempt}
    (hp : ∀ r, p r = true → r.jobId = j)
    (h : ∀ r, (f r).attemptId = r.attemptId ∧ (f r).jobId = r.jobId ∧ (f r).leaseGeneration = r.leaseGeneration) :
    Edits j s (s.updateAttempts p f) where
  wellFormed := hs.updateAttempts fun r _ => h r
  others := by
    intro k hk
    rw [Ledger.view_updateAttempts fun r _ => (h r).2.1]
    have hrows : FidbPoc.Lib.Table.updateWhere p f (s.view k).attempts = (s.view k).attempts := by
      refine updateWhere_eq_self fun r hr => ?_
      rw [Bool.eq_false_iff]
      intro hpr
      have hrk : r.jobId = k := of_decide_eq_true (List.mem_filter.mp hr).2
      exact hk (hrk.symm.trans (hp r hpr))
    rw [hrows]
  frame := ⟨rfl, rfl, rfl, rfl, s.state.paused, rfl⟩

theorem updateStageAttempts (hs : s.WellFormed) {p : StageAttempt → Bool} {f : StageAttempt → StageAttempt}
    (hp : ∀ r ∈ s.stageAttempts, p r = true → r.jobId = j)
    (h : ∀ r, (f r).stageAttemptId = r.stageAttemptId ∧ (f r).attemptId = r.attemptId ∧
      (f r).jobId = r.jobId ∧ (f r).leaseGeneration = r.leaseGeneration) :
    Edits j s (s.updateStageAttempts p f) where
  wellFormed := hs.updateStageAttempts fun r _ => h r
  others := by
    intro k hk
    rw [Ledger.view_updateStageAttempts fun r _ => (h r).2.2.1]
    have hrows : FidbPoc.Lib.Table.updateWhere p f (s.view k).spans = (s.view k).spans := by
      refine updateWhere_eq_self fun r hr => ?_
      rw [Bool.eq_false_iff]
      intro hpr
      obtain ⟨hm, hrk⟩ := List.mem_filter.mp hr
      exact hk ((of_decide_eq_true hrk).symm.trans (hp r hm hpr))
    rw [hrows]
  frame := ⟨rfl, rfl, rfl, rfl, s.state.paused, rfl⟩

theorem updateQuarantines (hs : s.WellFormed) {p : Quarantine → Bool} {f : Quarantine → Quarantine}
    (hp : ∀ r ∈ s.quarantines, p r = true → r.jobId = j)
    (h : ∀ r, (f r).quarantineId = r.quarantineId ∧ (f r).jobId = r.jobId ∧ (f r).state = .released) :
    Edits j s (s.updateQuarantines p f) where
  wellFormed := hs.updateQuarantines fun r _ => h r
  others := by
    intro k hk
    rw [Ledger.view_updateQuarantines fun r _ => (h r).2.1]
    have hrows : FidbPoc.Lib.Table.updateWhere p f (s.view k).quarantines = (s.view k).quarantines := by
      refine updateWhere_eq_self fun r hr => ?_
      rw [Bool.eq_false_iff]
      intro hpr
      obtain ⟨hm, hrk⟩ := List.mem_filter.mp hr
      exact hk ((of_decide_eq_true hrk).symm.trans (hp r hm hpr))
    rw [hrows]
  frame := ⟨rfl, rfl, rfl, rfl, s.state.paused, rfl⟩

theorem attempt (hs : s.WellFormed) (row : Attempt) (hid : row.attemptId = s.nextAttemptId)
    (hj : row.jobId ∈ s.jobs.map (·.jobId)) : Edits row.jobId s { s with attempts := s.attempts ++ [row] } where
  wellFormed := hs.attempt hid hj
  others := by
    intro k hk
    simp [Ledger.view, Ledger.job?, Ne.symm hk]
  frame := ⟨rfl, rfl, rfl, rfl, s.state.paused, rfl⟩

theorem span (hs : s.WellFormed) (row : StageAttempt) (hid : row.stageAttemptId = s.nextStageAttemptId)
    (ha : ∃ a ∈ s.attempts, a.attemptId = row.attemptId ∧ a.jobId = row.jobId ∧
      a.leaseGeneration = row.leaseGeneration) :
    Edits row.jobId s { s with stageAttempts := s.stageAttempts ++ [row] } where
  wellFormed := hs.span hid ha
  others := by
    intro k hk
    simp [Ledger.view, Ledger.job?, Ne.symm hk]
  frame := ⟨rfl, rfl, rfl, rfl, s.state.paused, rfl⟩

theorem quarantine (hs : s.WellFormed) (row : Quarantine) (hid : row.quarantineId = s.nextQuarantineId)
    (hj : row.jobId ∈ s.jobs.map (·.jobId))
    (hno : ∀ r ∈ s.quarantines, ¬(r.jobId = row.jobId ∧ r.state = .active ∧ row.state = .active)) :
    Edits row.jobId s { s with quarantines := s.quarantines ++ [row] } where
  wellFormed := hs.quarantine hid hj hno
  others := by
    intro k hk
    simp [Ledger.view, Ledger.job?, Ne.symm hk]
  frame := ⟨rfl, rfl, rfl, rfl, s.state.paused, rfl⟩

theorem events (hs : s.WellFormed) {rows : List Event} (hids : Serial (·.eventId) (s.events ++ rows))
    (hrows : ∀ e ∈ rows, e.jobId = some j) (hj : j ∈ s.jobs.map (·.jobId)) :
    Edits j s { s with events := s.events ++ rows } where
  wellFormed := by
    refine hs.events hids fun e he k hk => ?_
    rw [hrows e he] at hk
    exact Option.some.inj hk ▸ hj
  others := by
    intro k hk
    have hnone : rows.filter (fun r => decide (r.jobId = some k)) = [] := by
      simp only [List.filter_eq_nil_iff, decide_eq_true_eq]
      intro e he hek
      exact hk (Option.some.inj (hek.symm.trans (hrows e he)))
    simp only [Ledger.view, Ledger.job?, List.filter_append, hnone, List.append_nil]
  frame := ⟨rfl, rfl, rfl, rfl, s.state.paused, rfl⟩

theorem event (hs : s.WellFormed) {now : Time} {actor : String} {subject : Subject} {body : EventBody}
    {s' : Ledger} (hsub : subject.jobId = some j) (hj : j ∈ s.jobs.map (·.jobId))
    (h : s.event now actor subject body = .ok s') :
    Edits j s s' ∧ ∃ e : Event, e.body = body ∧ s'.view j = { s.view j with events := (s.view j).events ++ [e] } := by
  obtain rfl := Ledger.event_eq_ok h
  have hrows : ∀ e ∈ [s.newEvent now actor subject body], e.jobId = some j := by
    intro e he
    rw [List.mem_singleton.mp he]
    exact hsub
  exact ⟨events hs (hs.events_serial.append rfl) hrows hj, s.newEvent now actor subject body, rfl,
    Ledger.view_events hrows⟩

end Statements

theorem mem_jobs {j : String} {s s' : Ledger} (h : Edits j s s') {k : String} (hk : k ∈ s.jobs.map (·.jobId)) :
    k ∈ s'.jobs.map (·.jobId) := by
  rw [h.frame.jobIds]
  exact hk

end Edits

/-- Work on the queue as a whole: no job sees it. -/
structure Still (s s' : Ledger) : Prop where
  wellFormed : s'.WellFormed
  views : ∀ j, s'.view j = s.view j
  jobs : s'.jobs = s.jobs
  attempts : s'.attempts = s.attempts
  stageAttempts : s'.stageAttempts = s.stageAttempts
  quarantines : s'.quarantines = s.quarantines
  plans : s'.plans = s.plans
  batches : s'.batches = s.batches
  resolvedCells : s'.resolvedCells = s.resolvedCells

namespace Still

theorem refl {s : Ledger} (hs : s.WellFormed) : Still s s :=
  ⟨hs, fun _ => rfl, rfl, rfl, rfl, rfl, rfl, rfl, rfl⟩

theorem trans {s t u : Ledger} (h : Still s t) (h' : Still t u) : Still s u :=
  ⟨h'.wellFormed, fun j => (h'.views j).trans (h.views j), h'.jobs.trans h.jobs, h'.attempts.trans h.attempts,
    h'.stageAttempts.trans h.stageAttempts, h'.quarantines.trans h.quarantines, h'.plans.trans h.plans,
    h'.batches.trans h.batches, h'.resolvedCells.trans h.resolvedCells⟩

theorem updateState {s : Ledger} (hs : s.WellFormed) (f : CoordinatorState → CoordinatorState) :
    Still s (s.updateState f) :=
  ⟨hs.congr hs.batches_nodup rfl rfl rfl rfl rfl, fun _ => rfl, rfl, rfl, rfl, rfl, rfl, rfl, rfl⟩

theorem workers {s : Ledger} (hs : s.WellFormed) (workers : List Worker) : Still s { s with workers := workers } :=
  ⟨hs.congr hs.batches_nodup rfl rfl rfl rfl rfl, fun _ => rfl, rfl, rfl, rfl, rfl, rfl, rfl, rfl⟩

theorem event {s s' : Ledger} (hs : s.WellFormed) {now : Time} {actor : String} {subject : Subject}
    {body : EventBody} (hsub : subject.jobId = none) (h : s.event now actor subject body = .ok s') :
    Still s s' ∧ s'.state = s.state := by
  obtain rfl := Ledger.event_eq_ok h
  have hnone : (s.newEvent now actor subject body).jobId = none := hsub
  refine ⟨⟨?_, ?_, rfl, rfl, rfl, rfl, rfl, rfl, rfl⟩, rfl⟩
  · refine hs.events (hs.events_serial.append rfl) fun e he j hj => ?_
    rw [List.mem_singleton.mp he, hnone] at hj
    cases hj
  · intro j
    simp [Ledger.view, Ledger.job?, hnone]

theorem frame {s s' : Ledger} (h : Still s s') {paused : Bool} (hstate : s'.state = { s.state with paused := paused }) :
    Frame s s' :=
  ⟨h.plans, h.batches, h.resolvedCells, by rw [h.jobs], paused, hstate⟩

theorem edits {s s' : Ledger} (h : Still s s') {paused : Bool} (hstate : s'.state = { s.state with paused := paused })
    (j : String) : Edits j s s' :=
  ⟨h.wellFormed, fun k _ => h.views k, h.frame hstate⟩

end Still

end FidbPoc.Coordinator
