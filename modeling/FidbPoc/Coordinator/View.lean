import FidbPoc.Coordinator.Statements

namespace FidbPoc.Coordinator

open FidbPoc.Lib.Table

/-- Everything the ledger holds about one job. -/
structure JobView where
  job : Option Job
  attempts : List Attempt
  spans : List StageAttempt
  quarantines : List Quarantine
  events : List Event

def JobView.empty : JobView := ⟨none, [], [], [], []⟩

def Ledger.view (s : Ledger) (j : String) : JobView where
  job := s.job? j
  attempts := s.attempts.filter (fun r => decide (r.jobId = j))
  spans := s.stageAttempts.filter (fun r => decide (r.jobId = j))
  quarantines := s.quarantines.filter (fun r => decide (r.jobId = j))
  events := s.events.filter (fun r => decide (r.jobId = some j))

/-- Keys are unique, `AUTOINCREMENT` columns are serial, references resolve. -/
structure Ledger.WellFormed (s : Ledger) : Prop where
  jobs_nodup : (s.jobs.map (·.jobId)).Nodup
  batches_nodup : (s.batches.map (·.batchId)).Nodup
  attempts_serial : Serial (·.attemptId) s.attempts
  spans_serial : Serial (·.stageAttemptId) s.stageAttempts
  quarantines_serial : Serial (·.quarantineId) s.quarantines
  events_serial : Serial (·.eventId) s.events
  attempt_job : ∀ r ∈ s.attempts, r.jobId ∈ s.jobs.map (·.jobId)
  quarantine_job : ∀ r ∈ s.quarantines, r.jobId ∈ s.jobs.map (·.jobId)
  event_job : ∀ r ∈ s.events, ∀ j, r.jobId = some j → j ∈ s.jobs.map (·.jobId)
  one_active : ∀ q ∈ s.quarantines, ∀ q' ∈ s.quarantines, q.jobId = q'.jobId → q.state = .active →
    q'.state = .active → q = q'
  span_attempt : ∀ r ∈ s.stageAttempts, ∃ a ∈ s.attempts,
    a.attemptId = r.attemptId ∧ a.jobId = r.jobId ∧ a.leaseGeneration = r.leaseGeneration

namespace Ledger

theorem job?_eq_some {s : Ledger} (hs : s.WellFormed) {j : String} {row : Job} :
    s.job? j = some row ↔ row ∈ s.jobs ∧ row.jobId = j := by
  constructor
  · intro h
    exact ⟨List.mem_of_find?_eq_some h, by simpa using List.find?_some h⟩
  · rintro ⟨hm, rfl⟩
    exact find?_key hs.jobs_nodup hm

theorem job?_of_mem {s : Ledger} (hs : s.WellFormed) {row : Job} (h : row ∈ s.jobs) :
    s.job? row.jobId = some row :=
  (job?_eq_some hs).mpr ⟨h, rfl⟩

theorem job?_jobId {s : Ledger} {j : String} {row : Job} (h : s.job? j = some row) : row.jobId = j := by
  simpa using List.find?_some h

theorem job?_eq_none {s : Ledger} {j : String} : s.job? j = none ↔ j ∉ s.jobs.map (·.jobId) := by
  simp only [job?, List.find?_eq_none, decide_eq_true_eq, List.mem_map, not_exists, not_and]

theorem mem_view_attempts {s : Ledger} {j : String} {a : Attempt} :
    a ∈ (s.view j).attempts ↔ a ∈ s.attempts ∧ a.jobId = j := by
  simp [view]

theorem mem_view_quarantines {s : Ledger} {j : String} {q : Quarantine} :
    q ∈ (s.view j).quarantines ↔ q ∈ s.quarantines ∧ q.jobId = j := by
  simp [view]

/-- A job that does not exist has left no trace. -/
theorem view_of_none {s : Ledger} (hs : s.WellFormed) {j : String} (h : s.job? j = none) :
    s.view j = .empty := by
  have hj := job?_eq_none.mp h
  have ha : s.attempts.filter (fun r => decide (r.jobId = j)) = [] := by
    simp only [List.filter_eq_nil_iff, decide_eq_true_eq]
    exact fun r hr he => hj (he ▸ hs.attempt_job r hr)
  have hsp : s.stageAttempts.filter (fun r => decide (r.jobId = j)) = [] := by
    simp only [List.filter_eq_nil_iff, decide_eq_true_eq]
    intro r hr he
    obtain ⟨a, ha, _, haj, _⟩ := hs.span_attempt r hr
    exact hj (he ▸ haj ▸ hs.attempt_job a ha)
  have hq : s.quarantines.filter (fun r => decide (r.jobId = j)) = [] := by
    simp only [List.filter_eq_nil_iff, decide_eq_true_eq]
    exact fun r hr he => hj (he ▸ hs.quarantine_job r hr)
  have he : s.events.filter (fun r => decide (r.jobId = some j)) = [] := by
    simp only [List.filter_eq_nil_iff, decide_eq_true_eq]
    exact fun r hr he => hj (hs.event_job r hr j he)
  simp only [view, h, ha, hsp, hq, he, JobView.empty]

/-- The spans of an attempt are found in the view of its job. -/
theorem spans_of_view {s : Ledger} (hs : s.WellFormed) {a : Attempt} (ha : a ∈ s.attempts) :
    s.stageAttempts.filter (fun r => decide (r.attemptId = a.attemptId)) =
      (s.view a.jobId).spans.filter (fun r => decide (r.attemptId = a.attemptId)) := by
  simp only [view, List.filter_filter]
  refine List.filter_congr fun r hr => ?_
  by_cases hra : r.attemptId = a.attemptId
  · obtain ⟨b, hb, hbi, hbj, _⟩ := hs.span_attempt r hr
    have hba : b = a := key_injective hs.attempts_serial.nodup hb ha (hbi.trans hra)
    have hrj : r.jobId = a.jobId := by rw [← hbj, hba]
    simp [hra, hrj]
  · simp [hra]

theorem job?_updateJobs {s : Ledger} {p : Job → Bool} {f : Job → Job}
    (h : ∀ r, p r = true → (f r).jobId = r.jobId) (j : String) :
    (s.updateJobs p f).job? j = (s.job? j).map (fun r => if p r then f r else r) :=
  find?_updateWhere (fun r hr => by rw [h r hr]) s.jobs

theorem view_updateJobs {s : Ledger} {p : Job → Bool} {f : Job → Job}
    (h : ∀ r, p r = true → (f r).jobId = r.jobId) (j : String) :
    (s.updateJobs p f).view j =
      { s.view j with job := (s.view j).job.map (fun r => if p r then f r else r) } := by
  have hjob := job?_updateJobs (s := s) h j
  simp only [view, hjob]
  rfl

theorem view_updateAttempts {s : Ledger} {p : Attempt → Bool} {f : Attempt → Attempt}
    (h : ∀ r, p r = true → (f r).jobId = r.jobId) (j : String) :
    (s.updateAttempts p f).view j = { s.view j with attempts := updateWhere p f (s.view j).attempts } := by
  have hrows := filter_updateWhere (p := p) (f := f) (q := fun r => decide (r.jobId = j))
    (fun r hr => by rw [h r hr]) s.attempts
  simp only [view, updateAttempts, hrows]
  rfl

theorem view_updateStageAttempts {s : Ledger} {p : StageAttempt → Bool} {f : StageAttempt → StageAttempt}
    (h : ∀ r, p r = true → (f r).jobId = r.jobId) (j : String) :
    (s.updateStageAttempts p f).view j = { s.view j with spans := updateWhere p f (s.view j).spans } := by
  have hrows := filter_updateWhere (p := p) (f := f) (q := fun r => decide (r.jobId = j))
    (fun r hr => by rw [h r hr]) s.stageAttempts
  simp only [view, updateStageAttempts, hrows]
  rfl

theorem view_updateQuarantines {s : Ledger} {p : Quarantine → Bool} {f : Quarantine → Quarantine}
    (h : ∀ r, p r = true → (f r).jobId = r.jobId) (j : String) :
    (s.updateQuarantines p f).view j =
      { s.view j with quarantines := updateWhere p f (s.view j).quarantines } := by
  have hrows := filter_updateWhere (p := p) (f := f) (q := fun r => decide (r.jobId = j))
    (fun r hr => by rw [h r hr]) s.quarantines
  simp only [view, updateQuarantines, hrows]
  rfl

theorem view_attempt (s : Ledger) (row : Attempt) :
    { s with attempts := s.attempts ++ [row] }.view row.jobId =
      { s.view row.jobId with attempts := (s.view row.jobId).attempts ++ [row] } := by
  simp [view, job?]

theorem view_span (s : Ledger) (row : StageAttempt) :
    { s with stageAttempts := s.stageAttempts ++ [row] }.view row.jobId =
      { s.view row.jobId with spans := (s.view row.jobId).spans ++ [row] } := by
  simp [view, job?]

theorem view_quarantine (s : Ledger) (row : Quarantine) :
    { s with quarantines := s.quarantines ++ [row] }.view row.jobId =
      { s.view row.jobId with quarantines := (s.view row.jobId).quarantines ++ [row] } := by
  simp [view, job?]

theorem view_job (s : Ledger) (row : Job) (h : s.job? row.jobId = none) :
    { s with jobs := s.jobs ++ [row] }.view row.jobId = { s.view row.jobId with job := some row } := by
  have hj : ({ s with jobs := s.jobs ++ [row] } : Ledger).job? row.jobId = some row := by
    simp only [job?] at h ⊢
    rw [List.find?_append, h]
    simp
  simp only [view, hj]

theorem view_events {s : Ledger} {rows : List Event} {j : String} (h : ∀ e ∈ rows, e.jobId = some j) :
    { s with events := s.events ++ rows }.view j =
      { s.view j with events := (s.view j).events ++ rows } := by
  have hrows : rows.filter (fun r => decide (r.jobId = some j)) = rows :=
    List.filter_eq_self.mpr fun e he => decide_eq_true (h e he)
  simp only [view, job?, List.filter_append, hrows]

/-- Columns outside the job tables do not show in any view. -/
theorem view_congr {s s' : Ledger} (hj : s'.jobs = s.jobs) (ha : s'.attempts = s.attempts)
    (hsp : s'.stageAttempts = s.stageAttempts) (hq : s'.quarantines = s.quarantines) (he : s'.events = s.events)
    (j : String) : s'.view j = s.view j := by
  simp only [view, job?, hj, ha, hsp, hq, he]

end Ledger

theorem mem_jobs_of_view {s : Ledger} {j : String} {r : Job} (h : (s.view j).job = some r) :
    j ∈ s.jobs.map (·.jobId) := by
  have hj : r.jobId = j := Ledger.job?_jobId h
  exact hj ▸ List.mem_map_of_mem (List.mem_of_find?_eq_some h)

namespace Ledger.WellFormed

theorem congr {s s' : Ledger} (hs : s.WellFormed) (hb : (s'.batches.map (·.batchId)).Nodup)
    (hj : s'.jobs = s.jobs) (ha : s'.attempts = s.attempts) (hsp : s'.stageAttempts = s.stageAttempts)
    (hq : s'.quarantines = s.quarantines) (he : s'.events = s.events) : s'.WellFormed := by
  obtain ⟨h₁, -, h₃, h₄, h₅, h₆, h₇, h₈, h₉, h₁₀, h₁₁⟩ := hs
  constructor <;> (try simp only [hj, ha, hsp, hq, he]) <;> assumption

theorem updateJobs {s : Ledger} (hs : s.WellFormed) {p : Job → Bool} {f : Job → Job}
    (h : ∀ r, p r = true → (f r).jobId = r.jobId) : (s.updateJobs p f).WellFormed := by
  have hmap : (s.updateJobs p f).jobs.map (·.jobId) = s.jobs.map (·.jobId) := map_updateWhere _ h s.jobs
  exact { hs with
    jobs_nodup := by rw [hmap]; exact hs.jobs_nodup
    attempt_job := by rw [hmap]; exact hs.attempt_job
    quarantine_job := by rw [hmap]; exact hs.quarantine_job
    event_job := by rw [hmap]; exact hs.event_job }

theorem updateAttempts {s : Ledger} (hs : s.WellFormed) {p : Attempt → Bool} {f : Attempt → Attempt}
    (h : ∀ r, p r = true → (f r).attemptId = r.attemptId ∧ (f r).jobId = r.jobId ∧
      (f r).leaseGeneration = r.leaseGeneration) : (s.updateAttempts p f).WellFormed := by
  refine { hs with
    attempts_serial := hs.attempts_serial.updateWhere fun r hr => (h r hr).1
    attempt_job := ?_
    span_attempt := ?_ }
  · intro r hr
    obtain ⟨a, ha, rfl⟩ := mem_updateWhere.mp hr
    by_cases hp : p a = true
    · rw [if_pos hp, (h a hp).2.1]; exact hs.attempt_job a ha
    · rw [if_neg hp]; exact hs.attempt_job a ha
  · intro r hr
    obtain ⟨a, ha, hr⟩ := hs.span_attempt r hr
    refine ⟨_, mem_updateWhere.mpr ⟨a, ha, rfl⟩, ?_⟩
    by_cases hp : p a = true
    · rw [if_pos hp, (h a hp).1, (h a hp).2.1, (h a hp).2.2]; exact hr
    · rw [if_neg hp]; exact hr

theorem updateStageAttempts {s : Ledger} (hs : s.WellFormed) {p : StageAttempt → Bool}
    {f : StageAttempt → StageAttempt}
    (h : ∀ r, p r = true → (f r).stageAttemptId = r.stageAttemptId ∧ (f r).attemptId = r.attemptId ∧
      (f r).jobId = r.jobId ∧ (f r).leaseGeneration = r.leaseGeneration) :
    (s.updateStageAttempts p f).WellFormed := by
  refine { hs with
    spans_serial := hs.spans_serial.updateWhere fun r hr => (h r hr).1
    span_attempt := ?_ }
  intro r hr
  obtain ⟨x, hx, rfl⟩ := mem_updateWhere.mp hr
  by_cases hp : p x = true
  · rw [if_pos hp, (h x hp).2.1, (h x hp).2.2.1, (h x hp).2.2.2]; exact hs.span_attempt x hx
  · rw [if_neg hp]; exact hs.span_attempt x hx

theorem updateQuarantines {s : Ledger} (hs : s.WellFormed) {p : Quarantine → Bool} {f : Quarantine → Quarantine}
    (h : ∀ r, p r = true → (f r).quarantineId = r.quarantineId ∧ (f r).jobId = r.jobId ∧ (f r).state = .released) :
    (s.updateQuarantines p f).WellFormed := by
  refine { hs with
    quarantines_serial := hs.quarantines_serial.updateWhere fun r hr => (h r hr).1
    quarantine_job := ?_
    one_active := ?_ }
  · intro r hr
    obtain ⟨q, hq, rfl⟩ := mem_updateWhere.mp hr
    by_cases hp : p q = true
    · rw [if_pos hp, (h q hp).2.1]; exact hs.quarantine_job q hq
    · rw [if_neg hp]; exact hs.quarantine_job q hq
  · intro r hr r' hr' hj ha ha'
    obtain ⟨q, hq, rfl⟩ := mem_updateWhere.mp hr
    obtain ⟨q', hq', rfl⟩ := mem_updateWhere.mp hr'
    have hp : ¬p q = true := fun hp => by rw [if_pos hp, (h q hp).2.2] at ha; cases ha
    have hp' : ¬p q' = true := fun hp => by rw [if_pos hp, (h q' hp).2.2] at ha'; cases ha'
    rw [if_neg hp] at hj ha ⊢
    rw [if_neg hp'] at hj ha' ⊢
    exact hs.one_active q hq q' hq' hj ha ha'

theorem events {s : Ledger} (hs : s.WellFormed) {rows : List Event}
    (hids : Serial (·.eventId) (s.events ++ rows))
    (h : ∀ e ∈ rows, ∀ j, e.jobId = some j → j ∈ s.jobs.map (·.jobId)) :
    { s with events := s.events ++ rows }.WellFormed := by
  refine { hs with
    events_serial := hids
    event_job := ?_ }
  intro r hr j hj
  rcases List.mem_append.mp hr with hr | hr
  · exact hs.event_job r hr j hj
  · exact h r hr j hj

theorem attempt {s : Ledger} (hs : s.WellFormed) {row : Attempt} (hid : row.attemptId = s.nextAttemptId)
    (hj : row.jobId ∈ s.jobs.map (·.jobId)) : { s with attempts := s.attempts ++ [row] }.WellFormed := by
  refine { hs with
    attempts_serial := hs.attempts_serial.append hid
    attempt_job := ?_
    span_attempt := ?_ }
  · intro r hr
    rcases List.mem_append.mp hr with hr | hr
    · exact hs.attempt_job r hr
    · rw [List.mem_singleton.mp hr]; exact hj
  · intro r hr
    obtain ⟨a, ha, hr⟩ := hs.span_attempt r hr
    exact ⟨a, List.mem_append_left _ ha, hr⟩

theorem span {s : Ledger} (hs : s.WellFormed) {row : StageAttempt} (hid : row.stageAttemptId = s.nextStageAttemptId)
    (ha : ∃ a ∈ s.attempts, a.attemptId = row.attemptId ∧ a.jobId = row.jobId ∧
      a.leaseGeneration = row.leaseGeneration) :
    { s with stageAttempts := s.stageAttempts ++ [row] }.WellFormed := by
  refine { hs with
    spans_serial := hs.spans_serial.append hid
    span_attempt := ?_ }
  intro r hr
  rcases List.mem_append.mp hr with hr | hr
  · exact hs.span_attempt r hr
  · rw [List.mem_singleton.mp hr]; exact ha

theorem quarantine {s : Ledger} (hs : s.WellFormed) {row : Quarantine}
    (hid : row.quarantineId = s.nextQuarantineId) (hj : row.jobId ∈ s.jobs.map (·.jobId))
    (hno : ∀ r ∈ s.quarantines, ¬(r.jobId = row.jobId ∧ r.state = .active ∧ row.state = .active)) :
    { s with quarantines := s.quarantines ++ [row] }.WellFormed := by
  refine { hs with
    quarantines_serial := hs.quarantines_serial.append hid
    quarantine_job := ?_
    one_active := ?_ }
  · intro r hr
    rcases List.mem_append.mp hr with hr | hr
    · exact hs.quarantine_job r hr
    · rw [List.mem_singleton.mp hr]; exact hj
  · intro q hq q' hq' hjob ha ha'
    rcases List.mem_append.mp hq with hq | hq <;> rcases List.mem_append.mp hq' with hq' | hq'
    · exact hs.one_active q hq q' hq' hjob ha ha'
    · rw [List.mem_singleton.mp hq'] at hjob ha'
      exact (hno q hq ⟨hjob, ha, ha'⟩).elim
    · rw [List.mem_singleton.mp hq] at hjob ha
      exact (hno q' hq' ⟨hjob.symm, ha', ha⟩).elim
    · rw [List.mem_singleton.mp hq, List.mem_singleton.mp hq']

theorem job {s : Ledger} (hs : s.WellFormed) {row : Job} (hj : ∀ r ∈ s.jobs, r.jobId ≠ row.jobId) :
    { s with jobs := s.jobs ++ [row] }.WellFormed := by
  have hsub : ∀ j, j ∈ s.jobs.map (·.jobId) → j ∈ (s.jobs ++ [row]).map (·.jobId) := by
    intro j h
    rw [List.map_append]
    exact List.mem_append_left _ h
  refine { hs with
    jobs_nodup := ?_
    attempt_job := fun r hr => hsub _ (hs.attempt_job r hr)
    quarantine_job := fun r hr => hsub _ (hs.quarantine_job r hr)
    event_job := fun r hr j h => hsub _ (hs.event_job r hr j h) }
  rw [List.map_append, List.nodup_append]
  refine ⟨hs.jobs_nodup, List.nodup_singleton _, ?_⟩
  intro j h k hk hjk
  obtain ⟨r, hr, rfl⟩ := List.mem_map.mp h
  simp only [List.map_cons, List.map_nil, List.mem_singleton] at hk
  exact hj r hr (hjk.trans hk)

end Ledger.WellFormed

theorem freshLedger_wellFormed : freshLedger.WellFormed where
  jobs_nodup := List.nodup_nil
  batches_nodup := List.nodup_nil
  attempts_serial := serial_nil _
  spans_serial := serial_nil _
  quarantines_serial := serial_nil _
  events_serial := serial_nil _
  attempt_job := fun _ h => (List.not_mem_nil h).elim
  quarantine_job := fun _ h => (List.not_mem_nil h).elim
  event_job := fun _ h => (List.not_mem_nil h).elim
  one_active := fun _ h => (List.not_mem_nil h).elim
  span_attempt := fun _ h => (List.not_mem_nil h).elim

theorem freshLedger_view (j : String) : freshLedger.view j = .empty := rfl

end FidbPoc.Coordinator
