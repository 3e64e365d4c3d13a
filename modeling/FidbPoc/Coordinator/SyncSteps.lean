import FidbPoc.Coordinator.Lifecycle

namespace FidbPoc.Coordinator

open FidbPoc.Lib.Table FidbPoc.Lib.Checked

/-- A job executes a selected row: the same authority, by its columns and by its
resolved cell, which the row has in `t` and the job in `u`. -/
structure Fits (t u : Ledger) (p : Selected) (r : Job) : Prop where
  batchId : r.batchId = p.batchId
  baseCell : r.baseCellId = p.row.baseCell
  factorVariants : r.factorVariants = p.row.factorVariants
  queueRow : r.queueRow = p.row
  cell : ∃ cell, t.cell? p.planDigest p.row.baseCell = some cell ∧
    u.cell? r.planDigest r.baseCellId = some cell

theorem sameExecution_iff {s : Ledger} {p : Selected} {r : Job} :
    sameExecution s p.batchId p.planDigest p.row r = true ↔ Fits s s p r := by
  constructor
  · intro h
    simp only [sameExecution, Bool.and_eq_true, decide_eq_true_eq, Option.any_eq_true] at h
    obtain ⟨⟨⟨⟨hb, hc⟩, hf⟩, hq⟩, cell, hcell, hjob⟩ := h
    exact ⟨hb, hc, hf, hq, cell, hcell, hjob⟩
  · rintro ⟨hb, hc, hf, hq, cell, hcell, hjob⟩
    rw [hc] at hjob
    simp [sameExecution, hb, hc, hf, hq, hcell, hjob]

/-- The effect of one row on the ledger: one job is selected, nothing else moves. -/
structure RowSync (now : Time) (j : String) (s s' : Ledger) : Prop where
  wellFormed : s'.WellFormed
  others : ∀ k, k ≠ j → s'.view k = s.view k
  step : ∃ m, (m = .placed ∨ m = .created) ∧ ∀ n, JobStep now n m (s.view j) (s'.view j)
  attempts : s'.attempts = s.attempts
  stageAttempts : s'.stageAttempts = s.stageAttempts
  quarantines : s'.quarantines = s.quarantines
  batches : s'.batches = s.batches
  resolvedCells : s'.resolvedCells = s.resolvedCells
  state : s'.state = s.state

theorem placeJob_edits {s : Ledger} (hs : s.WellFormed) {r : Job} (hr : (s.view r.jobId).job = some r)
    (position generation : Nat) (now : Time) :
    Edits r.jobId s (placeJob r.jobId position generation now s) ∧
      (placeJob r.jobId position generation now s).view r.jobId =
        { s.view r.jobId with job := some (r.placed position generation now) } := by
  refine ⟨Edits.updateJobs hs (by simp) (fun _ => rfl), ?_⟩
  unfold placeJob
  rw [Ledger.view_updateJobs]
  · simp only [hr, Option.map_some, decide_true, if_true]
  · exact fun _ _ => rfl

section Rows

variable {now : Time} {actor : String} {generation : Nat} {batchId planDigest : String} {row : QueueRow}
  {s s' : Ledger}

theorem carryJob_sync (hs : s.WellFormed) {r : Job} (hr : (s.view r.jobId).job = some r)
    (h : carryJob now actor generation batchId planDigest row r s = .ok s') :
    RowSync now r.jobId s s' ∧ (s'.view r.jobId).job = some (r.placed row.position generation now) := by
  unfold carryJob at h
  obtain ⟨hplace, hplaceView⟩ := placeJob_edits hs hr row.position generation now
  obtain ⟨hlast, e, he, hview⟩ := Edits.event hplace.wellFormed rfl (hplace.mem_jobs (mem_jobs_of_view hr)) h
  have hedits := hplace.trans hlast
  rw [hplaceView] at hview
  refine ⟨⟨hedits.wellFormed, hedits.others, ⟨.placed, .inl rfl, fun n => ?_⟩, ?_, ?_, ?_, hedits.frame.batches,
    hedits.frame.resolvedCells, ?_⟩, ?_⟩
  · rw [hview]
    exact .placed hr (by simp [Quiet, he, EventBody.quiet])
  all_goals obtain rfl := Ledger.event_eq_ok h
  · rfl
  · rfl
  · rfl
  · rfl
  · rw [hview]

theorem reuseJob_sync (hs : s.WellFormed) {r : Job} (hr : (s.view r.jobId).job = some r)
    (h : reuseJob now generation batchId planDigest row r s = .ok s') :
    RowSync now r.jobId s s' ∧ (s'.view r.jobId).job = some (r.placed row.position generation now) ∧
      sameIdentity batchId planDigest row r = true := by
  simp only [reuseJob, bind_eq_ok, require_eq_ok, pure_eq_ok] at h
  obtain ⟨_, hid, rfl⟩ := h
  obtain ⟨hplace, hview⟩ := placeJob_edits hs hr row.position generation now
  refine ⟨⟨hplace.wellFormed, hplace.others, ⟨.placed, .inl rfl, fun n => ?_⟩, rfl, rfl, rfl, rfl, rfl, rfl⟩, ?_, hid⟩
  · have hstep : JobStep now n .placed (s.view r.jobId)
        { s.view r.jobId with
          job := some (r.placed row.position generation now), events := (s.view r.jobId).events ++ [] } :=
      .placed hr (by simp [Quiet])
    rw [hview]
    rwa [List.append_nil] at hstep
  · rw [hview]

theorem createJob_sync (hs : s.WellFormed) {jobId : String} (hnew : (s.view jobId).job = none)
    (h : createJob now actor generation batchId planDigest jobId row s = .ok s') :
    RowSync now jobId s s' ∧
      (s'.view jobId).job = some (newJob jobId batchId planDigest generation now row) := by
  simp only [createJob, bind_eq_ok] at h
  obtain ⟨t, hins, hevent⟩ := h
  obtain ⟨hfresh, rfl⟩ := Ledger.insertJob_eq_ok hins
  set job := newJob jobId batchId planDigest generation now row with hjob
  have hwf : { s with jobs := s.jobs ++ [job] }.WellFormed := hs.job hfresh
  have hmem : jobId ∈ (s.jobs ++ [job]).map (·.jobId) := by simp [hjob, newJob]
  obtain ⟨hlast, e, he, hview⟩ := Edits.event hwf rfl hmem hevent
  have hothers : ∀ k, k ≠ jobId → { s with jobs := s.jobs ++ [job] }.view k = s.view k := by
    intro k hk
    have hnone : ([job].find? fun r => decide (r.jobId = k)) = none := by simp [hjob, newJob, Ne.symm hk]
    simp only [Ledger.view, Ledger.job?, List.find?_append, hnone, Option.or_none]
  have hcreated := Ledger.view_job s job hnew
  have hempty : s.view jobId = .empty := Ledger.view_of_none hs hnew
  rw [show job.jobId = jobId from rfl, hempty] at hcreated
  rw [hcreated] at hview
  refine ⟨⟨hlast.wellFormed, fun k hk => (hlast.others k hk).trans (hothers k hk),
    ⟨.created, .inr rfl, fun n => ?_⟩, ?_, ?_, ?_, hlast.frame.batches, hlast.frame.resolvedCells, ?_⟩, ?_⟩
  · rw [hview, hempty]
    exact .created he
  all_goals obtain rfl := Ledger.event_eq_ok hevent
  · rfl
  · rfl
  · rfl
  · rfl
  · rw [hview]

end Rows

section Routes

variable (sha256 : String → String)

/-- No unselected job other than the row's own could stand for the row. -/
def NoneCarried (s : Ledger) (p : Selected) : Prop :=
  ∀ k ∈ s.jobs, k.active = false → k.jobId ≠ p.jobId sha256 → Fits s s p k → carryable s k = false

/-- Which job a row selects: a prior one that ended, a new one, or its own. -/
inductive Choice (s : Ledger) (p : Selected) (j : String) : Prop
  | carried {r : Job} (hr : (s.view j).job = some r) (ha : r.active = false) (hf : Fits s s p r)
      (hc : carryable s r = true)
  | created (hj : j = p.jobId sha256) (hnew : (s.view j).job = none) (hnone : NoneCarried sha256 s p)
  | reused {r : Job} (hj : j = p.jobId sha256) (hr : (s.view j).job = some r) (hf : Fits s s p r)
      (hnone : r.state = .queued ∨ r.state = .blocked → NoneCarried sha256 s p)

variable {sha256}

theorem mem_carryCandidates {s : Ledger} {p : Selected} {k : Job} :
    k ∈ carryCandidates s p.batchId p.planDigest (p.jobId sha256) p.row ↔
      k ∈ s.jobs ∧ k.active = false ∧ k.jobId ≠ p.jobId sha256 ∧ Fits s s p k ∧ carryable s k = true := by
  unfold carryCandidates
  rw [(List.perm_insertionSort carryOrder _).mem_iff, List.mem_filter]
  simp only [Bool.and_eq_true, Bool.not_eq_true', decide_eq_true_eq, sameExecution_iff]
  tauto

theorem noneCarried_of_nil {s : Ledger} {p : Selected}
    (h : carryCandidates s p.batchId p.planDigest (p.jobId sha256) p.row = []) : NoneCarried sha256 s p := by
  intro k hk ha hj hf
  by_contra hc
  rw [Bool.not_eq_false] at hc
  have hm : k ∈ carryCandidates s p.batchId p.planDigest (p.jobId sha256) p.row :=
    mem_carryCandidates.mpr ⟨hk, ha, hj, hf, hc⟩
  rw [h] at hm
  cases hm

theorem mem_rowCandidates {s : Ledger} {p : Selected} {k : Job}
    (h : k ∈ rowCandidates s p.batchId p.planDigest (p.jobId sha256) p.row) :
    k ∈ carryCandidates s p.batchId p.planDigest (p.jobId sha256) p.row := by
  unfold rowCandidates at h
  split at h
  · exact h
  · split at h
    · exact h
    · cases h

theorem routeRow_spec {now : Time} {actor : String} {generation : Nat} {s s' : Ledger} {p : Selected} {n c : Nat}
    {cell : Cell} (hs : s.WellFormed) (hcell : s.cell? p.planDigest p.row.baseCell = some cell)
    (h : routeRow sha256 now actor generation p.batchId p.planDigest s p.row = .ok (s', n, c)) :
    ∃ j r, RowSync now j s s' ∧ (s'.view j).job = some r ∧ r.active = true ∧ Fits s s p r ∧
      Choice sha256 s p j := by
  unfold routeRow at h
  rw [show stableJobId sha256 p.batchId p.planDigest p.row.baseCell p.row.factorVariants = p.jobId sha256 from rfl]
    at h
  cases hcands : rowCandidates s p.batchId p.planDigest (p.jobId sha256) p.row with
  | nil =>
    cases hown : s.job? (p.jobId sha256) with
    | none =>
      simp only [hcands, hown, bind_eq_ok, pure_eq_ok] at h
      obtain ⟨t, ht, h⟩ := h
      obtain ⟨rfl, -⟩ := Prod.mk.inj h
      obtain ⟨hsync, hjob⟩ := createJob_sync hs hown ht
      have hnil : carryCandidates s p.batchId p.planDigest (p.jobId sha256) p.row = [] := by
        simpa [rowCandidates, hown] using hcands
      exact ⟨_, _, hsync, hjob, rfl, ⟨rfl, rfl, rfl, rfl, cell, hcell, hcell⟩,
        .created rfl hown (noneCarried_of_nil hnil)⟩
    | some existing =>
      simp only [hcands, hown, bind_eq_ok, pure_eq_ok] at h
      obtain ⟨t, ht, h⟩ := h
      obtain ⟨rfl, -⟩ := Prod.mk.inj h
      have hid : existing.jobId = p.jobId sha256 := Ledger.job?_jobId hown
      have hown' : (s.view existing.jobId).job = some existing := by rw [hid]; exact hown
      obtain ⟨hsync, hjob, hsame⟩ := reuseJob_sync hs hown' ht
      simp only [sameIdentity, Bool.and_eq_true, decide_eq_true_eq] at hsame
      obtain ⟨⟨⟨⟨hb, hd⟩, hc⟩, hv⟩, hq⟩ := hsame
      have hfits : ∀ r : Job, r.batchId = existing.batchId → r.planDigest = existing.planDigest →
          r.baseCellId = existing.baseCellId → r.factorVariants = existing.factorVariants →
          r.queueRow = existing.queueRow → Fits s s p r := by
        intro r h₁ h₂ h₃ h₄ h₅
        refine ⟨h₁.trans hb, h₃.trans hc, h₄.trans hv, h₅.trans hq, cell, hcell, ?_⟩
        rw [h₂, h₃, hd, hc]
        exact hcell
      refine ⟨_, _, hsync, hjob, rfl, hfits _ rfl rfl rfl rfl rfl,
        .reused hid hown' (hfits _ rfl rfl rfl rfl rfl) ?_⟩
      intro hstate
      refine noneCarried_of_nil ?_
      simpa [rowCandidates, hown, hstate] using hcands
  | cons carried rest =>
    cases rest with
    | nil =>
      simp only [hcands, bind_eq_ok, pure_eq_ok] at h
      obtain ⟨t, ht, h⟩ := h
      obtain ⟨rfl, -⟩ := Prod.mk.inj h
      have hm : carried ∈ rowCandidates s p.batchId p.planDigest (p.jobId sha256) p.row := by simp [hcands]
      obtain ⟨hmem, ha, hj, hf, hc⟩ := mem_carryCandidates.mp (mem_rowCandidates hm)
      have hr := Ledger.job?_of_mem hs hmem
      obtain ⟨hsync, hjob⟩ := carryJob_sync hs hr ht
      obtain ⟨h₁, h₂, h₃, h₄, h₅⟩ := hf
      exact ⟨_, _, hsync, hjob, rfl, ⟨h₁, h₂, h₃, h₄, h₅⟩, .carried hr ha ⟨h₁, h₂, h₃, h₄, h₅⟩ hc⟩
    | cons second rest => simp only [hcands] at h; cases h

end Routes

end FidbPoc.Coordinator
