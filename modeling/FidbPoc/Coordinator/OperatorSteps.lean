import FidbPoc.Coordinator.LeaseSteps
import FidbPoc.Coordinator.Admission

namespace FidbPoc.Coordinator

open FidbPoc.Lib.Table FidbPoc.Lib.Checked

section Rows

variable {now : Time} {actor reason : String} {s s' : Ledger}

theorem requeueFailedRow_acts {row : Job} (hs : s.WellFormed) (hrow : (s.view row.jobId).job = some row)
    (ha : row.active = true) (hf : row.state = .failed)
    (h : requeueFailedRow now actor reason s row = .ok s') : Acts now .requeued [row.jobId] s s' := by
  unfold requeueFailedRow at h
  have hmem := mem_jobs_of_view hrow
  have hjobs := Edits.updateJobs (j := row.jobId) hs (f := Job.requeued now)
    (p := fun r => decide (r.jobId = row.jobId) && decide (r.state = .failed) && r.active)
    (by simp +contextual) (fun _ => rfl)
  obtain ⟨hlast, e, he, hview⟩ := Edits.event hjobs.wellFormed rfl (hjobs.mem_jobs hmem) h
  refine (hjobs.trans hlast).acts ?_
  rw [hview, Ledger.view_updateJobs]
  · simp only [hrow, Option.map_some, ha, hf, decide_true, Bool.and_self, if_true]
    exact .requeued hrow ha hf he
  · exact fun _ _ => rfl

theorem interruptRow_acts {row : Job} {interruption : String} (hs : s.WellFormed)
    (hrow : (s.view row.jobId).job = some row) (hl : row.state.live = true)
    (h : interruptRow now actor reason interruption s row = .ok s') : Acts now .interrupted [row.jobId] s s' := by
  simp only [interruptRow, bind_eq_ok] at h
  obtain ⟨t, hclose, hevent⟩ := h
  obtain ⟨hedits, notes, e, hq, he, hview⟩ := endLease_edits
    (o := ⟨.queued, .failed, now, interruption, none, none, 0⟩) hs hrow hclose hevent
    (by simp +contextual) (by simp [hl]) (fun _ => rfl) rfl
  refine hedits.acts ?_
  rw [hview]
  exact .interrupted hrow hl rfl hq rfl he

theorem quarantineJob_acts {row : Job} (hs : s.WellFormed) (hrow : (s.view row.jobId).job = some row)
    (ha : row.active = true) (hst : row.state = .queued ∨ row.state = .failed)
    (h : quarantineJob now actor reason s row = .ok s') : Acts now .quarantined [row.jobId] s s' := by
  simp only [quarantineJob, bind_eq_ok, require_eq_ok] at h
  obtain ⟨_, hfree, t, hins, hevent⟩ := h
  have hmem := mem_jobs_of_view hrow
  have hno : (s.view row.jobId).NoQuarantine := by
    intro q hq hact
    obtain ⟨hm, hj⟩ := List.mem_filter.mp hq
    exact hfree q hm ⟨of_decide_eq_true hj, hact⟩
  set guard := fun (r : Job) => decide (r.jobId = row.jobId) && decide (r.state = .queued) with hguard
  by_cases hq : row.state = .queued
  · rw [if_pos hq] at hins
    have hjobs := Edits.updateJobs (j := row.jobId) hs (p := guard) (f := Job.pathological now reason)
      (by simp +contextual [hguard]) (fun _ => rfl)
    obtain ⟨hlast, e, he, hview⟩ := quarantine_edits hjobs.wellFormed rfl (hjobs.mem_jobs hmem) hins rfl hevent
    refine (hjobs.trans hlast).acts ?_
    have hself : guard row = true := by simp [hguard, hq]
    have hview₀ : (s.updateJobs guard (Job.pathological now reason)).view row.jobId =
        { s.view row.jobId with
          job := some (if row.state = JobState.queued then row.pathological now reason else row) } := by
      rw [Ledger.view_updateJobs]
      · simp only [hrow, Option.map_some, hself, hq, if_true]
      · exact fun _ _ => rfl
    rw [hview, hview₀]
    exact .quarantined hrow ha hst hno rfl he
  · rw [if_neg hq] at hins
    obtain ⟨hlast, e, he, hview⟩ := quarantine_edits hs rfl hmem hins rfl hevent
    refine hlast.acts ?_
    have hview₀ : s.view row.jobId =
        { s.view row.jobId with
          job := some (if row.state = JobState.queued then row.pathological now reason else row) } := by
      rw [if_neg hq, ← hrow]
    rw [hview]
    nth_rewrite 2 [hview₀]
    exact .quarantined hrow ha hst hno rfl he

theorem releaseRow_acts {row : Quarantine × Job} (hs : s.WellFormed)
    (hrow : (s.view row.1.jobId).job = some row.2) (hq : row.1 ∈ s.quarantines) (ha : row.1.state = .active)
    (h : releaseRow now actor reason s row = .ok s') : Acts now .released [row.1.jobId] s s' := by
  obtain ⟨q, r⟩ := row
  have hid : r.jobId = q.jobId := Ledger.job?_jobId hrow
  have hmem := mem_jobs_of_view hrow
  simp only [releaseRow] at h hq ha hrow ⊢
  set held := fun (x : Quarantine) => decide (x.quarantineId = q.quarantineId) && decide (x.state = .active)
    with hheld
  have hkey : ∀ x ∈ s.quarantines, held x = decide (x = q) := by
    intro x hx
    by_cases hxq : x = q
    · simp [hheld, hxq, ha]
    · have hne : x.quarantineId ≠ q.quarantineId :=
        fun he => hxq (key_injective hs.quarantines_serial.nodup hx hq he)
      simp [hheld, hxq, hne]
  have hfirst := Edits.updateQuarantines (j := q.jobId) hs (p := held) (f := Quarantine.release now reason)
    (by
      intro x hx hp
      rw [hkey x hx, decide_eq_true_eq] at hp
      rw [hp])
    (fun _ => ⟨rfl, rfl, rfl⟩)
  have hjobs := Edits.updateJobs (j := q.jobId) hfirst.wellFormed (f := Job.requeued now)
    (p := fun x => decide (x.jobId = r.jobId) && decide (x.state = .failed))
    (by simp +contextual [hid]) (fun _ => rfl)
  have hedits := hfirst.trans hjobs
  obtain ⟨hlast, e, he, hview⟩ := Edits.event hedits.wellFormed (by rw [hid]) (hedits.mem_jobs hmem) h
  refine (hedits.trans hlast).acts ?_
  have hsame : updateWhere held (Quarantine.release now reason) (s.view q.jobId).quarantines =
      updateWhere (fun x => decide (x = q)) (Quarantine.release now reason) (s.view q.jobId).quarantines := by
    refine updateWhere_congr fun x hx => ?_
    rw [hkey x (List.mem_of_mem_filter hx)]
  have hone : ∀ q' ∈ (s.view q.jobId).quarantines, q'.state = .active → q' = q := by
    intro q' hq' ha'
    obtain ⟨hm, hj⟩ := List.mem_filter.mp hq'
    exact hs.one_active q' hm q hq (of_decide_eq_true hj) ha' ha
  have hmemView : q ∈ (s.view q.jobId).quarantines := List.mem_filter.mpr ⟨hq, by simp⟩
  have hstep : JobStep now s.state.maxAttempts .released (s.view q.jobId) _ :=
    .released hrow hmemView ha hone he
  rw [hview, Ledger.view_updateJobs, Ledger.view_updateQuarantines, hsame]
  · simp only [hrow, Option.map_some, decide_true, Bool.true_and, decide_eq_true_eq]
    exact hstep
  · exact fun _ _ => rfl
  · exact fun _ _ => rfl

end Rows

section Batches

variable {sha256 : String → String} {batchId reason actor : String} {expectedCount : Int} {now : Time}
  {s s' : Ledger} {summary : BatchSummary}

theorem selection_nodup (hs : s.WellFormed) (p : Job → Bool) (order : Job → Job → Prop) [DecidableRel order] :
    (((s.jobs.filter p).insertionSort order).map (·.jobId)).Nodup := by
  rw [((List.perm_insertionSort order _).map _).nodup_iff]
  exact (List.filter_sublist.map _).nodup hs.jobs_nodup

theorem mem_selection {p : Job → Bool} {order : Job → Job → Prop} [DecidableRel order] {r : Job} :
    r ∈ (s.jobs.filter p).insertionSort order ↔ r ∈ s.jobs ∧ p r = true := by
  rw [(List.perm_insertionSort order _).mem_iff, List.mem_filter]

theorem requeueFailedBatch_acts (hs : s.WellFormed)
    (h : requeueFailedBatch sha256 batchId expectedCount reason actor now s = .ok (summary, s')) :
    Acts now .requeued ((failedJobs batchId s).map (·.jobId)) s s' := by
  simp only [requeueFailedBatch, bind_eq_ok, pure_eq_ok] at h
  obtain ⟨id, hid, _, _, _, _, _, _, _, _, _, _, _, _, _, _, t, hloop, u, hevent, h⟩ := h
  obtain rfl := identifier_eq_ok hid
  obtain ⟨-, rfl⟩ := Prod.mk.inj h
  have hacts := foldlM_acts Job.jobId (fun r v => v.job = some r ∧ r.active = true ∧ r.state = .failed)
    (fun r t t' ht hc hstep => requeueFailedRow_acts ht hc.1 hc.2.1 hc.2.2 hstep)
    (selection_nodup hs _ _) hs
    (by
      intro r hr
      obtain ⟨hm, hp⟩ := mem_selection.mp hr
      simp only [Bool.and_eq_true, decide_eq_true_eq] at hp
      exact ⟨Ledger.job?_of_mem hs hm, hp.1.2, hp.2⟩)
    hloop
  obtain ⟨hstill, hstate⟩ := Still.event hacts.wellFormed rfl hevent
  exact hacts.still hstill hstate

theorem requeueInterruptedBatch_acts (hs : s.WellFormed)
    (h : requeueInterruptedBatch sha256 batchId expectedCount reason actor now s = .ok (summary, s')) :
    ∃ rows : List Job, (∀ r ∈ rows, r ∈ s.jobs ∧ r.state.live = true) ∧
      Acts now .interrupted (rows.map (·.jobId)) s s' := by
  simp only [requeueInterruptedBatch, bind_eq_ok, pure_eq_ok] at h
  obtain ⟨id, hid, _, _, _, _, _, _, _, _, _, _, _, _, t, hloop, u, hevent, h⟩ := h
  obtain ⟨-, rfl⟩ := Prod.mk.inj h
  set rows := (liveJobs s).filter (fun r => decide (r.batchId = id)) with hrows
  have hmem : ∀ r ∈ rows, r ∈ s.jobs ∧ r.state.live = true := by
    intro r hr
    exact mem_selection.mp (List.mem_of_mem_filter hr)
  have hnodup : (rows.map (·.jobId)).Nodup :=
    (List.filter_sublist.map _).nodup (selection_nodup hs _ _)
  refine ⟨rows, hmem, ?_⟩
  have hacts := foldlM_acts Job.jobId (fun r v => v.job = some r ∧ r.state.live = true)
    (fun r t t' ht hc hstep => interruptRow_acts ht hc.1 hc.2 hstep) hnodup hs
    (fun r hr => ⟨Ledger.job?_of_mem hs (hmem r hr).1, (hmem r hr).2⟩) hloop
  obtain ⟨hstill, hstate⟩ := Still.event hacts.wellFormed rfl hevent
  exact hacts.still hstill hstate

theorem quarantinePathologicalJobs_acts {jobIds : List String} (hs : s.WellFormed)
    (h : quarantinePathologicalJobs sha256 batchId jobIds expectedCount reason actor now s =
      .ok (summary, s')) :
    ∃ rows : List Job, (∀ r ∈ rows, r ∈ s.jobs) ∧ Acts now .quarantined (rows.map (·.jobId)) s s' := by
  simp only [quarantinePathologicalJobs, bind_eq_ok, pure_eq_ok, require_eq_ok] at h
  obtain ⟨id, _, _, _, _, _, ids, _, _, _, _, _, _, _, _, _, _, hrows, t, hloop, u, hevent, h⟩ := h
  obtain ⟨-, rfl⟩ := Prod.mk.inj h
  set rows := quarantineSelection id ids s with hsel
  refine ⟨rows, fun r hr => (mem_selection.mp hr).1, ?_⟩
  have hacts := foldlM_acts Job.jobId
    (fun r v => v.job = some r ∧ r.active = true ∧ (r.state = .queued ∨ r.state = .failed))
    (fun r t t' ht hc hstep => quarantineJob_acts ht hc.1 hc.2.1 hc.2.2 hstep) (selection_nodup hs _ _) hs
    (by
      intro r hr
      obtain ⟨hm, hp⟩ := mem_selection.mp hr
      simp only [Bool.and_eq_true, decide_eq_true_eq] at hp
      exact ⟨Ledger.job?_of_mem hs hm, hp.1.2, hrows.2 r hr⟩)
    hloop
  obtain ⟨hstill, hstate⟩ := Still.event hacts.wellFormed rfl hevent
  exact hacts.still hstill hstate

theorem mem_quarantinedRows {row : Quarantine × Job} (h : row ∈ quarantinedRows batchId s) :
    row.1 ∈ s.quarantines ∧ row.1.state = .active ∧ (s.view row.1.jobId).job = some row.2 := by
  obtain ⟨q, hq, hjob⟩ := List.mem_filterMap.mp h
  obtain ⟨hm, hp⟩ := List.mem_filter.mp hq
  simp only [Bool.and_eq_true, decide_eq_true_eq] at hp
  obtain ⟨job, hfound, rfl⟩ := Option.map_eq_some_iff.mp hjob
  exact ⟨hm, hp.2, hfound⟩

/-- The active quarantines of a batch are those of distinct jobs. -/
theorem quarantinedRows_nodup (hs : s.WellFormed) (batchId : String) :
    ((quarantinedRows batchId s).map (fun row => row.1.jobId)).Nodup := by
  have hrows : (quarantinedRows batchId s).Nodup := by
    refine List.Nodup.filterMap ?_ (hs.quarantines_serial.nodup.of_map.filter _)
    intro q q' row hq hq'
    obtain ⟨_, _, rfl⟩ := Option.map_eq_some_iff.mp hq
    obtain ⟨_, _, he⟩ := Option.map_eq_some_iff.mp hq'
    exact (congrArg Prod.fst he).symm
  refine List.Nodup.map_on ?_ hrows
  rintro ⟨q, r⟩ hrow ⟨q', r'⟩ hrow' hj
  obtain ⟨hm, ha, hr⟩ := mem_quarantinedRows hrow
  obtain ⟨hm', ha', hr'⟩ := mem_quarantinedRows hrow'
  have hq : q = q' := hs.one_active q hm q' hm' hj ha ha'
  subst hq
  have hjob : r = r' := Option.some.inj (hr.symm.trans hr')
  rw [hjob]

theorem releasePathologicalQuarantine_acts (hs : s.WellFormed)
    (h : releasePathologicalQuarantine sha256 batchId expectedCount reason actor now s = .ok (summary, s')) :
    Acts now .released ((quarantinedRows batchId s).map (fun row => row.1.jobId)) s s' := by
  simp only [releasePathologicalQuarantine, bind_eq_ok, pure_eq_ok] at h
  obtain ⟨id, hid, _, _, _, _, _, _, _, _, _, _, t, hloop, h⟩ := h
  obtain rfl := identifier_eq_ok hid
  obtain ⟨-, rfl⟩ := Prod.mk.inj h
  refine foldlM_acts (fun row : Quarantine × Job => row.1.jobId)
    (fun row v => v.job = some row.2 ∧ row.1 ∈ v.quarantines ∧ row.1.state = .active) ?_
    (quarantinedRows_nodup hs id) hs ?_ hloop
  · rintro row t t' ht ⟨hr, hq, ha⟩ hstep
    exact releaseRow_acts ht hr (List.mem_of_mem_filter hq) ha hstep
  · intro row hrow
    obtain ⟨hm, ha, hr⟩ := mem_quarantinedRows hrow
    exact ⟨hr, List.mem_filter.mpr ⟨hm, by simp⟩, ha⟩

end Batches

end FidbPoc.Coordinator
