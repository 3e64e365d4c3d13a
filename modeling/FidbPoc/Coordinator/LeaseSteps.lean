import FidbPoc.Coordinator.Lifecycle

namespace FidbPoc.Coordinator

open FidbPoc.Lib.Table FidbPoc.Lib.Checked

/-- A loop over rows of distinct jobs, each making one move of its job, is one
move of every one of these jobs. -/
theorem foldlM_acts {α : Type} {now : Time} {m : Move} {step : Ledger → α → Result Ledger} (key : α → String)
    (C : α → JobView → Prop)
    (hstep : ∀ r t t', t.WellFormed → C r (t.view (key r)) → step t r = .ok t' → Acts now m [key r] t t')
    {rows : List α} (hnodup : (rows.map key).Nodup) {s s' : Ledger} (hs : s.WellFormed)
    (hrows : ∀ r ∈ rows, C r (s.view (key r))) (h : rows.foldlM step s = .ok s') :
    Acts now m (rows.map key) s s' := by
  induction rows generalizing s with
  | nil =>
    rw [List.foldlM_nil, pure_eq_ok] at h
    subst h
    exact Acts.nil hs
  | cons r rows ih =>
    rw [List.foldlM_cons, bind_eq_ok] at h
    obtain ⟨t, ht, h⟩ := h
    obtain ⟨hr, hnodup⟩ := List.nodup_cons.mp hnodup
    have hfirst := hstep r s t hs (hrows r (by simp)) ht
    have hrest : ∀ r' ∈ rows, C r' (t.view (key r')) := by
      intro r' hr'
      have hne : key r' ∉ [key r] := by
        intro he
        exact hr (List.mem_singleton.mp he ▸ List.mem_map_of_mem hr')
      rw [hfirst.others _ hne]
      exact hrows r' (List.mem_cons_of_mem _ hr')
    refine hfirst.append (ih hnodup hfirst.wellFormed hrest h) ?_
    intro j hj
    rw [List.mem_singleton.mp hj]
    exact hr

theorem interruptSpan_eq_ok {row : Job} {now : Time} {reason actor : String} {s s' : Ledger} {span : StageAttempt}
    (h : interruptSpan row now reason actor s span = .ok s') :
    ∃ e : Event, e.body.quiet = true ∧ e.jobId = some row.jobId ∧ e.eventId = s.events.length + 1 ∧
      s' = { s with
        stageAttempts := updateWhere
          (fun r => decide (r.stageAttemptId = span.stageAttemptId) && decide (r.state = .started))
          (StageAttempt.interrupted now reason span) s.stageAttempts
        events := s.events ++ [e] } :=
  ⟨_, rfl, rfl, rfl, Ledger.event_eq_ok h⟩

/-- What an interruption sweep over given spans writes, update by update. -/
theorem interruptSpans_eq_ok {row : Job} {now : Time} {reason actor : String} {s s' : Ledger}
    (hs : Serial (·.eventId) s.events) {selected : List StageAttempt}
    (h : selected.foldlM (interruptSpan row now reason actor) s = .ok s') :
    ∃ notes, Quiet notes ∧ (∀ e ∈ notes, e.jobId = some row.jobId) ∧
      Serial (·.eventId) (s.events ++ notes) ∧
      s' = { s with
        stageAttempts := selected.foldl (fun t r => updateWhere
          (fun x => decide (x.stageAttemptId = r.stageAttemptId) && decide (x.state = .started))
          (StageAttempt.interrupted now reason r) t) s.stageAttempts
        events := s.events ++ notes } := by
  induction selected generalizing s with
  | nil =>
    rw [List.foldlM_nil, pure_eq_ok] at h
    exact ⟨[], by simp [Quiet], by simp, by simpa using hs, by simp [← h]⟩
  | cons r selected ih =>
    rw [List.foldlM_cons, bind_eq_ok] at h
    obtain ⟨t, ht, h⟩ := h
    obtain ⟨e, hquiet, hj, hid, rfl⟩ := interruptSpan_eq_ok ht
    obtain ⟨notes, hq, hjs, hser, rfl⟩ := ih (hs.append hid) h
    rw [List.append_assoc] at hser
    refine ⟨e :: notes, ?_, ?_, hser, by simp⟩
    · intro e' he'
      rcases List.mem_cons.mp he' with rfl | he'
      · exact hquiet
      · exact hq e' he'
    · intro e' he'
      rcases List.mem_cons.mp he' with rfl | he'
      · exact hj
      · exact hjs e' he'

/-- The spans that an interruption sweep closes are exactly the open ones of its lease. -/
theorem closeOpenStageAttempts_eq_ok {row : Job} {now : Time} {reason actor : String} {s s' : Ledger}
    (hs : s.WellFormed) (h : closeOpenStageAttempts row now reason actor s = .ok s') :
    ∃ notes, Quiet notes ∧ (∀ e ∈ notes, e.jobId = some row.jobId) ∧
      Serial (·.eventId) (s.events ++ notes) ∧
      s' = { s.updateStageAttempts (fun x => x.openFor row.jobId row.leaseGeneration)
          (fun x => x.interrupted now reason x) with events := s.events ++ notes } := by
  unfold closeOpenStageAttempts at h
  set selected := (s.stageAttempts.filter (fun r => r.openFor row.jobId row.leaseGeneration)).insertionSort
    (fun r r' => r.sequence ≤ r'.sequence) with hselected
  have hperm : selected.Perm (s.stageAttempts.filter (fun r => r.openFor row.jobId row.leaseGeneration)) :=
    List.perm_insertionSort _ _
  obtain ⟨notes, hq, hj, hser, rfl⟩ := interruptSpans_eq_ok hs.events_serial h
  refine ⟨notes, hq, hj, hser, ?_⟩
  have hids : (selected.map (·.stageAttemptId)).Nodup := by
    rw [(hperm.map _).nodup_iff]
    exact (List.filter_sublist.map _).nodup hs.spans_serial.nodup
  have hbulk := foldl_updateWhere_key StageAttempt.stageAttemptId (fun x => decide (x.state = .started))
    (StageAttempt.interrupted now reason) hs.spans_serial.nodup (fun _ _ => rfl) selected
    (fun r hr => (List.mem_filter.mp (hperm.mem_iff.mp hr)).1) hids
  have hsame : updateWhere (fun x => decide (x.stageAttemptId ∈ selected.map (·.stageAttemptId)) &&
      decide (x.state = .started)) (fun x => x.interrupted now reason x) s.stageAttempts =
      updateWhere (fun x => x.openFor row.jobId row.leaseGeneration) (fun x => x.interrupted now reason x)
        s.stageAttempts := by
    refine updateWhere_congr fun x hx => ?_
    by_cases hox : x.openFor row.jobId row.leaseGeneration = true
    · have hmem : x.stageAttemptId ∈ selected.map (·.stageAttemptId) :=
        List.mem_map_of_mem (hperm.mem_iff.mpr (List.mem_filter.mpr ⟨hx, hox⟩))
      have hst : x.state = .started := by
        simp only [StageAttempt.openFor, Bool.and_eq_true, decide_eq_true_eq] at hox
        exact hox.2
      rw [if_pos hox, if_pos (by simp only [hmem, hst, decide_true, Bool.and_self])]
    · have hmem : x.stageAttemptId ∉ selected.map (·.stageAttemptId) := by
        intro hmem
        obtain ⟨y, hy, hyx⟩ := List.mem_map.mp hmem
        obtain ⟨hy, hoy⟩ := List.mem_filter.mp (hperm.mem_iff.mp hy)
        have hyx : y = x := key_injective hs.spans_serial.nodup hy hx hyx
        exact hox (hyx ▸ hoy)
      rw [if_neg hox, if_neg (by simp only [hmem, decide_false, Bool.false_and, Bool.false_eq_true,
        not_false_eq_true])]
  rw [hbulk, hsame]
  rfl

theorem closeOpenStageAttempts_edits {row : Job} {now : Time} {reason actor : String} {s s' : Ledger}
    (hs : s.WellFormed) (hrow : row.jobId ∈ s.jobs.map (·.jobId))
    (h : closeOpenStageAttempts row now reason actor s = .ok s') :
    Edits row.jobId s s' ∧ ∃ notes, Quiet notes ∧ s'.view row.jobId =
      { s.view row.jobId with
        spans := updateWhere (fun x => x.openFor row.jobId row.leaseGeneration)
          (fun x => x.interrupted now reason x) (s.view row.jobId).spans
        events := (s.view row.jobId).events ++ notes } := by
  obtain ⟨notes, hq, hj, hser, rfl⟩ := closeOpenStageAttempts_eq_ok hs h
  have hspans : Edits row.jobId s (s.updateStageAttempts (fun x => x.openFor row.jobId row.leaseGeneration)
      (fun x => x.interrupted now reason x)) := by
    refine Edits.updateStageAttempts hs ?_ (fun r => ⟨rfl, rfl, rfl, rfl⟩)
    intro r _ hr
    simp only [StageAttempt.openFor, Bool.and_eq_true, decide_eq_true_eq] at hr
    exact hr.1.1
  refine ⟨hspans.trans (Edits.events hspans.wellFormed hser hj hrow), notes, hq, ?_⟩
  have hview := Ledger.view_updateStageAttempts (s := s)
    (p := fun x => x.openFor row.jobId row.leaseGeneration) (f := fun x => x.interrupted now reason x)
    (fun _ _ => rfl) row.jobId
  have hevents := Ledger.view_events (s := s.updateStageAttempts
    (fun x => x.openFor row.jobId row.leaseGeneration) (fun x => x.interrupted now reason x)) hj
  rw [hview] at hevents
  exact hevents

/-- The writes that end the lease of a row: its open spans, its attempt, its own columns, an event. -/
theorem endLease_edits {row : Job} {now : Time} {o : LeaseOutcome} {actor actor' : String} {body : EventBody}
    {s t s' : Ledger} {guard : Job → Bool} {f : Job → Job} (hs : s.WellFormed)
    (hrow : s.job? row.jobId = some row)
    (hclose : closeOpenStageAttempts row o.endedAt o.reason actor s = .ok t)
    (hevent : ((t.updateAttempts (fun r => r.liveFor row.jobId row.leaseGeneration)
      (Attempt.ended o.attempt o.endedAt (some o.reason))).updateJobs guard f).event now actor' (.job row) body =
        .ok s')
    (hguard : ∀ r, guard r = true → r.jobId = row.jobId) (hself : guard row = true)
    (hf : ∀ r, (f r).jobId = r.jobId) (hfrow : f row = row.endLease now o) :
    Edits row.jobId s s' ∧ ∃ notes e, Quiet notes ∧ e.body = body ∧
      s'.view row.jobId = (s.view row.jobId).endLease now row o notes e := by
  have hmem : row.jobId ∈ s.jobs.map (·.jobId) :=
    List.mem_map_of_mem ((Ledger.job?_eq_some hs).mp hrow).1
  obtain ⟨hspans, notes, hq, hview⟩ := closeOpenStageAttempts_edits hs hmem hclose
  have hattempts := Edits.updateAttempts (j := row.jobId) hspans.wellFormed
    (p := fun r => r.liveFor row.jobId row.leaseGeneration)
    (f := Attempt.ended o.attempt o.endedAt (some o.reason))
    (by
      intro r hr
      simp only [Attempt.liveFor, Bool.and_eq_true, decide_eq_true_eq] at hr
      exact hr.1.1)
    (fun _ => ⟨rfl, rfl, rfl⟩)
  have hjobs := Edits.updateJobs hattempts.wellFormed hguard hf
  have hedits := (hspans.trans hattempts).trans hjobs
  obtain ⟨hlast, e, he, hlastView⟩ := Edits.event hedits.wellFormed rfl (hedits.mem_jobs hmem) hevent
  refine ⟨hedits.trans hlast, notes, e, hq, he, ?_⟩
  have hjob : (s.view row.jobId).job = some row := hrow
  rw [hlastView, Ledger.view_updateJobs, Ledger.view_updateAttempts, hview]
  · simp only [hjob, Option.map_some, hself, if_true, JobView.endLease, hfrow]
  · exact fun _ _ => rfl
  · exact fun r _ => hf r

theorem recoverRow_acts {now : Time} {actor : String} {s s' : Ledger} {row : Job} (hs : s.WellFormed)
    (hrow : (s.view row.jobId).job = some row) (hx : row.expired now = true)
    (h : recoverRow now actor s row = .ok s') : Acts now .expired [row.jobId] s s' := by
  simp only [recoverRow, bind_eq_ok] at h
  obtain ⟨t, hclose, h⟩ := h
  by_cases hretry : row.attemptCount < s.state.maxAttempts
  · simp only [hretry, decide_true, if_true] at h
    obtain ⟨hedits, notes, e, hq, he, hview⟩ := endLease_edits
      (o := ⟨.queued, .expired, min now (row.leaseExpiresAt.getD now), "lease expired", some "lease expired",
        row.failureClass, _⟩) hs hrow hclose h
      (by simp +contextual) (by simp) (fun _ => rfl) rfl
    refine hedits.acts ?_
    rw [hview]
    exact .expired hrow hx rfl hq (.inl ⟨rfl, hretry, he⟩)
  · simp only [hretry, decide_false, Bool.false_eq_true, if_false] at h
    obtain ⟨hedits, notes, e, hq, he, hview⟩ := endLease_edits
      (o := ⟨.failed, .expired, min now (row.leaseExpiresAt.getD now), "lease expired", some "lease expired",
        row.failureClass, _⟩) hs hrow hclose h
      (by simp +contextual) (by simp) (fun _ => rfl) rfl
    refine hedits.acts ?_
    rw [hview]
    exact .expired hrow hx rfl hq (.inr ⟨rfl, Nat.not_lt.mp hretry, he⟩)

theorem recoverExpiredLocked_acts {now : Time} {actor : String} {s s' : Ledger} {n : Nat} (hs : s.WellFormed)
    (h : recoverExpiredLocked now actor s = .ok (n, s')) :
    Acts now .expired ((expiredJobs now s).map (·.jobId)) s s' := by
  simp only [recoverExpiredLocked, bind_eq_ok, pure_eq_ok] at h
  obtain ⟨t, ht, h⟩ := h
  obtain ⟨-, rfl⟩ := Prod.mk.inj h
  have hperm : (expiredJobs now s).Perm (s.jobs.filter (Job.expired now)) := List.perm_insertionSort _ _
  refine foldlM_acts Job.jobId (fun r v => v.job = some r ∧ r.expired now = true) ?_ ?_ hs ?_ ht
  · rintro r u u' hu ⟨hr, hx⟩ hstep
    exact recoverRow_acts hu hr hx hstep
  · rw [(hperm.map _).nodup_iff]
    exact (List.filter_sublist.map _).nodup hs.jobs_nodup
  · intro r hr
    obtain ⟨hm, hx⟩ := List.mem_filter.mp (hperm.mem_iff.mp hr)
    exact ⟨Ledger.job?_of_mem hs hm, hx⟩

/-- The fence: the lease is held after a sweep of everything that expired. -/
theorem requireLease_acts {jobId token : String} {generation : Nat} {now : Time} {s t : Ledger} {row : Job}
    (hs : s.WellFormed) (h : requireLease jobId token generation now s = .ok (row, t)) :
    Acts now .expired ((expiredJobs now s).map (·.jobId)) s t ∧ (t.view jobId).job = some row ∧
      row.jobId = jobId ∧ row.leaseGeneration = generation ∧ row.holds token generation now = true := by
  simp only [requireLease, bind_eq_ok] at h
  obtain ⟨⟨n, u⟩, hu, h⟩ := h
  have hacts := recoverExpiredLocked_acts hs hu
  cases hr : u.job? jobId with
  | none => rw [hr] at h; cases h
  | some r =>
    simp only [hr, bind_eq_ok, require_eq_ok, pure_eq_ok] at h
    obtain ⟨_, hh, h⟩ := h
    obtain ⟨rfl, rfl⟩ := Prod.mk.inj h
    have hgen : r.leaseGeneration = generation := by
      simp only [Job.holds, Bool.and_eq_true, decide_eq_true_eq] at hh
      exact hh.1.2
    exact ⟨hacts, hr, Ledger.job?_jobId hr, hgen, hh⟩

theorem holds_leasedAs {r : Job} {token : String} {generation : Nat} {now : Time}
    (h : r.holds token generation now = true) : r.leasedAs r.jobId token generation = true := by
  simp only [Job.holds, Bool.and_eq_true, decide_eq_true_eq] at h
  simp [Job.leasedAs, h.1.1.2, h.1.2]

/-- The fenced writes of a worker's report: the job row, its live attempt, an event. -/
theorem leased_edits {token actor : String} {now : Time} {s s' : Ledger} {row : Job} {body : EventBody}
    {f : Job → Job} {g : Attempt → Attempt} (hs : s.WellFormed) (hrow : (s.view row.jobId).job = some row)
    (hh : row.holds token row.leaseGeneration now = true)
    (h : ((s.updateJobs (Job.leasedAs row.jobId token row.leaseGeneration) f).updateAttempts
      (fun r => r.liveFor row.jobId row.leaseGeneration) g).event now actor (.job row) body = .ok s')
    (hf : ∀ r, (f r).jobId = r.jobId)
    (hg : ∀ r, (g r).attemptId = r.attemptId ∧ (g r).jobId = r.jobId ∧ (g r).leaseGeneration = r.leaseGeneration) :
    Edits row.jobId s s' ∧ ∃ e : Event, e.body = body ∧ s'.view row.jobId =
      { s.view row.jobId with
        job := some (f row)
        attempts := updateWhere (fun r => r.liveFor row.jobId row.leaseGeneration) g (s.view row.jobId).attempts
        events := (s.view row.jobId).events ++ [e] } := by
  have hmem := mem_jobs_of_view hrow
  have hjobs := Edits.updateJobs (j := row.jobId) hs (p := Job.leasedAs row.jobId token row.leaseGeneration)
    (by
      intro r hr
      simp only [Job.leasedAs, Bool.and_eq_true, decide_eq_true_eq] at hr
      exact hr.1.1)
    hf
  have hattempts := Edits.updateAttempts (j := row.jobId) hjobs.wellFormed
    (p := fun r => r.liveFor row.jobId row.leaseGeneration)
    (by
      intro r hr
      simp only [Attempt.liveFor, Bool.and_eq_true, decide_eq_true_eq] at hr
      exact hr.1.1)
    hg
  have hedits := hjobs.trans hattempts
  obtain ⟨hlast, e, he, hview⟩ := Edits.event hedits.wellFormed rfl (hedits.mem_jobs hmem) h
  refine ⟨hedits.trans hlast, e, he, ?_⟩
  rw [hview, Ledger.view_updateAttempts, Ledger.view_updateJobs]
  · simp only [hrow, Option.map_some, holds_leasedAs hh, if_true]
  · exact fun r _ => hf r
  · exact fun r _ => (hg r).2.1

theorem renew_acts {jobId token : String} {generation : Nat} {now : Time} {leaseSeconds : Option Int}
    {s s' : Ledger} {payload : LeasePayload} (hs : s.WellFormed)
    (h : renew jobId token generation now leaseSeconds s = .ok (payload, s')) :
    ∃ t, Acts now .expired ((expiredJobs now s).map (·.jobId)) s t ∧ Acts now .renewed [jobId] t s' := by
  simp only [renew, bind_eq_ok] at h
  obtain ⟨requested, _, ⟨row, t⟩, hl, u, hevent, payload', _, h⟩ := h
  rw [pure_eq_ok] at h
  obtain ⟨-, rfl⟩ := Prod.mk.inj h
  obtain ⟨hsweep, hrow, rfl, rfl, hh⟩ := requireLease_acts hs hl
  obtain ⟨hedits, e, he, hview⟩ := leased_edits hsweep.wellFormed hrow hh hevent (fun _ => rfl)
    (fun _ => ⟨rfl, rfl, rfl⟩)
  refine ⟨t, hsweep, hedits.acts ?_⟩
  rw [hview]
  exact .renewed hrow hh (by rw [he]; rfl)

theorem complete_acts {jobId token result : String} {generation : Nat} {now : Time} {s s' : Ledger}
    {reply : Option Job} (hs : s.WellFormed)
    (h : complete jobId token generation result now s = .ok (reply, s')) :
    ∃ t, Acts now .expired ((expiredJobs now s).map (·.jobId)) s t ∧ Acts now .completed [jobId] t s' := by
  simp only [complete, bind_eq_ok] at h
  obtain ⟨⟨row, t⟩, hl, h⟩ := h
  obtain ⟨hsweep, hrow, rfl, rfl, hh⟩ := requireLease_acts hs hl
  cases hopen : t.stageAttempts.find? (fun r => r.openFor row.jobId row.leaseGeneration) with
  | some span => simp only [hopen] at h; cases h
  | none =>
    simp only [hopen, bind_eq_ok, pure_eq_ok] at h
    obtain ⟨u, hevent, h⟩ := h
    obtain ⟨-, rfl⟩ := Prod.mk.inj h
    obtain ⟨hedits, e, he, hview⟩ := leased_edits hsweep.wellFormed hrow hh hevent (fun _ => rfl)
      (fun _ => ⟨rfl, rfl, rfl⟩)
    refine ⟨t, hsweep, hedits.acts ?_⟩
    rw [hview]
    refine .completed hrow hh ?_ he
    intro x hx
    have hnone := List.find?_eq_none.mp hopen x (List.mem_of_mem_filter hx)
    simpa using hnone

theorem spansOf_eq {s : Ledger} (hs : s.WellFormed) {a : Attempt} (ha : a ∈ s.attempts) :
    spansOf s a.attemptId = (s.view a.jobId).spans.filter (fun y => decide (y.attemptId = a.attemptId)) :=
  Ledger.spans_of_view hs ha

theorem openSpan?_none {s : Ledger} {attemptId : Nat} (h : openSpan? s attemptId = none) {j : String} :
    ∀ y ∈ (s.view j).spans, y.attemptId = attemptId → y.state ≠ .started := by
  intro y hy ha hst
  have hm : y ∈ spansOf s attemptId :=
    List.mem_filter.mpr ⟨List.mem_of_mem_filter hy, decide_eq_true ha⟩
  exact List.find?_eq_none.mp h y hm (decide_eq_true hst)

theorem newSpan_follows {s : Ledger} (hs : s.WellFormed) {a : Attempt} (ha : a ∈ s.attempts)
    {report : StageReport} : (newSpan s a a.leaseGeneration report).Follows a (s.view a.jobId).spans where
  jobId := rfl
  attemptId := rfl
  leaseGeneration := rfl
  sequence := by rw [← spansOf_eq hs ha]; rfl
  stageAttempt := by rw [← spansOf_eq hs ha]; rfl

theorem insertSpan_edits {s s' : Ledger} (hs : s.WellFormed) {a : Attempt} (ha : a ∈ s.attempts)
    {report : StageReport} (h : s.insertStageAttempt (newSpan s a a.leaseGeneration report) = .ok s') :
    Edits a.jobId s s' ∧ s'.view a.jobId =
      { s.view a.jobId with
        spans := (s.view a.jobId).spans ++ [newSpan s a a.leaseGeneration report] } := by
  obtain rfl := Ledger.insertStageAttempt_eq_ok h
  exact ⟨Edits.span hs (newSpan s a a.leaseGeneration report) rfl ⟨a, ha, rfl, rfl, rfl⟩,
    Ledger.view_span s (newSpan s a a.leaseGeneration report)⟩

/-- Closing a span by its id and state closes that span and no other. -/
theorem closeSpan_edits {s : Ledger} (hs : s.WellFormed) {a : Attempt} (ha : a ∈ s.attempts) {x : StageAttempt}
    {report : StageReport} (hx : openSpan? s a.attemptId = some x)
    (hr : report.status = .completed ∨ report.status = .failed) :
    Edits a.jobId s (s.updateStageAttempts
        (fun r => decide (r.stageAttemptId = x.stageAttemptId) && decide (r.state = .started))
        (StageAttempt.closed report x)) ∧
      ∃ spans, SpanStep a (s.view a.jobId).spans none spans ∧ (s.updateStageAttempts
        (fun r => decide (r.stageAttemptId = x.stageAttemptId) && decide (r.state = .started))
        (StageAttempt.closed report x)).view a.jobId = { s.view a.jobId with spans := spans } := by
  have hst : x.state = .started := by simpa using List.find?_some hx
  have hof : x ∈ (s.view a.jobId).spans.filter (fun y => decide (y.attemptId = a.attemptId)) := by
    rw [← spansOf_eq hs ha]
    exact List.mem_of_find?_eq_some hx
  obtain ⟨hview, hxa⟩ := List.mem_filter.mp hof
  obtain ⟨hmem, hxj⟩ := List.mem_filter.mp hview
  have hkey : ∀ r ∈ s.stageAttempts,
      (decide (r.stageAttemptId = x.stageAttemptId) && decide (r.state = .started)) = decide (r = x) := by
    intro r hr
    by_cases hrx : r = x
    · simp [hrx, hst]
    · have hne : r.stageAttemptId ≠ x.stageAttemptId :=
        fun he => hrx (key_injective hs.spans_serial.nodup hr hmem he)
      simp [hrx, hne]
  refine ⟨Edits.updateStageAttempts hs ?_ (fun _ => ⟨rfl, rfl, rfl, rfl⟩), _,
    .closed hview (of_decide_eq_true hxa) hst hr, ?_⟩
  · intro r hr hp
    rw [hkey r hr, decide_eq_true_eq] at hp
    rw [hp]
    exact of_decide_eq_true hxj
  · have hsame : updateWhere (fun r => decide (r.stageAttemptId = x.stageAttemptId) && decide (r.state = .started))
        (StageAttempt.closed report x) (s.view a.jobId).spans =
        updateWhere (fun y => decide (y = x)) (StageAttempt.closed report x) (s.view a.jobId).spans := by
      refine updateWhere_congr fun r hr => ?_
      rw [hkey r (List.mem_of_mem_filter hr)]
    rw [Ledger.view_updateStageAttempts, hsame]
    exact fun _ _ => rfl

theorem recordSpan_edits {s s' : Ledger} (hs : s.WellFormed) {a : Attempt} (ha : a ∈ s.attempts)
    {report : StageReport} {written : Nat × Nat × Time}
    (h : recordSpan a a.leaseGeneration report s = .ok (written, s')) :
    Edits a.jobId s s' ∧ ∃ spans,
      SpanStep a (s.view a.jobId).spans (if report.status = .started then some report.stage else none) spans ∧
      s'.view a.jobId = { s.view a.jobId with spans := spans } := by
  unfold recordSpan at h
  cases hst : report.status with
  | started =>
    cases hop : openSpan? s a.attemptId with
    | some x => simp only [hst, hop] at h; cases h
    | none =>
      simp only [hst, hop, bind_eq_ok, pure_eq_ok] at h
      obtain ⟨t, ht, h⟩ := h
      obtain ⟨-, rfl⟩ := Prod.mk.inj h
      obtain ⟨hedits, hview⟩ := insertSpan_edits hs ha ht
      refine ⟨hedits, _, ?_, hview⟩
      exact .opened (openSpan?_none hop) (newSpan_follows hs ha) (by simp [newSpan, hst, StageStatus.span])
  | skipped =>
    cases hop : openSpan? s a.attemptId with
    | some x => simp only [hst, hop] at h; cases h
    | none =>
      simp only [hst, hop, bind_eq_ok, pure_eq_ok] at h
      obtain ⟨t, ht, h⟩ := h
      obtain ⟨-, rfl⟩ := Prod.mk.inj h
      obtain ⟨hedits, hview⟩ := insertSpan_edits hs ha ht
      refine ⟨hedits, _, ?_, hview⟩
      exact .skipped (openSpan?_none hop) (newSpan_follows hs ha) (by simp [newSpan, hst, StageStatus.span])
  | completed =>
    cases hop : openSpan? s a.attemptId with
    | none => simp only [hst, hop] at h; cases h
    | some x =>
      simp only [hst, hop, bind_eq_ok, pure_eq_ok] at h
      obtain ⟨_, _, _, _, h⟩ := h
      obtain ⟨-, rfl⟩ := Prod.mk.inj h
      exact closeSpan_edits hs ha hop (.inl hst)
  | failed =>
    cases hop : openSpan? s a.attemptId with
    | none => simp only [hst, hop] at h; cases h
    | some x =>
      simp only [hst, hop, bind_eq_ok, pure_eq_ok] at h
      obtain ⟨_, _, _, _, h⟩ := h
      obtain ⟨-, rfl⟩ := Prod.mk.inj h
      exact closeSpan_edits hs ha hop (.inr hst)

theorem recordStage_acts {jobId token stage status : String} {generation : Nat} {durationNs : Option Int}
    {details : Option StageDetails} {now : Time} {s s' : Ledger} {eventId : Nat} (hs : s.WellFormed)
    (h : recordStage jobId token generation stage status durationNs details now s = .ok (eventId, s')) :
    ∃ t, Acts now .expired ((expiredJobs now s).map (·.jobId)) s t ∧ Acts now .staged [jobId] t s' := by
  simp only [recordStage, bind_eq_ok] at h
  obtain ⟨report, _, ⟨row, t⟩, hl, h⟩ := h
  obtain ⟨hsweep, hrow, rfl, rfl, hh⟩ := requireLease_acts hs hl
  cases hlive : t.attempts.find? (fun r => r.liveFor row.jobId row.leaseGeneration) with
  | none => simp only [hlive] at h; cases h
  | some a =>
    simp only [hlive, bind_eq_ok, pure_eq_ok] at h
    obtain ⟨⟨⟨spanId, number, startedAt⟩, u⟩, hspan, w, hevent, h⟩ := h
    obtain ⟨-, rfl⟩ := Prod.mk.inj h
    have ha : a ∈ t.attempts := List.mem_of_find?_eq_some hlive
    have hfor : a.liveFor row.jobId row.leaseGeneration = true := by simpa using List.find?_some hlive
    have hkeys : a.jobId = row.jobId ∧ a.leaseGeneration = row.leaseGeneration := by
      simp only [Attempt.liveFor, Bool.and_eq_true, decide_eq_true_eq] at hfor
      exact hfor.1
    rw [← hkeys.2] at hspan
    obtain ⟨hedits, spans, hstep, hview⟩ := recordSpan_edits hsweep.wellFormed ha hspan
    rw [hkeys.1] at hedits hstep hview
    have hrow' : (u.view row.jobId).job = some row := by rw [hview]; exact hrow
    obtain ⟨hlast, e, he, hlastView⟩ := leased_edits hedits.wellFormed hrow' hh hevent (fun _ => rfl)
      (fun _ => ⟨rfl, rfl, rfl⟩)
    refine ⟨t, hsweep, (hedits.trans hlast).acts ?_⟩
    rw [hlastView, hview]
    have hmem : a ∈ (t.view row.jobId).attempts := List.mem_filter.mpr ⟨ha, decide_eq_true hkeys.1⟩
    exact .staged hrow hh hmem hfor hstep he

theorem checkCircuit_still {now : Time} {row : Job} {failed : Bool} {failureClass : Option String}
    {s s' : Ledger} (hs : s.WellFormed) (h : checkCircuit now row failed failureClass s = .ok s') :
    Still s s' ∧ ∃ paused, s'.state = { s.state with paused := paused } := by
  have hsame : Still s s ∧ ∃ paused, s.state = { s.state with paused := paused } :=
    ⟨Still.refl hs, s.state.paused, rfl⟩
  unfold checkCircuit at h
  cases failureClass with
  | none => rw [pure_eq_ok] at h; exact h ▸ hsame
  | some c =>
    simp only [openCircuit] at h
    split at h
    · split at h
      · have hstate := Still.updateState hs (fun c => { c with paused := true })
        obtain ⟨hstill, heq⟩ := Still.event hstate.wellFormed rfl h
        exact ⟨hstate.trans hstill, true, heq⟩
      · rw [pure_eq_ok] at h; exact h ▸ hsame
    · rw [pure_eq_ok] at h; exact h ▸ hsame

theorem noQuarantine_of_insert {s s' : Ledger} {q : Quarantine} (ha : q.state = .active)
    (h : s.insertQuarantine q = .ok s') : (s.view q.jobId).NoQuarantine := by
  obtain ⟨hno, -⟩ := Ledger.insertQuarantine_eq_ok h
  intro q' hq' ha'
  obtain ⟨hm, hj⟩ := List.mem_filter.mp hq'
  exact hno q' hm ⟨of_decide_eq_true hj, ha', ha⟩

/-- An inserted quarantine together with the event that announces it. -/
theorem quarantine_edits {s t s' : Ledger} {q : Quarantine} {subject : Subject} {now : Time} {actor : String}
    {body : EventBody} (hs : s.WellFormed) (hid : q.quarantineId = s.nextQuarantineId)
    (hmem : q.jobId ∈ s.jobs.map (·.jobId)) (h : s.insertQuarantine q = .ok t)
    (hsub : subject.jobId = some q.jobId) (hevent : t.event now actor subject body = .ok s') :
    Edits q.jobId s s' ∧ ∃ e : Event, e.body = body ∧ s'.view q.jobId = (s.view q.jobId).quarantine q e := by
  obtain ⟨hno, rfl⟩ := Ledger.insertQuarantine_eq_ok h
  have hfirst := Edits.quarantine hs q hid hmem hno
  obtain ⟨hlast, e, he, hview⟩ := Edits.event hfirst.wellFormed hsub (hfirst.mem_jobs hmem) hevent
  refine ⟨hfirst.trans hlast, e, he, ?_⟩
  rw [hview, Ledger.view_quarantine]
  rfl

theorem failLease_edits {token failure : String} {classified : Option String} {retry : Bool}
    {eligibleAt now : Time} {ending : LeaseEnd} {row : Job} {s s' : Ledger} (hs : s.WellFormed)
    (hrow : (s.view row.jobId).job = some row) (hh : row.holds token row.leaseGeneration now = true)
    (h : failLease token failure classified retry eligibleAt ending now row s = .ok s') :
    Edits row.jobId s s' ∧ ∃ o notes e, o.attempt = .failed ∧ Quiet notes ∧
      (retry = true ∧ o.state = .queued ∧ e.body = .jobRequeued ending ∨
        retry = false ∧ o.state = .failed ∧ e.body = .jobFailed ending) ∧
      s'.view row.jobId = (s.view row.jobId).endLease now row o notes e := by
  simp only [failLease, bind_eq_ok] at h
  obtain ⟨t, hclose, hevent⟩ := h
  obtain ⟨hedits, notes, e, hq, he, hview⟩ := endLease_edits
    (o := ⟨if retry then .queued else .failed, .failed, now, failure, some failure, classified, eligibleAt⟩)
    hs hrow hclose hevent (by simp +contextual [Job.leasedAs]) (holds_leasedAs hh) (fun _ => rfl) rfl
  refine ⟨hedits, _, notes, e, rfl, hq, ?_, hview⟩
  cases retry with
  | true => exact .inl ⟨rfl, rfl, he⟩
  | false => exact .inr ⟨rfl, rfl, he⟩

theorem fail_acts {jobId token error : String} {generation : Nat} {retryable pathological : Bool}
    {failureClass : Option String} {now : Time} {s s' : Ledger} {reply : Option Job} (hs : s.WellFormed)
    (h : fail jobId token generation error retryable failureClass pathological now s = .ok (reply, s')) :
    ∃ t, Acts now .expired ((expiredJobs now s).map (·.jobId)) s t ∧ Acts now .failed [jobId] t s' := by
  simp only [fail, bind_eq_ok] at h
  obtain ⟨failure, _, classified, _, ⟨row, t⟩, hl, w, hfail, h⟩ := h
  obtain ⟨hsweep, hrow, rfl, rfl, hh⟩ := requireLease_acts hs hl
  refine ⟨t, hsweep, ?_⟩
  obtain ⟨hedits, o, notes, e, ho, hq, hend, hview⟩ := failLease_edits hsweep.wellFormed hrow hh hfail
  cases pathological with
  | false =>
    simp only [Bool.false_eq_true, if_false, bind_eq_ok, pure_eq_ok] at h
    obtain ⟨_, rfl, x, hcircuit, h⟩ := h
    obtain ⟨-, rfl⟩ := Prod.mk.inj h
    obtain ⟨hstill, paused, hpaused⟩ := checkCircuit_still hedits.wellFormed hcircuit
    refine (hedits.trans (hstill.edits hpaused row.jobId)).acts ?_
    rw [hstill.views, hview]
    rcases hend with ⟨hretry, hs, he⟩ | ⟨hretry, hs, he⟩
    · simp only [Bool.not_false, Bool.true_and, Bool.and_eq_true, decide_eq_true_eq] at hretry
      exact .failed hrow hh ho hq (.inl ⟨hs, hretry.2, he⟩)
    · exact .failed hrow hh ho hq (.inr ⟨hs, he⟩)
  | true =>
    simp only [if_true, quarantineRow, bind_eq_ok, pure_eq_ok] at h
    obtain ⟨y, ⟨z, hins, hevent⟩, x, hcircuit, h⟩ := h
    obtain ⟨-, rfl⟩ := Prod.mk.inj h
    obtain ⟨hquar, e', he', hquarView⟩ := quarantine_edits hedits.wellFormed rfl
      (hedits.mem_jobs (mem_jobs_of_view hrow)) hins rfl hevent
    obtain ⟨hstill, paused, hpaused⟩ := checkCircuit_still hquar.wellFormed hcircuit
    refine ((hedits.trans hquar).trans (hstill.edits hpaused row.jobId)).acts ?_
    have hno : (w.view row.jobId).NoQuarantine := noQuarantine_of_insert rfl hins
    rw [hview] at hno
    rw [hstill.views, hquarView, hview]
    rcases hend with ⟨hretry, -, -⟩ | ⟨-, hs, he⟩
    · simp at hretry
    · exact .failedPathological hrow hh ho hq hs he hno rfl he'

/-- A payload that reports the lease of the job it names. -/
def LeasePayload.Reports (payload : LeasePayload) (s : Ledger) : Prop :=
  ∃ r, (s.view payload.jobId).job = some r ∧ r.leaseToken = some payload.leaseToken ∧
    r.leaseGeneration = payload.leaseGeneration

theorem leasePayload_eq_ok {s : Ledger} {jobId : String} {payload : LeasePayload}
    (h : leasePayload s jobId = .ok payload) : payload.jobId = jobId ∧ payload.Reports s := by
  simp only [leasePayload] at h
  split at h
  · rename_i found hfound
    rw [pure_eq_ok] at h
    subst h
    simp only [Option.bind_eq_bind, Option.bind_eq_some_iff, pure, Option.some.injEq] at hfound
    obtain ⟨r, hr, _, _, _, _, token, htoken, _, _, _, _, rfl⟩ := hfound
    have hid : r.jobId = jobId := Ledger.job?_jobId hr
    exact ⟨hid, r, hid.symm ▸ hr, htoken, rfl⟩
  · cases h

/-- A fresh attempt id occurs neither among the attempts nor among the spans of any job. -/
theorem nextAttemptId_fresh {s : Ledger} (hs : s.WellFormed) (j : String) :
    (∀ a ∈ (s.view j).attempts, a.attemptId ≠ s.nextAttemptId) ∧
      ∀ x ∈ (s.view j).spans, x.attemptId ≠ s.nextAttemptId := by
  have hattempts : ∀ a ∈ s.attempts, a.attemptId ≠ s.nextAttemptId := by
    intro a ha he
    have hm : a.attemptId ∈ List.range' 1 s.attempts.length := by
      rw [← hs.attempts_serial]
      exact List.mem_map_of_mem ha
    rw [List.mem_range'_1] at hm
    simp only [Ledger.nextAttemptId] at he
    omega
  refine ⟨fun a ha => hattempts a (List.mem_of_mem_filter ha), ?_⟩
  intro x hx
  obtain ⟨a, ha, hax, -⟩ := hs.span_attempt x (List.mem_of_mem_filter hx)
  rw [← hax]
  exact hattempts a ha

theorem claimRow_acts {worker token : String} {now : Time} {pool : Option WorkerPool} {row : Job} {s s' : Ledger}
    {payload : LeasePayload} (hs : s.WellFormed) (hrow : (s.view row.jobId).job = some row)
    (hq : row.state = .queued) (ha : row.active = true)
    (h : claimRow worker token now pool row s = .ok (payload, s')) :
    Acts now .claimed [row.jobId] s s' ∧ payload.jobId = row.jobId ∧ payload.Reports s' := by
  simp only [claimRow, bind_eq_ok, pure_eq_ok] at h
  obtain ⟨_, _, t, hins, u, hevent, payload', hpayload, h⟩ := h
  obtain ⟨rfl, rfl⟩ := Prod.mk.inj h
  obtain rfl := Ledger.insertAttempt_eq_ok hins
  have hmem := mem_jobs_of_view hrow
  obtain ⟨hfreshAttempts, hfreshSpans⟩ := nextAttemptId_fresh hs row.jobId
  set guard := fun (r : Job) => decide (r.jobId = row.jobId) && decide (r.state = .queued) && r.active with hguard
  set f := Job.claimed token worker (row.attemptCount + 1) (row.leaseGeneration + 1)
    (now + seconds s.state.leaseSeconds) now with hf
  set a := newAttempt s.nextAttemptId row.jobId (row.attemptCount + 1) token (row.leaseGeneration + 1) worker now
    (now + seconds s.state.leaseSeconds) with haRow
  have hjobs : Edits row.jobId s (s.updateJobs guard f) :=
    Edits.updateJobs hs (by simp +contextual [hguard]) (fun _ => rfl)
  have hjobsView : (s.updateJobs guard f).view row.jobId = { s.view row.jobId with job := some (f row) } := by
    rw [Ledger.view_updateJobs]
    · simp only [hrow, Option.map_some, hguard, hq, ha, decide_true, Bool.and_self, if_true]
    · exact fun _ _ => rfl
  have hattempt := Edits.attempt hjobs.wellFormed a rfl (hjobs.mem_jobs hmem)
  have hattemptView := Ledger.view_attempt (s.updateJobs guard f) a
  rw [show a.jobId = row.jobId from rfl] at hattemptView
  have hedits := hjobs.trans hattempt
  obtain ⟨hlast, e, he, hview⟩ := Edits.event hedits.wellFormed rfl (hedits.mem_jobs hmem) hevent
  have hfinal : u.view row.jobId =
      { s.view row.jobId with
        job := some (f row)
        attempts := (s.view row.jobId).attempts ++ [a]
        events := (s.view row.jobId).events ++ [e] } := by
    rw [hview, hattemptView, hjobsView]
  refine ⟨(hedits.trans hlast).acts ?_, leasePayload_eq_ok hpayload⟩
  rw [hfinal]
  exact .claimed hrow hq ha hfreshAttempts hfreshSpans he

theorem candidate?_eq_some {now : Time} {batchIds : Option (List String)} {s : Ledger} {job : Job} {c : Candidate}
    (h : candidate? now batchIds s job = some c) :
    c.job = job ∧ job.active = true ∧ job.state = .queued ∧ s.selects job = true := by
  unfold candidate? at h
  split at h
  · rename_i hcond
    simp only [Bool.and_eq_true, decide_eq_true_eq] at hcond
    simp only [Option.bind_eq_bind, Option.bind_eq_some_iff, pure, Option.some.injEq] at h
    obtain ⟨b, hb, _, _, rfl⟩ := h
    exact ⟨rfl, hcond.1.1.1, hcond.1.1.2, by simp [Ledger.selects, hcond.1.1.1, hb]⟩
  · cases h

/-- A claim sweeps the expired leases, then leases at most one selected, queued
job, with a worker slot free and the queue open. -/
theorem claim_acts {workerId token : String} {now : Time} {pool batchId : Option String}
    {batchIds : Option (List String)} {s s' : Ledger} {reply : Option LeasePayload} (hs : s.WellFormed)
    (h : claim workerId token now pool batchId batchIds s = .ok (reply, s')) :
    ∃ t, Acts now .expired ((expiredJobs now s).map (·.jobId)) s t ∧ (reply = none ∧ s' = t ∨
      ∃ row payload, reply = some payload ∧ Acts now .claimed [row.jobId] t s' ∧
        (t.view row.jobId).job = some row ∧ t.selects row = true ∧
        activeWorkers t < t.state.maxWorkers ∧ payload.jobId = row.jobId ∧ payload.Reports s') := by
  simp only [claim, bind_eq_ok] at h
  obtain ⟨worker, _, pool', _, selected, _, ⟨n, t⟩, hsweep, h⟩ := h
  have hacts := recoverExpiredLocked_acts hs hsweep
  have hnone : ∀ {u}, (pure (none, t) : Result (Option LeasePayload × Ledger)) = .ok u → u = (none, t) :=
    fun hu => (pure_eq_ok.mp hu).symm
  refine ⟨t, hacts, ?_⟩
  split at h
  · obtain ⟨rfl, rfl⟩ := Prod.mk.inj (hnone h)
    exact .inl ⟨rfl, rfl⟩
  · split at h
    · obtain ⟨rfl, rfl⟩ := Prod.mk.inj (hnone h)
      exact .inl ⟨rfl, rfl⟩
    · rename_i hslots
      split at h
      · obtain ⟨rfl, rfl⟩ := Prod.mk.inj (hnone h)
        exact .inl ⟨rfl, rfl⟩
      · rename_i found hfound
        simp only [bind_eq_ok, pure_eq_ok] at h
        obtain ⟨⟨payload, u⟩, hclaim, h⟩ := h
        obtain ⟨rfl, rfl⟩ := Prod.mk.inj h
        have hmem := (List.perm_insertionSort _ _).mem_iff.mp (List.mem_of_find?_eq_some hfound)
        obtain ⟨job, hjob, hc⟩ := List.mem_filterMap.mp hmem
        obtain ⟨rfl, hactive, hqueued, hsel⟩ := candidate?_eq_some hc
        have hrow := Ledger.job?_of_mem hacts.wellFormed hjob
        obtain ⟨hact, hid, hreports⟩ := claimRow_acts hacts.wellFormed hrow hqueued hactive hclaim
        exact .inr ⟨found.job, payload, rfl, hact, hrow, hsel, Nat.not_le.mp hslots, hid, hreports⟩

end FidbPoc.Coordinator
