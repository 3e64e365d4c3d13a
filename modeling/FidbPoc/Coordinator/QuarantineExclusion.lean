import FidbPoc.Coordinator.Mirror

namespace FidbPoc.Coordinator

open FidbPoc.Lib FidbPoc.Lib.Table FidbPoc.Lib.Checked Relation

/-- An active quarantine keeps its job failed. -/
def JobView.Held (v : JobView) : Prop := ∀ r, v.job = some r → r.state ≠ .failed → v.NoQuarantine

/-- Every move keeps quarantined jobs failed, but for a requeue that overlooks one. -/
theorem JobStep.held {now : Time} {n : Nat} {m : Move} {v v' : JobView} (h : JobStep now n m v v') (hv : v.Held)
    (hm : m = .requeued → v.NoQuarantine) : v'.Held := by
  have hlive : ∀ {r : Job}, v.job = some r → r.state.live = true → v.NoQuarantine := by
    intro r hr hl
    exact hv r hr fun hs => by rw [hs] at hl; cases hl
  cases h with
  | created he => exact fun _ _ _ _ hq => (List.not_mem_nil hq).elim
  | deselected hr | placed hr _ =>
    intro r' hr' hs
    obtain rfl := Option.some.inj hr'
    exact hv _ hr hs
  | claimed hr hq ha hid hsp he => exact fun _ _ _ => hv _ hr (by rw [hq]; simp)
  | renewed hr hh he => exact fun _ _ _ => hlive hr (Job.holds_live hh)
  | staged hr hh ha hl hs he => exact fun _ _ _ => hlive hr (Job.holds_live hh)
  | completed hr hh hopen he => exact fun _ _ _ => hlive hr (Job.holds_live hh)
  | expired hr hx ho hn he => exact fun _ _ _ => hlive hr (Job.expired_live hx)
  | failed hr hh ho hn he => exact fun _ _ _ => hlive hr (Job.holds_live hh)
  | failedPathological hr hh ho hn hs he hno hq he' =>
    intro r' hr' hne
    obtain rfl := Option.some.inj hr'
    exact (hne hs).elim
  | interrupted hr hl ho hn hs he => exact fun _ _ _ => hlive hr hl
  | @quarantined _ r q e reason cause hr ha hs hno hq he =>
    intro r' hr' hne
    obtain rfl := Option.some.inj hr'
    rcases hs with hs | hs
    · rw [if_pos hs] at hne
      exact (hne rfl).elim
    · rw [if_neg (by rw [hs]; simp)] at hne
      exact (hne hs).elim
  | @released _ r q e reason hr hq ha hone he =>
    intro r' hr' hne x hx hxa
    obtain ⟨y, hy, rfl⟩ := mem_updateWhere.mp hx
    by_cases hyq : y = q
    · rw [if_pos (by simpa using hyq)] at hxa
      cases hxa
    · rw [if_neg (by simpa using hyq)] at hxa
      exact hyq (hone y hy hxa)
  | requeued hr ha hs he => exact fun _ _ _ => hm rfl

/-- A requeue of failed jobs that names no job with an active quarantine. -/
def Op.SparesQuarantined (op : Op) (s : Ledger) : Prop :=
  ∀ j ∈ op.requeued s, ∀ q ∈ s.quarantines, q.jobId = j → q.state ≠ .active

instance (op : Op) (s : Ledger) : Decidable (op.SparesQuarantined s) :=
  inferInstanceAs (Decidable (∀ j ∈ op.requeued s, ∀ q ∈ s.quarantines, q.jobId = j → q.state ≠ .active))

theorem Committed.held {sha256 : String → String} {op : Op} {s s' : Ledger} (h : Committed sha256 op s s')
    (hspare : op.SparesQuarantined s) (hs : ∀ j, (s.view j).Held) : ∀ j, (s'.view j).Held := by
  cases h with
  | synchronized hop hr hsync =>
    intro j
    have hviews := hsync.selection.syncs.views j s.state.maxAttempts
    generalize s'.view j = v' at hviews ⊢
    induction hviews with
    | refl => exact hs j
    | tail _ hlast ih =>
      obtain ⟨m, hm, hlast⟩ := hlast
      exact hlast.held ih fun he => by subst he; simp [Move.selecting] at hm
  | still hop hstill hstate =>
    intro j
    rw [hstill.views]
    exact hs j
  | @worked m t js ks hop hsweep hact hrequeued _ =>
    have ht := hsweep.invariant (fun _ _ hstep hv => hstep.held hv fun he => by cases he) hs
    intro j
    by_cases hj : j ∈ ks
    · refine (hact.steps j hj).held (ht j) fun he q hq => ?_
      obtain ⟨rfl, rfl⟩ := hrequeued he
      obtain ⟨hmem, hqj⟩ := Ledger.mem_view_quarantines.mp hq
      exact hspare j hj q hmem hqj
    · rw [hact.others j hj]
      exact ht j

section Raises

variable {p : Error → Prop}

theorem closeOpenStageAttempts_raises (hvalue : ∀ message, p (.value message)) (row : Job) (now : Time)
    (reason actor : String) (s : Ledger) : RaisesOnly p (closeOpenStageAttempts row now reason actor s) :=
  .foldlM (fun _ _ => Ledger.event_raises hvalue _ _ _ _ _) _ _

theorem recoverExpiredLocked_raises (hvalue : ∀ message, p (.value message)) (now : Time) (actor : String)
    (s : Ledger) : RaisesOnly p (recoverExpiredLocked now actor s) := by
  refine .bind (.foldlM (fun s row => ?_) _ _) fun _ _ => .ok _
  exact .bind (closeOpenStageAttempts_raises hvalue _ _ _ _ _) fun _ _ => Ledger.event_raises hvalue _ _ _ _ _

theorem requireLease_raises (hvalue : ∀ message, p (.value message)) (hlease : ∀ message, p (.leaseConflict message))
    (jobId token : String) (generation : Nat) (now : Time) (s : Ledger) :
    RaisesOnly p (requireLease jobId token generation now s) := by
  refine .bind (recoverExpiredLocked_raises hvalue _ _ _) fun r _ => ?_
  obtain ⟨n, t⟩ := r
  simp only
  split
  · exact .error (hlease _)
  · exact .bind (.require fun _ => hlease _) fun _ _ => .ok _

theorem checkCircuit_raises (hvalue : ∀ message, p (.value message)) (now : Time) (row : Job) (failed : Bool)
    (failureClass : Option String) (s : Ledger) : RaisesOnly p (checkCircuit now row failed failureClass s) := by
  unfold checkCircuit
  split
  · split
    · simp only [openCircuit]
      split
      · exact Ledger.event_raises hvalue _ _ _ _ _
      · exact .ok _
    · exact .ok _
  · exact .ok _

end Raises

def secondQuarantine : Error := .integrity "one_active_pathological_quarantine"

/-- A leased job has no active quarantine, so its failure can record one. -/
theorem fail_ne_secondQuarantine {s : Ledger} (hs : s.WellFormed) (hheld : ∀ j, (s.view j).Held)
    (jobId token : String) (generation : Nat) (error : String) (retryable : Bool) (failureClass : Option String)
    (pathological : Bool) (now : Time) :
    fail jobId token generation error retryable failureClass pathological now s ≠ .error secondQuarantine := by
  have hvalue : ∀ message, Error.value message ≠ secondQuarantine := fun _ he => by cases he
  have hlease : ∀ message, Error.leaseConflict message ≠ secondQuarantine := fun _ he => by cases he
  have hraises : RaisesOnly (· ≠ secondQuarantine)
      (fail jobId token generation error retryable failureClass pathological now s) := by
    refine .bind (text_raises hvalue _ _) fun failure _ => ?_
    refine .bind (checkFailureClass_raises hvalue _) fun classified _ => ?_
    refine .bind (requireLease_raises hvalue hlease _ _ _ _ _) fun r hr => ?_
    obtain ⟨row, t⟩ := r
    obtain ⟨hsweep, hrow, rfl, rfl, hh⟩ := requireLease_acts hs hr
    have ht := hsweep.invariant (fun _ _ hstep hv => hstep.held hv fun he => by cases he) hheld
    refine .bind ?_ fun u hu => ?_
    · exact .bind (closeOpenStageAttempts_raises hvalue _ _ _ _ _) fun _ _ => Ledger.event_raises hvalue _ _ _ _ _
    obtain ⟨-, o, notes, e, -, -, -, hview⟩ := failLease_edits hsweep.wellFormed hrow hh hu
    have hno : (u.view row.jobId).NoQuarantine := by
      rw [hview]
      refine ht row.jobId row hrow fun hs => ?_
      have hl := Job.holds_live hh
      rw [hs] at hl
      cases hl
    have hlast : ∀ w, RaisesOnly (· ≠ secondQuarantine) (do
        let s ← checkCircuit now row (!(!pathological && retryable && decide (row.attemptCount < t.state.maxAttempts)))
          classified w
        pure (s.job? row.jobId, s)) :=
      fun w => .bind (checkCircuit_raises hvalue _ _ _ _ _) fun _ _ => .ok _
    cases pathological with
    | false => exact .bind (.ok _) fun w _ => hlast w
    | true =>
      refine .bind (.bind (.bind (.require fun hn => (hn ?_).elim) fun _ _ => .ok _) fun _ _ =>
        Ledger.event_raises hvalue _ _ _ _ _) fun w _ => hlast w
      rintro q hq ⟨hj, ha, -⟩
      exact hno q (Ledger.mem_view_quarantines.mpr ⟨hq, hj⟩) ha
  exact fun he => hraises _ he rfl

theorem JobStep.quarantines_eq {now : Time} {n : Nat} {m : Move} {v v' : JobView} (h : JobStep now n m v v')
    (hm : m = .expired ∨ m = .claimed) : v'.quarantines = v.quarantines := by
  cases h with
  | claimed | expired => rfl
  | created | deselected | placed | renewed | staged | completed | failed | failedPathological | interrupted
  | quarantined | released | requeued => simp at hm

/-- A claim leases no job that was quarantined before it. -/
theorem claim_ne_quarantined {s s' : Ledger} (hs : s.WellFormed) (hheld : ∀ j, (s.view j).Held)
    {workerId token : String} {pool batchId : Option String} {batchIds : Option (List String)} {now : Time}
    {payload : LeasePayload} (h : claim workerId token now pool batchId batchIds s = .ok (some payload, s')) :
    (s.view payload.jobId).NoQuarantine := by
  obtain ⟨t, hsweep, ⟨hnone, -⟩ | ⟨row, payload', hsome, hact, -, -, -, hid, -⟩⟩ := claim_acts hs h
  · cases hnone
  obtain rfl := Option.some.inj hsome
  have ht := hsweep.invariant (fun _ _ hstep hv => hstep.held hv fun he => by cases he) hheld
  have hsame : ∀ j, (t.view j).quarantines = (s.view j).quarantines := by
    intro j
    by_cases hj : j ∈ (expiredJobs now s).map (·.jobId)
    · exact (hsweep.steps j hj).quarantines_eq (.inl rfl)
    · rw [hsweep.others j hj]
  have hno : (t.view row.jobId).NoQuarantine := by
    obtain ⟨r, -, hr, -, hq, -⟩ := (hact.steps row.jobId (by simp)).of_claimed
    exact ht row.jobId r hr (by rw [hq]; simp)
  simp only [JobView.NoQuarantine, hsame] at hno
  exact hid ▸ hno

/-- As long as no committed requeue of failed jobs names a quarantined one, quarantined
jobs stay failed, no claim leases them, and no failure report meets a second quarantine. -/
theorem quarantined_stays_failed (sha256 : String → String) {trace : List (Step Ledger Op)} {s : Ledger}
    (h : History sha256 trace s) (hspare : ∀ st ∈ trace, Commits sha256 st → st.op.SparesQuarantined st.before) :
    (∀ r ∈ s.jobs, (∃ q ∈ s.quarantines, q.jobId = r.jobId ∧ q.state = .active) → r.state = .failed) ∧
    (∀ workerId token pool batchId batchIds now payload s',
      claim workerId token now pool batchId batchIds s = .ok (some payload, s') →
        ∀ q ∈ s.quarantines, q.jobId = payload.jobId → q.state ≠ .active) ∧
    ∀ jobId token generation error retryable failureClass pathological now,
      fail jobId token generation error retryable failureClass pathological now s ≠ .error secondQuarantine := by
  obtain ⟨hs, hheld⟩ := run_invariant (P := fun s => ∀ j, (s.view j).Held) h freshLedger_wellFormed
    (fun _ _ hr => by cases hr) fun st hst hcommit _ hc hheld => hc.held (hspare st hst hcommit) hheld
  refine ⟨?_, ?_, fail_ne_secondQuarantine hs hheld⟩
  · rintro r hr ⟨q, hq, hj, ha⟩
    by_contra hne
    exact hheld r.jobId r (Ledger.job?_of_mem hs hr) hne q (Ledger.mem_view_quarantines.mpr ⟨hq, hj⟩) ha
  · intro workerId token pool batchId batchIds now payload s' hclaim q hq hj
    exact claim_ne_quarantined hs hheld hclaim q (Ledger.mem_view_quarantines.mpr ⟨hq, hj⟩)

namespace Sample

/-- A worker reports its cell as pathological, and the queue is stopped. -/
def quarantined : List Op :=
  [.syncQueue queueA (resolve "1") "coordinator" 0,
    .claim "worker" "first" none none none 1,
    .fail (jobId "a" "1") "first" 1 "analysis timed out" false none true 2,
    .pause "review" "operator" 3,
    .syncQueue { queueA with armed := false } (resolve "1") "coordinator" 4]

/-- The failed batch is requeued without a release of its quarantine, and runs again. -/
def requeuedQuarantined : List Op :=
  quarantined ++ [.requeueFailedBatch "a" 1 "retry" "operator" 5,
    .syncQueue queueA (resolve "1") "coordinator" 6,
    .resume "operator" 7,
    .claim "worker" "second" none none none 8]

end Sample

theorem quarantined_stays_failed_quarantined :
    ∃ r ∈ (after id freshLedger Sample.quarantined).jobs, r.jobId = Sample.jobId "a" "1" ∧ r.state = .failed := by
  have hspare : ∀ st ∈ traceOf id freshLedger Sample.quarantined, st.op.SparesQuarantined st.before := by
    decide +kernel
  have hq : ∃ r ∈ (after id freshLedger Sample.quarantined).jobs, r.jobId = Sample.jobId "a" "1" ∧
      ∃ q ∈ (after id freshLedger Sample.quarantined).quarantines, q.jobId = r.jobId ∧ q.state = .active := by
    decide +kernel
  obtain ⟨r, hr, hj, hactive⟩ := hq
  obtain ⟨hfailed, -⟩ := quarantined_stays_failed id (run_after id freshLedger Sample.quarantined)
    fun st hst _ => hspare st hst
  exact ⟨r, hr, hj, hfailed r hr hactive⟩

/-- A quarantined job is leased, and its next pathological failure cannot be recorded. -/
theorem quarantined_requeued :
    ∃ s, Reachable id s ∧
      (∃ r ∈ s.jobs, r.state = .leased ∧ ∃ q ∈ s.quarantines, q.jobId = r.jobId ∧ q.state = .active) ∧
      fail (Sample.jobId "a" "1") "second" 2 "analysis timed out" false none true 9 s = .error secondQuarantine :=
  ⟨_, reachable_after id Sample.requeuedQuarantined, by decide +kernel⟩

end FidbPoc.Coordinator
