import FidbPoc.Coordinator.Mirror

namespace FidbPoc.Coordinator

open FidbPoc.Lib FidbPoc.Lib.Table FidbPoc.Lib.Checked

theorem Job.holds_iff {r : Job} {token : String} {generation : Nat} {now : Time} :
    r.holds token generation now = true ↔ r.state.live = true ∧ r.leaseToken = some token ∧
      r.leaseGeneration = generation ∧ ∃ t, r.leaseExpiresAt = some t ∧ now < t := by
  simp [Job.holds, Option.any_eq_true, and_assoc]

theorem Job.holds_mono {r : Job} {token : String} {generation : Nat} {now due : Time}
    (h : r.holds token generation now = true) (hle : due ≤ now) : r.holds token generation due = true := by
  obtain ⟨hl, ht, hg, t, he, hlt⟩ := Job.holds_iff.mp h
  exact Job.holds_iff.mpr ⟨hl, ht, hg, t, he, Int.lt_of_le_of_lt hle hlt⟩

theorem Job.holds_idle {r : Job} {token : String} {generation : Nat} {now : Time} (h : r.state.live = false) :
    r.holds token generation now = false := by
  simp [Job.holds, h]

/-- The lease of a token and a generation is over from a time on: the job does not hold
it then, and gives out later generations only. -/
def JobView.Lapsed (token : String) (generation : Nat) (due : Time) (v : JobView) : Prop :=
  ∃ r, v.job = some r ∧ generation ≤ r.leaseGeneration ∧ r.holds token generation due = false

/-- No move at that time or later gives a lapsed lease back. -/
theorem JobStep.lapsed {now due : Time} {n : Nat} {m : Move} {v v' : JobView} (h : JobStep now n m v v')
    {token : String} {generation : Nat} (hle : due ≤ now) (hv : v.Lapsed token generation due) :
    v'.Lapsed token generation due := by
  obtain ⟨r, hr, hg, hh⟩ := hv
  have hidle : ∀ {r' : Job}, v'.job = some r' → r'.leaseGeneration = r.leaseGeneration → r'.state.live = false →
      v'.Lapsed token generation due :=
    fun hr' hg' hl => ⟨_, hr', hg' ▸ hg, Job.holds_idle hl⟩
  cases h with
  | created he => cases hr
  | deselected hj | placed hj _ =>
    obtain rfl := Option.some.inj (hr.symm.trans hj)
    exact ⟨_, rfl, hg, hh⟩
  | claimed hj hq ha hid hsp he =>
    obtain rfl := Option.some.inj (hr.symm.trans hj)
    refine ⟨_, rfl, Nat.le_succ_of_le hg, ?_⟩
    rw [← Bool.not_eq_true, Job.holds_iff]
    rintro ⟨-, -, hgen, -⟩
    simp only [Job.claimed] at hgen
    omega
  | @renewed _ r' token' generation' expiresAt e hj hh' he =>
    obtain rfl := Option.some.inj (hr.symm.trans hj)
    refine ⟨_, rfl, hg, ?_⟩
    rw [← Bool.not_eq_true, Job.holds_iff]
    rintro ⟨-, htoken, hgen, -⟩
    -- a renewal of this very lease shows that it was still held
    obtain ⟨-, htoken', hgen', -⟩ := Job.holds_iff.mp hh'
    obtain rfl := Option.some.inj (htoken.symm.trans htoken')
    obtain rfl : generation' = generation := hgen'.symm.trans hgen
    rw [Job.holds_mono hh' hle] at hh
    cases hh
  | staged hj hh' ha hl hs he =>
    obtain rfl := Option.some.inj (hr.symm.trans hj)
    refine ⟨_, rfl, hg, ?_⟩
    rw [← Bool.not_eq_true, Job.holds_iff] at hh ⊢
    exact fun h => hh ⟨Job.holds_live hh', h.2⟩
  | completed hj hh' hopen he =>
    obtain rfl := Option.some.inj (hr.symm.trans hj)
    exact hidle rfl rfl rfl
  | expired hj hx ho hn he =>
    obtain rfl := Option.some.inj (hr.symm.trans hj)
    refine hidle rfl rfl ?_
    rcases he with ⟨hs, -⟩ | ⟨hs, -⟩ <;> simp [Job.endLease, Job.unleased, hs, JobState.live]
  | failed hj hh' ho hn he =>
    obtain rfl := Option.some.inj (hr.symm.trans hj)
    refine hidle rfl rfl ?_
    rcases he with ⟨hs, -⟩ | ⟨hs, -⟩ <;> simp [Job.endLease, Job.unleased, hs, JobState.live]
  | failedPathological hj hh' ho hn hs he hno hq he' =>
    obtain rfl := Option.some.inj (hr.symm.trans hj)
    exact hidle rfl rfl (by simp [Job.endLease, Job.unleased, hs, JobState.live])
  | interrupted hj hl ho hn hs he =>
    obtain rfl := Option.some.inj (hr.symm.trans hj)
    exact hidle rfl rfl (by simp [Job.endLease, Job.unleased, hs, JobState.live])
  | quarantined hj ha hs hno hq he =>
    obtain rfl := Option.some.inj (hr.symm.trans hj)
    refine ⟨_, rfl, ?_⟩
    split
    · exact ⟨hg, Job.holds_idle rfl⟩
    · exact ⟨hg, hh⟩
  | released hj hq ha hone he =>
    obtain rfl := Option.some.inj (hr.symm.trans hj)
    refine ⟨_, rfl, ?_⟩
    split
    · exact ⟨hg, Job.holds_idle rfl⟩
    · exact ⟨hg, hh⟩
  | requeued hj ha hs he =>
    obtain rfl := Option.some.inj (hr.symm.trans hj)
    exact hidle rfl rfl rfl

section Fence

variable {s : Ledger}

/-- The sweep of a fenced call, written as the coordinator, never raises. -/
theorem recoverExpiredLocked_total (now : Time) (s : Ledger) :
    ∃ r, recoverExpiredLocked now "coordinator" s = .ok r := by
  have hactor : Trimmed "coordinator".toList = true := by decide
  have hrow : ∀ s row, ∃ s', recoverRow now "coordinator" s row = .ok s' := by
    intro s row
    obtain ⟨u, hu⟩ : ∃ u, closeOpenStageAttempts row (min now (row.leaseExpiresAt.getD now)) "lease expired"
        "coordinator" s = .ok u :=
      foldlM_total (fun t span => ⟨_, Ledger.event_total _ _ hactor _ _⟩) _ _
    rw [recoverRow, hu, ok_bind]
    exact ⟨_, Ledger.event_total _ _ hactor _ _⟩
  obtain ⟨t, ht⟩ := foldlM_total hrow (expiredJobs now s) s
  exact ⟨_, by rw [recoverExpiredLocked, ht, ok_bind]; rfl⟩

theorem requireLease_lapsed (hs : s.WellFormed) {jobId token : String} {generation : Nat} {due now : Time}
    (h : (s.view jobId).Lapsed token generation due) (hle : due ≤ now) :
    ∃ message, requireLease jobId token generation now s = .error (.leaseConflict message) := by
  obtain ⟨⟨n, t⟩, ht⟩ := recoverExpiredLocked_total now s
  have hsweep := recoverExpiredLocked_acts hs ht
  have hlapsed : (t.view jobId).Lapsed token generation due := by
    by_cases hj : jobId ∈ (expiredJobs now s).map (·.jobId)
    · exact (hsweep.steps jobId hj).lapsed hle h
    · rw [hsweep.others jobId hj]
      exact h
  obtain ⟨r, hr, -, hh⟩ := hlapsed
  have hno : ¬r.holds token generation now = true := fun hheld => by
    rw [Job.holds_mono hheld hle] at hh
    cases hh
  have hjob : t.job? jobId = some r := hr
  rw [requireLease, ht, ok_bind]
  simp only [hjob]
  rw [require, if_neg hno, error_bind]
  exact ⟨_, rfl⟩

end Fence

/-- A worker's report under a lease. -/
def Op.Presents (op : Op) (jobId token : String) (generation : Nat) : Prop :=
  match op with
  | .renew j t g _ _ | .recordStage j t g _ _ _ _ _ | .complete j t g _ _ | .fail j t g _ _ _ _ _ =>
    j = jobId ∧ t = token ∧ g = generation
  | _ => False

/-- The checks of a report's other arguments, made before its transaction. -/
def Op.checks : Op → Result Unit
  | .renew _ _ _ leaseSeconds _ => do
    let _ ← leaseSeconds.mapM (fun n => positiveInteger n "lease_seconds")
  | .recordStage _ _ _ stage status durationNs details now => do
    let _ ← checkStage stage status durationNs details now
  | .fail _ _ _ error _ failureClass _ _ => do
    let _ ← text error "failure error"
    let _ ← checkFailureClass failureClass
  | _ => pure ()

theorem Op.checks_raises (op : Op) : RaisesOnly (fun e => ∃ message, e = .value message) op.checks := by
  have hvalue : ∀ message, ∃ m, Error.value message = .value m := fun message => ⟨message, rfl⟩
  cases op with
  | renew j t g leaseSeconds now =>
    refine .bind ?_ fun _ _ => .ok _
    cases leaseSeconds with
    | none => exact .ok _
    | some n => exact .bind (positiveInteger_raises hvalue _ _) fun _ _ => .ok _
  | recordStage j t g stage status durationNs details now =>
    exact .bind (checkStage_raises hvalue _ _ _ _ _) fun _ _ => .ok _
  | fail j t g error retryable failureClass pathological now =>
    exact .bind (text_raises hvalue _ _) fun _ _ => .bind (checkFailureClass_raises hvalue _) fun _ _ => .ok _
  | _ => exact .ok _

/-- A report under a lapsed lease is turned down, and nothing is written. -/
theorem Op.apply_lapsed (sha256 : String → String) {s : Ledger} (hs : s.WellFormed) {op : Op}
    {jobId token : String} {generation : Nat} {due : Time} (h : (s.view jobId).Lapsed token generation due)
    (hop : op.Presents jobId token generation) (hle : due ≤ op.now) :
    ∃ e, op.apply sha256 s = (.error e, s) ∧ (op.checks = .error e ∨ ∃ message, e = .leaseConflict message) := by
  have hbody : ∀ {e}, op.body sha256 s = .error e → op.apply sha256 s = (.error e, s) := by
    intro e he
    rw [Op.apply, transaction, he]
  obtain ⟨message, hlease⟩ := requireLease_lapsed hs h hle
  suffices hraises : ∃ e, op.body sha256 s = .error e ∧
      (op.checks = .error e ∨ ∃ message, e = .leaseConflict message) by
    obtain ⟨e, he, hwhy⟩ := hraises
    exact ⟨e, hbody he, hwhy⟩
  cases op with
  | renew j t g leaseSeconds now =>
    obtain ⟨rfl, rfl, rfl⟩ := hop
    simp only [Op.body, Coordinator.renew, Op.checks]
    cases hc : leaseSeconds.mapM (fun n => positiveInteger n "lease_seconds") with
    | error e => exact ⟨e, rfl, .inl rfl⟩
    | ok requested =>
      rw [ok_bind, show requireLease j t g now s = _ from hlease]
      exact ⟨_, rfl, .inr ⟨message, rfl⟩⟩
  | recordStage j t g stage status durationNs details now =>
    obtain ⟨rfl, rfl, rfl⟩ := hop
    simp only [Op.body, Coordinator.recordStage, Op.checks]
    cases hc : checkStage stage status durationNs details now with
    | error e => exact ⟨e, rfl, .inl rfl⟩
    | ok report =>
      rw [ok_bind, show requireLease j t g now s = _ from hlease]
      exact ⟨_, rfl, .inr ⟨message, rfl⟩⟩
  | complete j t g result now =>
    obtain ⟨rfl, rfl, rfl⟩ := hop
    simp only [Op.body, Coordinator.complete]
    rw [show requireLease j t g now s = _ from hlease]
    exact ⟨_, rfl, .inr ⟨message, rfl⟩⟩
  | fail j t g error retryable failureClass pathological now =>
    obtain ⟨rfl, rfl, rfl⟩ := hop
    simp only [Op.body, Coordinator.fail, Op.checks]
    cases hc : text error "failure error" with
    | error e => exact ⟨e, rfl, .inl rfl⟩
    | ok failure =>
      cases hc' : checkFailureClass failureClass with
      | error e => exact ⟨e, rfl, .inl rfl⟩
      | ok classified =>
        rw [ok_bind, ok_bind, show requireLease j t g now s = _ from hlease]
        exact ⟨_, rfl, .inr ⟨message, rfl⟩⟩
  | _ => exact hop.elim

/-- The lease an operation returns; only a claim returns one. -/
def Op.granted (sha256 : String → String) (op : Op) (s : Ledger) : Option LeasePayload :=
  match (op.apply sha256 s).1 with
  | .ok (.claimed lease) => lease
  | _ => none

/-- A view that keeps the attempt of a lease. -/
def JobView.Granted (token : String) (generation : Nat) (v : JobView) : Prop :=
  ∃ a ∈ v.attempts, a.leaseToken = token ∧ a.leaseGeneration = generation

theorem JobView.Granted.updateAttempts {v v' : JobView} {token : String} {generation : Nat}
    (hv : v.Granted token generation) {p : Attempt → Bool} {f : Attempt → Attempt}
    (h : v'.attempts = updateWhere p f v.attempts)
    (hf : ∀ a, (f a).leaseToken = a.leaseToken ∧ (f a).leaseGeneration = a.leaseGeneration) :
    v'.Granted token generation := by
  obtain ⟨a, ha, hkey⟩ := hv
  refine ⟨_, h ▸ mem_updateWhere.mpr ⟨a, ha, rfl⟩, ?_⟩
  split
  · rw [(hf a).1, (hf a).2]
    exact hkey
  · exact hkey

theorem JobStep.granted {now : Time} {n : Nat} {m : Move} {v v' : JobView} (h : JobStep now n m v v')
    {token : String} {generation : Nat} (hv : v.Granted token generation) : v'.Granted token generation := by
  cases h with
  | created he => obtain ⟨a, ha, -⟩ := hv; cases ha
  | deselected hr | placed hr _ | quarantined hr _ _ _ _ _ | released hr _ _ _ _ | requeued hr _ _ _ => exact hv
  | claimed hr hq ha hid hsp he =>
    obtain ⟨a, ha, hkey⟩ := hv
    exact ⟨a, List.mem_append_left _ ha, hkey⟩
  | renewed | staged | completed | expired | failed | failedPathological | interrupted =>
    exact hv.updateAttempts rfl fun _ => ⟨rfl, rfl⟩

theorem granted_claim {sha256 : String → String} {op : Op} {s s' : Ledger} {payload : LeasePayload}
    (hs : s.WellFormed) (hnext : Next sha256 s op s') (h : op.granted sha256 s = some payload)
    (hmirror : ∀ j, (s'.view j).Mirrored) :
    (s'.view payload.jobId).Granted payload.leaseToken payload.leaseGeneration := by
  have hbody : op.body sha256 s = .ok (.claimed (some payload), s') := by
    simp only [Next] at hnext
    simp only [Op.granted] at h
    cases hr : op.apply sha256 s with
    | mk result t =>
      rw [hr] at h hnext
      cases result with
      | error e => cases h
      | ok reply =>
        cases reply <;> cases h
        exact hnext ▸ transaction_ok.mp hr
  cases op with
  | claim workerId token pool batchId batchIds now =>
    obtain ⟨⟨reply, u⟩, hclaim, he⟩ := map_eq_ok.mp hbody
    obtain ⟨hreply, rfl⟩ := Prod.mk.inj he
    obtain rfl : reply = some payload := Reply.claimed.inj hreply
    obtain ⟨t, -, ⟨hnone, -⟩ | ⟨row, payload', hsome, hact, -, -, -, hid, hreports⟩⟩ := claim_acts hs hclaim
    · cases hnone
    obtain rfl := Option.some.inj hsome
    obtain ⟨-, r, -, hr, -, hleased⟩ := (hact.steps row.jobId (by simp)).of_claimed
    obtain ⟨r', hr', htoken, hgen⟩ := hreports
    rw [hid] at hr' ⊢
    obtain rfl := Option.some.inj (hr.symm.trans hr')
    obtain ⟨hn, hm⟩ : Numbered r (u.view row.jobId).attempts ∧ Mirror r (u.view row.jobId).attempts :=
      hmirror row.jobId r hr
    obtain ⟨earlier, a, hattempts, ha, -⟩ := hm.live_eq (by rw [hleased]; rfl)
    have hmem : a ∈ (u.view row.jobId).attempts := by simp [hattempts]
    rw [hattempts] at hn
    refine ⟨a, hmem, ?_, hn.last_generation.trans hgen⟩
    exact Option.some.inj (ha.leaseToken.symm.trans htoken)
  | _ =>
    obtain ⟨x, -, he⟩ := map_eq_ok.mp hbody
    cases congrArg Prod.fst he

/-- No attempt of a granted lease is live with time left at `due`. -/
def LeaseOver (s : Ledger) (payload : LeasePayload) (due : Time) : Prop :=
  ∀ a ∈ s.attempts, a.jobId = payload.jobId → a.leaseToken = payload.leaseToken →
    a.leaseGeneration = payload.leaseGeneration → a.state.live = false ∨ a.leaseExpiresAt ≤ due

instance (s : Ledger) (payload : LeasePayload) (due : Time) : Decidable (LeaseOver s payload due) :=
  inferInstanceAs (Decidable (∀ a ∈ s.attempts, a.jobId = payload.jobId → a.leaseToken = payload.leaseToken →
    a.leaseGeneration = payload.leaseGeneration → a.state.live = false ∨ a.leaseExpiresAt ≤ due))

/-- An attempt that is over has lapsed in its job, too. -/
theorem JobView.Mirrored.lapsed {v : JobView} (hv : v.Mirrored) {r : Job} (hr : v.job = some r) {a : Attempt}
    (ha : a ∈ v.attempts) {due : Time} (hover : a.state.live = false ∨ a.leaseExpiresAt ≤ due) :
    v.Lapsed a.leaseToken a.leaseGeneration due := by
  obtain ⟨hn, hm⟩ := hv r hr
  have hle : a.leaseGeneration ≤ r.leaseGeneration := by
    have hmem : a.leaseGeneration ∈ List.range' 1 r.attemptCount := by
      rw [← hn.generations]
      exact List.mem_map_of_mem ha
    rw [List.mem_range'_1] at hmem
    rw [hn.generation]
    omega
  refine ⟨r, hr, hle, ?_⟩
  rw [← Bool.not_eq_true, Job.holds_iff]
  rintro ⟨hl, -, hg, t, he, hlt⟩
  obtain ⟨-, hcarries⟩ := hm.last_generation hn hl ha hg.symm
  rcases hover with hdead | hexpired
  · rw [hcarries.live] at hdead
    cases hdead
  · obtain rfl := Option.some.inj (he.symm.trans hcarries.leaseExpiresAt)
    exact absurd hexpired (Int.not_le.mpr hlt)

/-- A job that completed as `r` did, with the attempts it had then. -/
def JobView.Finished (r : Job) (attempts : List Attempt) (v : JobView) : Prop :=
  (∃ r', v.job = some r' ∧ r'.state = .complete ∧ r'.attemptCount = r.attemptCount ∧
    r'.leaseGeneration = r.leaseGeneration ∧ r'.result = r.result) ∧ v.attempts = attempts

/-- A complete job is never worked on again. -/
theorem JobStep.finished {now : Time} {n : Nat} {m : Move} {v v' : JobView} (h : JobStep now n m v v') {r : Job}
    {attempts : List Attempt} (hv : v.Finished r attempts) : v'.Finished r attempts := by
  obtain ⟨⟨r', hr', hc, hsame⟩, hattempts⟩ := hv
  have hidle : r'.state.live = false := by rw [hc]; rfl
  have hbusy : ∀ {x : Job}, v.job = some x → x.state.live = true → v'.Finished r attempts := by
    intro x hx hl
    obtain rfl := Option.some.inj (hr'.symm.trans hx)
    rw [hidle] at hl
    cases hl
  cases h with
  | created he => cases hr'
  | deselected hr | placed hr _ =>
    obtain rfl := Option.some.inj (hr'.symm.trans hr)
    exact ⟨⟨_, rfl, hc, hsame⟩, hattempts⟩
  | claimed hr hq ha hid hsp he =>
    obtain rfl := Option.some.inj (hr'.symm.trans hr)
    rw [hc] at hq
    cases hq
  | renewed hr hh | staged hr hh | completed hr hh | failed hr hh | failedPathological hr hh =>
    exact hbusy hr (Job.holds_live hh)
  | expired hr hx ho hn he => exact hbusy hr (Job.expired_live hx)
  | interrupted hr hl ho hn hs he => exact hbusy hr hl
  | quarantined hr ha hs hno hq he =>
    obtain rfl := Option.some.inj (hr'.symm.trans hr)
    rw [hc] at hs
    simp at hs
  | released hr hq ha hone he =>
    obtain rfl := Option.some.inj (hr'.symm.trans hr)
    refine ⟨⟨_, rfl, ?_⟩, hattempts⟩
    rw [if_neg (by rw [hc]; simp)]
    exact ⟨hc, hsame⟩
  | requeued hr ha hs he =>
    obtain rfl := Option.some.inj (hr'.symm.trans hr)
    rw [hc] at hs
    cases hs

/-- Once a granted lease is over, reports under it are turned down and write nothing,
whatever happens in between; a job completes once and stays as it completed. -/
theorem lease_fenced (sha256 : String → String) {trace later : List (Step Ledger Op)} {s t : Ledger}
    (h : History sha256 trace s) (hlater : Run (Next sha256) s later t) :
    (∀ st ∈ trace, ∀ payload due, st.op.granted sha256 st.before = some payload → LeaseOver s payload due →
      (∀ st ∈ later, due ≤ st.op.now) →
        ∀ op : Op, op.Presents payload.jobId payload.leaseToken payload.leaseGeneration → due ≤ op.now →
          ∃ e, op.apply sha256 t = (.error e, t) ∧
            ((op.checks = .error e ∧ ∃ message, e = .value message) ∨ ∃ message, e = .leaseConflict message)) ∧
    (∀ a ∈ s.attempts, ∀ a' ∈ t.attempts, a.jobId = a'.jobId → a.state = .complete → a'.state = .complete →
      a = a') ∧
    ∀ r ∈ s.jobs, r.state = .complete → ∃ r' ∈ t.jobs, r'.jobId = r.jobId ∧ r'.state = .complete ∧
      r'.attemptCount = r.attemptCount ∧ r'.leaseGeneration = r.leaseGeneration ∧ r'.result = r.result := by
  obtain ⟨hs, hmirror⟩ := reachable_mirrored ⟨trace, h⟩
  obtain ⟨ht, htmirror⟩ := reachable_mirrored ⟨_, h.append hlater⟩
  have hfinished : ∀ r, (s.view r.jobId).job = some r → r.state = .complete →
      (t.view r.jobId).Finished r (s.view r.jobId).attempts := by
    intro r hr hc
    refine (run_invariant (P := fun u => (u.view r.jobId).Finished r (s.view r.jobId).attempts) hlater hs
      ⟨⟨r, hr, hc, rfl, rfl, rfl⟩, rfl⟩ ?_).2
    exact fun st _ _ _ hcommit hv => hcommit.invariant (fun _ _ _ hstep hv => hstep.finished hv) hv
  refine ⟨?_, ?_, ?_⟩
  · intro st hst payload due hgrant hover htimes op hop hle
    obtain ⟨xs, ys, hbefore, hnext, hafter⟩ := h.split hst
    have hclaimed : History sha256 _ st.after := hbefore.snoc hnext
    obtain ⟨hwf, hm⟩ := reachable_mirrored ⟨_, hclaimed⟩
    have hgranted := granted_claim (reachable_mirrored ⟨xs, hbefore⟩).1 hnext hgrant hm
    -- the attempt of the lease is still there in `s`
    obtain ⟨-, a, ha, htoken, hgen⟩ := run_invariant
      (P := fun u => (u.view payload.jobId).Granted payload.leaseToken payload.leaseGeneration) hafter hwf hgranted
      fun _ _ _ _ hcommit hv => hcommit.invariant (fun _ _ _ hstep hv => hstep.granted hv) hv
    obtain ⟨hmem, haj⟩ := Ledger.mem_view_attempts.mp ha
    obtain ⟨r, hr, hrj⟩ := List.mem_map.mp (hs.attempt_job a hmem)
    have hjob : (s.view payload.jobId).job = some r := by
      rw [← haj, ← hrj]
      exact Ledger.job?_of_mem hs hr
    have hlapsed := (hmirror payload.jobId).lapsed hjob ha (hover a hmem haj htoken hgen)
    rw [htoken, hgen] at hlapsed
    obtain ⟨-, hlast⟩ := run_invariant
      (P := fun u => (u.view payload.jobId).Lapsed payload.leaseToken payload.leaseGeneration due) hlater hs hlapsed
      fun st hst _ _ hcommit hv => hcommit.invariant (fun _ _ _ hstep hv => hstep.lapsed (htimes st hst) hv) hv
    obtain ⟨e, happly, hwhy⟩ := Op.apply_lapsed sha256 ht hlast hop hle
    exact ⟨e, happly, hwhy.imp (fun hc => ⟨hc, op.checks_raises e hc⟩) id⟩
  · intro a ha a' ha' hj hc hc'
    obtain ⟨r, hr, hrj⟩ := List.mem_map.mp (hs.attempt_job a ha)
    have hview : a ∈ (s.view r.jobId).attempts := Ledger.mem_view_attempts.mpr ⟨ha, hrj.symm⟩
    have hjob := Ledger.job?_of_mem hs hr
    obtain ⟨-, hcomplete⟩ := (hmirror r.jobId r hjob).2.complete_unique hview hview hc hc
    obtain ⟨⟨r', hr', -⟩, hattempts⟩ := hfinished r hjob hcomplete
    have hview' : a' ∈ (t.view r.jobId).attempts := Ledger.mem_view_attempts.mpr ⟨ha', hj.symm.trans hrj.symm⟩
    rw [← hattempts] at hview
    exact ((htmirror r.jobId r' hr').2.complete_unique hview hview' hc hc').1
  · intro r hr hc
    obtain ⟨⟨r', hr', hc', hsame⟩, -⟩ := hfinished r (Ledger.job?_of_mem hs hr) hc
    exact ⟨r', List.mem_of_find?_eq_some hr', Ledger.job?_jobId hr', hc', hsame⟩

namespace Sample

/-- A first lease that failed. -/
def failedOnce : List Op :=
  [.syncQueue queueA (resolve "1") "coordinator" 0,
    .claim "worker" "first" none none none 1,
    .fail (jobId "a" "1") "first" 1 "broken" true none false 2]

def claimedAgain : List Op := [.claim "worker" "second" none none none 3]

end Sample

theorem lease_fenced_retried :
    ∃ e, (Op.complete (Sample.jobId "a" "1") "first" 1 "result" 4).apply id
        (after id (after id freshLedger Sample.failedOnce) Sample.claimedAgain) =
      (.error e, after id (after id freshLedger Sample.failedOnce) Sample.claimedAgain) := by
  obtain ⟨st, hst, payload, hgrant, hkey, hover⟩ : ∃ st ∈ traceOf id freshLedger Sample.failedOnce,
      ∃ payload ∈ st.op.granted id st.before,
        (payload.jobId = Sample.jobId "a" "1" ∧ payload.leaseToken = "first" ∧ payload.leaseGeneration = 1) ∧
          LeaseOver (after id freshLedger Sample.failedOnce) payload 2 := by
    decide
  obtain ⟨hfenced, -⟩ := lease_fenced id (run_after id freshLedger Sample.failedOnce)
    (run_after id (after id freshLedger Sample.failedOnce) Sample.claimedAgain)
  obtain ⟨e, he, -⟩ := hfenced st hst payload 2 hgrant hover (by decide)
    (.complete (Sample.jobId "a" "1") "first" 1 "result" 4)
    ⟨hkey.1.symm, hkey.2.1.symm, hkey.2.2.symm⟩ (by decide)
  exact ⟨e, he⟩

/-- A report under a lease that is over, but with an argument that does not pass its
check, is turned down for the argument. -/
theorem lease_over_value_error :
    ∃ s, Reachable id s ∧ (∃ a ∈ s.attempts, a.jobId = Sample.jobId "a" "1" ∧ a.leaseToken = "first" ∧
        a.leaseGeneration = 1 ∧ a.state = .failed) ∧
      (Op.fail (Sample.jobId "a" "1") "first" 1 "" true none false 3).apply id s =
        (.error (.value "failure error must be a non-empty string without outer whitespace"), s) :=
  ⟨_, reachable_after id Sample.failedOnce, by decide⟩

end FidbPoc.Coordinator
