import FidbPoc.Coordinator.Contenders
import FidbPoc.Coordinator.Fencing

namespace FidbPoc.Coordinator

open FidbPoc.Lib FidbPoc.Lib.Table FidbPoc.Lib.Checked

/-- Every job joins the cell of its plan. -/
def Ledger.Resolved (s : Ledger) : Prop := ∀ r ∈ s.jobs, ∃ cell, s.cell? r.planDigest r.baseCellId = some cell

section Resolution

variable {sha256 : String → String} {now : Time} {s s' : Ledger}

theorem Acts.resolved {m : Move} {ks : List String} (h : Acts now m ks s s') (hm : ¬m.selecting) (hs : s.Resolved) :
    s'.Resolved := by
  intro r' hr'
  have hview := Ledger.job?_of_mem h.wellFormed hr'
  obtain ⟨r, hr, hauth⟩ : ∃ r ∈ s.jobs, s'.authority r' = s.authority r := by
    by_cases hj : r'.jobId ∈ ks
    · obtain ⟨r, hr, hauth, -⟩ := (h.steps _ hj).contends hm hview
      refine ⟨r, List.mem_of_find?_eq_some hr, ?_⟩
      rw [Ledger.authority_congr h.frame.resolvedCells, hauth]
    · have hr' : (s.view r'.jobId).job = some r' := by
        rw [← h.others _ hj]
        exact hview
      exact ⟨r', List.mem_of_find?_eq_some hr', Ledger.authority_congr h.frame.resolvedCells r'⟩
  obtain ⟨cell, hcell⟩ := hs r hr
  exact ⟨cell, (congrArg (·.cell) hauth).trans hcell⟩

theorem Still.resolved (h : Still s s') (hs : s.Resolved) : s'.Resolved := by
  intro r hr
  rw [h.jobs] at hr
  obtain ⟨cell, hcell⟩ := hs r hr
  refine ⟨cell, ?_⟩
  simp only [Ledger.cell?, h.resolvedCells] at hcell ⊢
  exact hcell

/-- A selected job has the cell of its row, any other job the cell it had. -/
theorem Synchronized.resolved {config : QueueConfig} {resolved : List ResolvedBatch}
    (h : Synchronized sha256 now config resolved s s') (hs : s.Resolved) : s'.Resolved := by
  have hsel := h.selection
  intro r hr
  by_cases ha : r.active = true
  · obtain ⟨p, -, hf, -⟩ := hsel.active r hr ha
    obtain ⟨cell, -, hcell⟩ := hf.cell
    exact ⟨cell, hcell⟩
  · cases hk : (s.view r.jobId).job with
    | none => exact (ha (hsel.fresh r hr hk)).elim
    | some k =>
      have hw := hsel.syncs.work_eq hk (Ledger.job?_of_mem hsel.syncs.wellFormed hr)
      have hd : r.planDigest = k.planDigest := congrArg (·.planDigest) hw
      have hc : r.baseCellId = k.baseCellId := congrArg (·.baseCellId) hw
      obtain ⟨cell, hcell⟩ := hs k (List.mem_of_find?_eq_some hk)
      refine ⟨cell, ?_⟩
      rw [hd, hc]
      exact hsel.syncs.cells _ _ _ hcell

theorem Committed.resolved {op : Op} (h : Committed sha256 op s s') (hs : s.Resolved) : s'.Resolved := by
  cases h with
  | synchronized hop hr hsync => exact hsync.resolved hs
  | still hop hstill hstate => exact hstill.resolved hs
  | worked hop hsweep hact _ _ =>
    exact hact.resolved (Op.move_not_selecting hop) (hsweep.resolved (by simp [Move.selecting]) hs)

theorem reachable_resolved (h : Reachable sha256 s) : s.Resolved := by
  obtain ⟨trace, htrace⟩ := h
  have hfresh : freshLedger.Resolved := fun r hr => by cases hr
  refine (run_invariant (P := Ledger.Resolved) htrace freshLedger_wellFormed hfresh ?_).2
  exact fun st _ _ _ hc hs => hc.resolved hs

end Resolution

/-- A job that a worker may lease: selected and due, in a batch that it asks for and on a cell that its pool accepts. -/
structure Ledger.Claimable (s : Ledger) (now : Time) (pool : Option WorkerPool) (batchIds : Option (List String))
    (r : Job) : Prop where
  mem : r ∈ s.jobs
  active : r.active = true
  queued : r.state = .queued
  due : r.eligibleAt ≤ now
  asked : ∀ ids, batchIds = some ids → r.batchId ∈ ids
  batch : ∃ b ∈ s.batches, b.batchId = r.batchId ∧ b.active = true
  accepted : ∀ p, pool = some p → ∃ cell, s.cell? r.planDigest r.baseCellId = some cell ∧
    workerPoolAcceptsCell p cell = true

/-- By the position of the batch, then that of the job, then the job id. -/
def Ledger.ClaimsBefore (s : Ledger) (r r' : Job) : Prop :=
  ∃ b ∈ s.batches, ∃ b' ∈ s.batches, b.batchId = r.batchId ∧ b'.batchId = r'.batchId ∧
    (b.position < b'.position ∨ b.position = b'.position ∧
      (r.position < r'.position ∨ r.position = r'.position ∧ r.jobId ≤ r'.jobId))

instance claimOrder_total : Std.Total claimOrder where
  total := by
    intro c c'
    rcases Nat.lt_trichotomy c.batchPosition c'.batchPosition with h | h | h
    · exact .inl (.inl h)
    · rcases Nat.lt_trichotomy c.job.position c'.job.position with h' | h' | h'
      · exact .inl (.inr ⟨h, .inl h'⟩)
      · rcases String.le_total c.job.jobId c'.job.jobId with hj | hj
        · exact .inl (.inr ⟨h, .inr ⟨h', hj⟩⟩)
        · exact .inr (.inr ⟨h.symm, .inr ⟨h'.symm, hj⟩⟩)
      · exact .inr (.inr ⟨h.symm, .inl h'⟩)
    · exact .inr (.inl h)

instance claimOrder_trans : IsTrans Candidate claimOrder where
  trans := by
    rintro c c' c'' (h | ⟨h, hin⟩) (h' | ⟨h', hin'⟩)
    · exact .inl (by omega)
    · exact .inl (by omega)
    · exact .inl (by omega)
    · refine .inr ⟨by omega, ?_⟩
      rcases hin with hp | ⟨hp, hj⟩ <;> rcases hin' with hp' | ⟨hp', hj'⟩
      · exact .inl (by omega)
      · exact .inl (by omega)
      · exact .inl (by omega)
      · exact .inr ⟨by omega, String.le_trans hj hj'⟩

section Candidates

variable {s : Ledger} {now : Time} {pool : Option WorkerPool} {batchIds : Option (List String)}

def Candidate.fits (pool : Option WorkerPool) (c : Candidate) : Bool := pool.all (fun p => workerPoolAcceptsCell p c.cell)

theorem Candidate.fits_iff {c : Candidate} :
    c.fits pool = true ↔ ∀ p, pool = some p → workerPoolAcceptsCell p c.cell = true := by
  cases pool <;> simp [Candidate.fits]

/-- The candidate of a job records the position of its batch and its cell. -/
theorem candidate?_spec {r : Job} {c : Candidate} (h : candidate? now batchIds s r = some c) :
    c.job = r ∧ (∃ b ∈ s.batches, b.batchId = r.batchId ∧ b.active = true ∧ b.position = c.batchPosition) ∧
      s.cell? r.planDigest r.baseCellId = some c.cell ∧ r.active = true ∧ r.state = .queued ∧ r.eligibleAt ≤ now ∧
      ∀ ids, batchIds = some ids → r.batchId ∈ ids := by
  unfold candidate? at h
  split at h
  · rename_i hcond
    simp only [Bool.and_eq_true, decide_eq_true_eq] at hcond
    obtain ⟨⟨⟨ha, hq⟩, hd⟩, hids⟩ := hcond
    simp only [Option.bind_eq_bind, Option.bind_eq_some_iff, pure, Option.some.injEq] at h
    obtain ⟨b, hb, cell, hcell, rfl⟩ := h
    have hfound := List.find?_some hb
    simp only [Bool.and_eq_true, decide_eq_true_eq] at hfound
    refine ⟨rfl, ⟨b, List.mem_of_find?_eq_some hb, hfound.1, hfound.2, rfl⟩, hcell, ha, hq, hd, ?_⟩
    rintro ids rfl
    simpa using hids
  · cases h

theorem candidate?_claimable {r : Job} {c : Candidate} (hr : r ∈ s.jobs) (h : candidate? now batchIds s r = some c)
    (hfit : c.fits pool = true) : s.Claimable now pool batchIds r := by
  obtain ⟨-, ⟨b, hb, hid, hactive, -⟩, hcell, ha, hq, hd, hids⟩ := candidate?_spec h
  refine ⟨hr, ha, hq, hd, hids, ⟨b, hb, hid, hactive⟩, fun p hp => ⟨c.cell, hcell, ?_⟩⟩
  exact Candidate.fits_iff.mp hfit p hp

/-- Every claimable job is a candidate: its batch is active and its cell is there. -/
theorem Ledger.Claimable.candidate {r : Job} (hs : s.Resolved) (h : s.Claimable now pool batchIds r) :
    ∃ c, candidate? now batchIds s r = some c ∧ c.fits pool = true := by
  obtain ⟨b, hb, hid, hactive⟩ := h.batch
  obtain ⟨found, hfound⟩ : ∃ found, s.activeBatch? r.batchId = some found := by
    rw [← Option.isSome_iff_exists, Ledger.activeBatch?, List.find?_isSome]
    exact ⟨b, hb, by simp [hid, hactive]⟩
  obtain ⟨cell, hcell⟩ := hs r h.mem
  have hids : batchIds.all (fun ids => decide (r.batchId ∈ ids)) = true := by
    cases hb : batchIds with
    | none => rfl
    | some ids => simpa using h.asked ids hb
  refine ⟨⟨r, found.position, cell⟩, ?_, Candidate.fits_iff.mpr fun p hp => ?_⟩
  · simp [candidate?, h.active, h.queued, h.due, hids, hfound, hcell]
  · obtain ⟨cell', hcell', haccepts⟩ := h.accepted p hp
    obtain rfl := Option.some.inj (hcell.symm.trans hcell')
    exact haccepts

theorem mem_claimCandidates {c : Candidate} :
    c ∈ s.jobs.filterMap (candidate? now batchIds s) ↔ ∃ r ∈ s.jobs, candidate? now batchIds s r = some c :=
  List.mem_filterMap

/-- The search over the ordered candidates finds a job exactly if one is claimable. -/
theorem claimCandidates_find_none (hs : s.Resolved)
    (h : (claimCandidates now batchIds s).find? (Candidate.fits pool) = none) (r : Job) :
    ¬s.Claimable now pool batchIds r := by
  intro hr
  obtain ⟨c, hc, hfit⟩ := hr.candidate hs
  rw [List.find?_eq_none] at h
  refine h c ?_ hfit
  rw [claimCandidates, List.mem_insertionSort]
  exact mem_claimCandidates.mpr ⟨r, hr.mem, hc⟩

/-- What it finds is claimable and comes before every claimable job. -/
theorem claimCandidates_find_some (hs : s.Resolved) {c : Candidate}
    (h : (claimCandidates now batchIds s).find? (Candidate.fits pool) = some c) :
    candidate? now batchIds s c.job = some c ∧ s.Claimable now pool batchIds c.job ∧
      ∀ r, s.Claimable now pool batchIds r → s.ClaimsBefore c.job r := by
  obtain ⟨hmem, hfit, hleast⟩ := find?_insertionSort h
  obtain ⟨r, hr, hc⟩ := mem_claimCandidates.mp hmem
  obtain ⟨rfl, ⟨b, hb, hid, -, hposition⟩, -⟩ := candidate?_spec hc
  refine ⟨hc, candidate?_claimable hr hc hfit, fun r' hr' => ?_⟩
  obtain ⟨c', hc', hfit'⟩ := hr'.candidate hs
  have horder := hleast c' (mem_claimCandidates.mpr ⟨r', hr'.mem, hc'⟩) hfit'
  obtain ⟨rfl, ⟨b', hb', hid', -, hposition'⟩, -⟩ := candidate?_spec hc'
  rw [claimOrder, ← hposition, ← hposition'] at horder
  exact ⟨b, hb, b', hb', hid, hid', horder⟩

end Candidates

section Lease

variable {s : Ledger} {now : Time} {token worker : String} {row : Job}

/-- The sweep draws no token. -/
theorem JobStep.expired_tokens {n : Nat} {v v' : JobView} (h : JobStep now n .expired v v')
    (hv : ∀ a ∈ v.attempts, a.leaseToken ≠ token) : ∀ a ∈ v'.attempts, a.leaseToken ≠ token := by
  cases h with
  | expired hr hx ho hn he =>
    intro a ha
    obtain ⟨x, hx, rfl⟩ := mem_updateWhere.mp ha
    split
    · exact hv x hx
    · exact hv x hx

/-- The sweep keeps the generation of a job. -/
theorem JobStep.expired_generation {n : Nat} {v v' : JobView} (h : JobStep now n .expired v v') {r' : Job}
    (hr' : v'.job = some r') : ∃ r, v.job = some r ∧ r.leaseGeneration = r'.leaseGeneration := by
  cases h with
  | expired hr hx ho hn he =>
    obtain rfl := Option.some.inj hr'
    exact ⟨_, hr, rfl⟩

theorem Numbered.generation_le {attempts : List Attempt} (h : Numbered row attempts) {a : Attempt} (ha : a ∈ attempts) :
    a.attemptNumber ≤ row.attemptCount ∧ a.leaseGeneration ≤ row.leaseGeneration := by
  have hnumber : a.attemptNumber ∈ List.range' 1 row.attemptCount := h.numbers ▸ List.mem_map_of_mem ha
  have hgeneration : a.leaseGeneration ∈ List.range' 1 row.attemptCount := h.generations ▸ List.mem_map_of_mem ha
  rw [List.mem_range'_1] at hnumber hgeneration
  rw [h.generation]
  omega

theorem leasePayload_total {jobId : String} {b : Batch} {cell : Cell} {expiresAt : Time} (hrow : s.job? jobId = some row)
    (hb : s.batch? row.batchId = some b) (hcell : s.cell? row.planDigest row.baseCellId = some cell)
    (ht : row.leaseToken = some token) (hw : row.leasedBy = some worker) (he : row.leaseExpiresAt = some expiresAt) :
    ∃ payload, leasePayload s jobId = .ok payload := by
  simp only [leasePayload, hrow, hb, hcell, ht, hw, he, Option.bind_eq_bind, Option.bind_some]
  exact ⟨_, rfl⟩

/-- The lease of a queued job goes through: its columns, its attempts and a new token break no constraint. -/
theorem claimRow_total {pool : Option WorkerPool} (hs : s.WellFormed) (hv : (s.view row.jobId).Mirrored)
    (hresolved : s.Resolved) (hr : row ∈ s.jobs) (hq : row.state = .queued) (ha : row.active = true)
    (hbatch : ∃ b ∈ s.batches, b.batchId = row.batchId ∧ b.active = true) (hw : Trimmed worker.toList = true)
    (htoken : ∀ a ∈ s.attempts, a.leaseToken ≠ token) :
    ∃ payload u, claimRow worker token now pool row s = .ok (payload, u) ∧
      u.job? row.jobId = some (Job.claimed token worker (row.attemptCount + 1) (row.leaseGeneration + 1)
        (now + seconds s.state.leaseSeconds) now row) := by
  have hrow := Ledger.job?_of_mem hs hr
  obtain ⟨hn, -⟩ := hv row hrow
  set guard := fun (r : Job) => decide (r.jobId = row.jobId) && decide (r.state = .queued) && r.active with hguard
  set f := Job.claimed token worker (row.attemptCount + 1) (row.leaseGeneration + 1)
    (now + seconds s.state.leaseSeconds) now with hf
  set a := newAttempt s.nextAttemptId row.jobId (row.attemptCount + 1) token (row.leaseGeneration + 1) worker now
    (now + seconds s.state.leaseSeconds) with haRow
  have hone : s.jobs.countP guard = 1 := countP_key hs.jobs_nodup hr (by simp +contextual [hguard])
    (by simp [hguard, hq, ha])
  have hinsert : ∀ x ∈ s.attempts, x.leaseToken ≠ a.leaseToken ∧
      ¬(x.jobId = a.jobId ∧ (x.attemptNumber = a.attemptNumber ∨ x.leaseGeneration = a.leaseGeneration)) := by
    intro x hx
    refine ⟨htoken x hx, ?_⟩
    rintro ⟨hj, hsame⟩
    obtain ⟨hnumber, hgeneration⟩ := hn.generation_le (Ledger.mem_view_attempts.mpr ⟨hx, hj⟩)
    simp only [haRow, newAttempt] at hsame
    omega
  have hjob : (s.updateJobs guard f).job? row.jobId = some (f row) := by
    have hview : (s.updateJobs guard f).view row.jobId = { s.view row.jobId with job := some (f row) } := by
      rw [Ledger.view_updateJobs]
      · simp only [show (s.view row.jobId).job = some row from hrow, Option.map_some, hguard, hq, ha, decide_true,
          Bool.and_self, if_true]
      · exact fun _ _ => rfl
    exact congrArg (·.job) hview
  obtain ⟨b, hb, hid, -⟩ := hbatch
  obtain ⟨found, hfound⟩ : ∃ found, s.batch? row.batchId = some found := by
    rw [← Option.isSome_iff_exists, Ledger.batch?, List.find?_isSome]
    exact ⟨b, hb, by simp [hid]⟩
  obtain ⟨cell, hcell⟩ := hresolved row hr
  let t : Ledger := { s.updateJobs guard f with attempts := s.attempts ++ [a] }
  let body := EventBody.jobClaimed (row.attemptCount + 1) (row.leaseGeneration + 1) (now + seconds s.state.leaseSeconds)
    (pool.map (·.text))
  let u : Ledger := { t with events := t.events ++ [t.newEvent now worker (.job row) body] }
  obtain ⟨payload, hpayload⟩ := leasePayload_total (s := u) hjob hfound hcell rfl rfl rfl
  refine ⟨payload, u, ?_, hjob⟩
  simp only [claimRow, bind_eq_ok, pure_eq_ok]
  exact ⟨(), require_eq_ok.mpr hone, t, Ledger.insertAttempt_total hinsert, u, Ledger.event_total t now hw _ body,
    payload, hpayload, rfl⟩

end Lease

/-- What a claim does: `t` is the ledger `s` after the sweep, `u` the ledger that the claim leaves. -/
structure Claims (s t u : Ledger) (now : Time) (pool : Option WorkerPool) (batchIds : Option (List String))
    (token : String) (reply : Option LeasePayload) : Prop where
  leases : reply.isSome = true ↔ t.state.armed = true ∧ t.state.paused = false ∧
    activeWorkers t < t.state.maxWorkers ∧ ∃ r, t.Claimable now pool batchIds r
  least : ∀ payload, reply = some payload → ∃ r, t.Claimable now pool batchIds r ∧ r.jobId = payload.jobId ∧
    ∀ r', t.Claimable now pool batchIds r' → t.ClaimsBefore r r'
  leased : ∀ payload, reply = some payload → ∃ r, u.job? payload.jobId = some r ∧ r.state = .leased ∧
    r.leaseToken = some token ∧ payload.leaseToken = token ∧ r.leaseGeneration = payload.leaseGeneration
  newer : ∀ payload, reply = some payload →
    (∀ r, s.job? payload.jobId = some r → r.leaseGeneration < payload.leaseGeneration) ∧
      ∀ a ∈ s.attempts, a.jobId = payload.jobId → a.leaseGeneration < payload.leaseGeneration
  others : ∀ j, (∀ payload, reply = some payload → payload.jobId ≠ j) →
    (∀ r, s.job? j = some r → r.expired now = false) → u.view j = s.view j

section Claim

variable {s t u : Ledger} {now : Time} {pool : Option WorkerPool} {batchIds : Option (List String)} {token : String}

theorem Acts.sweep_others (h : Acts now .expired ((expiredJobs now s).map (·.jobId)) s t) (hs : s.WellFormed) {j : String}
    (hj : ∀ r, s.job? j = some r → r.expired now = false) : t.view j = s.view j := by
  refine h.others j fun hmem => ?_
  obtain ⟨r, hr, rfl⟩ := List.mem_map.mp hmem
  rw [expiredJobs, List.mem_insertionSort, List.mem_filter] at hr
  rw [hj r (Ledger.job?_of_mem hs hr.1)] at hr
  cases hr.2

/-- A claim that leases nothing has only swept. -/
theorem Claims.idle (hs : s.WellFormed) (hsweep : Acts now .expired ((expiredJobs now s).map (·.jobId)) s t)
    (h : ¬(t.state.armed = true ∧ t.state.paused = false ∧ activeWorkers t < t.state.maxWorkers ∧
      ∃ r, t.Claimable now pool batchIds r)) : Claims s t t now pool batchIds token none where
  leases := ⟨fun hsome => (by cases hsome), fun hr => (h hr).elim⟩
  least := fun _ hp => by cases hp
  leased := fun _ hp => by cases hp
  newer := fun _ hp => by cases hp
  others := fun _ _ hj => hsweep.sweep_others hs hj

/-- The sweep leaves the generation of a job that it leaves queued. -/
theorem Acts.sweep_generation (h : Acts now .expired ((expiredJobs now s).map (·.jobId)) s t) {row : Job}
    (hrow : (t.view row.jobId).job = some row) :
    ∃ r, s.job? row.jobId = some r ∧ r.leaseGeneration = row.leaseGeneration := by
  by_cases hj : row.jobId ∈ (expiredJobs now s).map (·.jobId)
  · exact (h.steps _ hj).expired_generation hrow
  · rw [h.others _ hj] at hrow
    exact ⟨row, hrow, rfl⟩

/-- The sweep and the lease of the least claimable job. -/
theorem Claims.granted (hs : s.WellFormed) (hv : ∀ j, (s.view j).Mirrored)
    (hsweep : Acts now .expired ((expiredJobs now s).map (·.jobId)) s t) {worker : String} {row : Job} {expiresAt : Time}
    {payload : LeasePayload} (hopen : t.state.armed = true ∧ t.state.paused = false)
    (hslots : activeWorkers t < t.state.maxWorkers) (hrow : t.Claimable now pool batchIds row)
    (hleast : ∀ r, t.Claimable now pool batchIds r → t.ClaimsBefore row r)
    (h : claimRow worker token now pool row t = .ok (payload, u))
    (hjob : u.job? row.jobId = some (Job.claimed token worker (row.attemptCount + 1) (row.leaseGeneration + 1) expiresAt
      now row)) : Claims s t u now pool batchIds token (some payload) := by
  have hview := Ledger.job?_of_mem hsweep.wellFormed hrow.mem
  obtain ⟨hacts, hid, r, hr, htoken, hgeneration⟩ :=
    claimRow_acts hsweep.wellFormed hview hrow.queued hrow.active h
  have hr' : u.job? row.jobId = some r := hid ▸ hr
  obtain rfl := Option.some.inj (hjob.symm.trans hr')
  obtain ⟨prior, hprior, hsame⟩ := hsweep.sweep_generation hview
  have hlater : payload.leaseGeneration = prior.leaseGeneration + 1 := by
    rw [hsame, ← hgeneration]
    rfl
  constructor
  · exact ⟨fun _ => ⟨hopen.1, hopen.2, hslots, row, hrow⟩, fun _ => rfl⟩
  · rintro _ ⟨⟩
    exact ⟨row, hrow, hid.symm, hleast⟩
  · rintro _ ⟨⟩
    exact ⟨_, hid ▸ hjob, rfl, rfl, (Option.some.inj htoken).symm, hgeneration⟩
  · rintro _ ⟨⟩
    rw [hid]
    constructor
    · intro r hr
      obtain rfl := Option.some.inj (hprior.symm.trans hr)
      omega
    · intro a ha hj
      have hle := ((hv row.jobId prior hprior).1.generation_le (Ledger.mem_view_attempts.mpr ⟨ha, hj⟩)).2
      omega
  · intro j hne hj
    have hnot : j ∉ [row.jobId] := fun hm => hne payload rfl (hid.trans (List.mem_singleton.mp hm).symm)
    rw [hacts.others j hnot]
    exact hsweep.sweep_others hs hj

/-- Claim leases a job exactly if the queue is open, a slot is free and a job is claimable, and then the least one,
under a generation that the job never had; no other job that has not expired sees any of it. -/
theorem claim_selects_least (sha256 : String → String) (h : Reachable sha256 s) {workerId worker : String}
    {poolName batchId : Option String} {ids : Option (List String)} (hworker : text workerId "worker id" = .ok worker)
    (hpool : claimPool poolName = .ok pool) (hbatches : claimBatches batchId ids = .ok batchIds)
    (htoken : ∀ a ∈ s.attempts, a.leaseToken ≠ token) :
    ∃ n t reply u, recoverExpiredLocked now "coordinator" s = .ok (n, t) ∧
      (Op.claim workerId token poolName batchId ids now).apply sha256 s = (.ok (.claimed reply), u) ∧
      Claims s t u now pool batchIds token reply := by
  obtain ⟨hs, hv⟩ := reachable_mirrored h
  obtain ⟨⟨n, t⟩, hsweep⟩ := recoverExpiredLocked_total now s
  have hacts := recoverExpiredLocked_acts hs hsweep
  have hresolved := hacts.resolved (by simp [Move.selecting]) (reachable_resolved h)
  suffices hclaim : ∃ reply u, claim workerId token now poolName batchId ids s = .ok (reply, u) ∧
      Claims s t u now pool batchIds token reply by
    obtain ⟨reply, u, hclaim, hspec⟩ := hclaim
    refine ⟨n, t, reply, u, hsweep, ?_, hspec⟩
    rw [Op.apply, transaction_ok]
    exact map_eq_ok.mpr ⟨_, hclaim, rfl⟩
  simp only [claim, hworker, hpool, hbatches, hsweep, ok_bind]
  by_cases hopen : t.state.armed = false ∨ t.state.paused = true
  · rw [if_pos hopen]
    refine ⟨none, t, rfl, Claims.idle hs hacts ?_⟩
    rintro ⟨harmed, hpaused, -⟩
    simp [harmed, hpaused] at hopen
  · rw [if_neg hopen]
    simp only [not_or, Bool.not_eq_false, Bool.not_eq_true] at hopen
    by_cases hslots : t.state.maxWorkers ≤ activeWorkers t
    · rw [if_pos hslots]
      refine ⟨none, t, rfl, Claims.idle hs hacts ?_⟩
      rintro ⟨-, -, hfree, -⟩
      omega
    · rw [if_neg hslots]
      cases hfound : (claimCandidates now batchIds t).find? (Candidate.fits pool) with
      | none =>
        have hfound' : (claimCandidates now batchIds t).find?
            (fun c => pool.all (fun p => workerPoolAcceptsCell p c.cell)) = none := hfound
        rw [hfound']
        refine ⟨none, t, rfl, Claims.idle hs hacts ?_⟩
        rintro ⟨-, -, -, r, hr⟩
        exact claimCandidates_find_none hresolved hfound r hr
      | some c =>
        have hfound' : (claimCandidates now batchIds t).find?
            (fun c => pool.all (fun p => workerPoolAcceptsCell p c.cell)) = some c := hfound
        obtain ⟨-, hrow, hleast⟩ := claimCandidates_find_some hresolved hfound
        have hmirror := hacts.invariant (fun _ _ hstep hv => hstep.mirrored hv) hv
        have htokens : ∀ a ∈ t.attempts, a.leaseToken ≠ token := by
          intro a ha
          refine hacts.invariant (P := fun v => ∀ a ∈ v.attempts, a.leaseToken ≠ token)
            (fun _ _ hstep hv => hstep.expired_tokens hv) (fun j a ha => ?_) a.jobId a
            (Ledger.mem_view_attempts.mpr ⟨ha, rfl⟩)
          exact htoken a (Ledger.mem_view_attempts.mp ha).1
        obtain ⟨payload, u, hclaim, hjob⟩ := claimRow_total hacts.wellFormed (hmirror _) hresolved hrow.mem
          hrow.queued hrow.active hrow.batch (text_trimmed hworker) htokens
        rw [hfound']
        refine ⟨some payload, u, ?_, Claims.granted hs hv hacts hopen (by omega) hrow hleast hclaim hjob⟩
        simp only [hclaim, ok_bind]
        rfl

/-- A lease of the first of two batches has expired, and its job is leased again. -/
theorem claim_selects_least_expired :
    let s := after id freshLedger [.syncQueue Sample.queueAB (Sample.resolve "1") "coordinator" 0,
      .claim "worker" "first" none none none 1]
    let op := Op.claim "worker" "second" (some "library-local") none none (seconds 11)
    ∃ t payload u, op.apply id s = (.ok (.claimed (some payload)), u) ∧ payload.jobId = Sample.jobId "a" "1" ∧
      payload.leaseGeneration = 2 ∧
      Claims s t u (seconds 11) (some .libraryLocal) none "second" (some payload) := by
  intro s op
  have htoken : ∀ a ∈ s.attempts, a.leaseToken ≠ "second" := by decide
  have hgranted : (op.granted id s).map (fun p => (p.jobId, p.leaseGeneration)) = some (Sample.jobId "a" "1", 2) := by
    decide
  have hworker : text "worker" "worker id" = .ok "worker" := by decide
  have hpool : claimPool (some "library-local") = .ok (some .libraryLocal) := by decide
  obtain ⟨n, t, reply, u, -, happly, hclaims⟩ :=
    @claim_selects_least s (seconds 11) (some .libraryLocal) none "second" id (reachable_after id _) _ _ _ none none
      hworker hpool rfl htoken
  have hreply : op.granted id s = reply := by
    rw [Op.granted, happly]
  rw [hreply] at hgranted
  obtain ⟨payload, rfl, hpayload⟩ := Option.map_eq_some_iff.mp hgranted
  exact ⟨t, payload, u, happly, congrArg Prod.fst hpayload, congrArg Prod.snd hpayload, hclaims⟩

end Claim

end FidbPoc.Coordinator
