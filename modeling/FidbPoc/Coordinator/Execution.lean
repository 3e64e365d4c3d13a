import FidbPoc.Coordinator.Fencing
import FidbPoc.Coordinator.QuarantineExclusion

namespace FidbPoc.Coordinator

open FidbPoc.Lib FidbPoc.Lib.Table FidbPoc.Lib.Checked

/-- Attempts of workers whose names the coordinator accepted. -/
def JobView.Staffed (v : JobView) : Prop := ∀ a ∈ v.attempts, Trimmed a.workerId.toList = true

theorem staffed_updateWhere {p : Attempt → Bool} {f : Attempt → Attempt} {attempts : List Attempt}
    (h : ∀ a ∈ attempts, Trimmed a.workerId.toList = true) (hf : ∀ a, (f a).workerId = a.workerId) :
    ∀ a ∈ updateWhere p f attempts, Trimmed a.workerId.toList = true := by
  intro a ha
  obtain ⟨b, hb, rfl⟩ := mem_updateWhere.mp ha
  split
  · rw [hf]
    exact h b hb
  · exact h b hb

/-- Only a claim brings in a worker. -/
theorem JobStep.staffed {now : Time} {n : Nat} {m : Move} {v v' : JobView} (h : JobStep now n m v v')
    (hm : m ≠ .claimed) (hv : v.Staffed) : v'.Staffed := by
  cases h with
  | created => exact fun _ ha => (List.not_mem_nil ha).elim
  | claimed => exact (hm rfl).elim
  | deselected | placed | quarantined | released | requeued => exact hv
  | renewed | staged | completed | expired | failed | failedPathological | interrupted =>
    exact staffed_updateWhere hv fun _ => rfl

theorem claimRow_staffed {worker token : String} {now : Time} {pool : Option WorkerPool} {row : Job} {s s' : Ledger}
    {payload : LeasePayload} (h : claimRow worker token now pool row s = .ok (payload, s'))
    (hs : ∀ a ∈ s.attempts, Trimmed a.workerId.toList = true) :
    ∀ a ∈ s'.attempts, Trimmed a.workerId.toList = true := by
  simp only [claimRow, bind_eq_ok, pure_eq_ok] at h
  obtain ⟨_, _, t, hins, u, hevent, payload', hpayload, h⟩ := h
  obtain ⟨-, rfl⟩ := Prod.mk.inj h
  obtain rfl := Ledger.insertAttempt_eq_ok hins
  obtain rfl := Ledger.event_eq_ok hevent
  have hworker : Trimmed worker.toList = true := by
    simp only [Ledger.event, text, bind_eq_ok, require_eq_ok] at hevent
    obtain ⟨_, ⟨_, htrimmed, _⟩, _⟩ := hevent
    exact htrimmed
  intro a ha
  rcases List.mem_append.mp ha with ha | ha
  · exact hs a ha
  · obtain rfl := List.mem_singleton.mp ha
    exact hworker

theorem Acts.staffed {now : Time} {m : Move} {jobs : List String} {s s' : Ledger} (h : Acts now m jobs s s')
    (hm : m ≠ .claimed) (hs : ∀ j, (s.view j).Staffed) : ∀ j, (s'.view j).Staffed :=
  h.invariant (fun _ _ hstep hv => hstep.staffed hm hv) hs

theorem staffed_iff {s : Ledger} :
    (∀ j, (s.view j).Staffed) ↔ ∀ a ∈ s.attempts, Trimmed a.workerId.toList = true := by
  constructor
  · exact fun h a ha => h a.jobId a (Ledger.mem_view_attempts.mpr ⟨ha, rfl⟩)
  · exact fun h j a ha => h a (Ledger.mem_view_attempts.mp ha).1

theorem claim_staffed {workerId token : String} {now : Time} {pool batchId : Option String}
    {batchIds : Option (List String)} {s s' : Ledger} {reply : Option LeasePayload} (hs : s.WellFormed)
    (h : claim workerId token now pool batchId batchIds s = .ok (reply, s')) (hstaffed : ∀ j, (s.view j).Staffed) :
    ∀ j, (s'.view j).Staffed := by
  simp only [claim, bind_eq_ok] at h
  obtain ⟨worker, _, pool', _, selected, _, ⟨n, t⟩, hsweep, h⟩ := h
  have ht := (recoverExpiredLocked_acts hs hsweep).staffed (by simp) hstaffed
  have hnone : (pure (none, t) : Result (Option LeasePayload × Ledger)) = .ok (reply, s') → s' = t :=
    fun hu => (Prod.mk.inj (pure_eq_ok.mp hu)).2.symm
  split at h
  · exact hnone h ▸ ht
  · split at h
    · exact hnone h ▸ ht
    · split at h
      · exact hnone h ▸ ht
      · simp only [bind_eq_ok, pure_eq_ok] at h
        obtain ⟨⟨payload, u⟩, hclaim, h⟩ := h
        obtain ⟨-, rfl⟩ := Prod.mk.inj h
        exact staffed_iff.mpr (claimRow_staffed hclaim (staffed_iff.mp ht))

theorem Committed.staffed {sha256 : String → String} {op : Op} {s s' : Ledger} {reply : Reply}
    (h : Committed sha256 op s s') (hs : s.WellFormed) (hbody : op.body sha256 s = .ok (reply, s'))
    (hstaffed : ∀ j, (s.view j).Staffed) : ∀ j, (s'.view j).Staffed := by
  cases h with
  | synchronized hop hr hsync =>
    intro j
    have hviews := hsync.selection.syncs.views j s.state.maxAttempts
    generalize s'.view j = v' at hviews ⊢
    induction hviews with
    | refl => exact hstaffed j
    | tail _ hlast ih =>
      obtain ⟨m, hm, hlast⟩ := hlast
      exact hlast.staffed (fun he => by subst he; simp [Move.selecting] at hm) ih
  | still hop hstill hstate =>
    intro j
    rw [hstill.views]
    exact hstaffed j
  | @worked m t js ks hop hsweep hact _ _ =>
    by_cases hm : m = .claimed
    · subst hm
      cases op with
      | claim workerId token pool batchId batchIds now =>
        obtain ⟨⟨r, u⟩, hclaim, hp⟩ := map_eq_ok.mp hbody
        obtain ⟨-, rfl⟩ := Prod.mk.inj hp
        exact claim_staffed hs hclaim hstaffed
      | _ => simp [Op.move] at hop
    · exact hact.staffed hm (hsweep.staffed (by simp) hstaffed)

theorem reachable_staffed {sha256 : String → String} {s : Ledger} (h : Reachable sha256 s) :
    ∀ j, (s.view j).Staffed := by
  obtain ⟨trace, h⟩ := h
  refine (run_invariant (P := fun s => ∀ j, (s.view j).Staffed) h freshLedger_wellFormed
    (fun _ _ ha => (List.not_mem_nil ha).elim) fun st _ hcommit hs hc hstaffed => ?_).2
  obtain ⟨reply, hnext⟩ := hcommit
  exact hc.staffed hs (transaction_ok.mp hnext) hstaffed

section Fail

variable {sha256 : String → String} {s : Ledger} {row : Job} {token : String} {now : Time}

/-- The worker of a live lease. -/
theorem Job.leasedBy_trimmed (h : Reachable sha256 s) (hrow : (s.view row.jobId).job = some row)
    (hl : row.state.live = true) : Trimmed (row.leasedBy.getD "None").toList = true := by
  obtain ⟨-, hmirror⟩ := (reachable_mirrored h).2 row.jobId row hrow
  generalize hattempts : (s.view row.jobId).attempts = attempts at hmirror
  cases hmirror with
  | idle hidle _ _ => rw [hidle] at hl; cases hl
  | complete hc _ _ _ => rw [hc] at hl; cases hl
  | @live earlier a ha _ =>
    rw [ha.worker]
    exact reachable_staffed h row.jobId a (hattempts ▸ List.mem_append_right _ List.mem_cons_self)

/-- A lease that still holds passes its fence, and the sweep before the fence spares it. -/
theorem requireLease_holds (hs : s.WellFormed) (hrow : (s.view row.jobId).job = some row)
    (hh : row.holds token row.leaseGeneration now = true) :
    ∃ t, requireLease row.jobId token row.leaseGeneration now s = .ok (row, t) ∧ t.WellFormed ∧
      t.view row.jobId = s.view row.jobId ∧ t.state.maxAttempts = s.state.maxAttempts := by
  obtain ⟨⟨n, t⟩, ht⟩ := recoverExpiredLocked_total now s
  have hsweep := recoverExpiredLocked_acts hs ht
  have hnot : row.jobId ∉ (expiredJobs now s).map (·.jobId) := by
    intro hmem
    obtain ⟨r, hr, hj⟩ := List.mem_map.mp hmem
    rw [expiredJobs, List.mem_insertionSort, List.mem_filter] at hr
    have hsame : (s.view row.jobId).job = some r := hj ▸ Ledger.job?_of_mem hs hr.1
    obtain rfl := Option.some.inj (hrow.symm.trans hsame)
    obtain ⟨-, -, -, due, hdue, hlt⟩ := Job.holds_iff.mp hh
    have hexpired := hr.2
    simp only [Job.expired, hdue, Option.any_some, Bool.and_eq_true, decide_eq_true_eq] at hexpired
    exact absurd hexpired.2 (Int.not_le.mpr hlt)
  have hview := hsweep.others row.jobId hnot
  have hfound : t.job? row.jobId = some row := by
    rw [← hview] at hrow
    exact hrow
  refine ⟨t, ?_, hsweep.wellFormed, hview, ?_⟩
  · rw [requireLease, ht, ok_bind]
    simp [hfound, require, hh, pure, Except.pure, bind, Except.bind]
  · obtain ⟨paused, hpaused⟩ := hsweep.frame.state
    rw [hpaused]

theorem failLease_total (token failure : String) (classified : Option String) (retry : Bool) (eligibleAt : Time)
    (ending : LeaseEnd) (now : Time) (s : Ledger) (hactor : Trimmed (row.leasedBy.getD "None").toList = true) :
    ∃ u, failLease token failure classified retry eligibleAt ending now row s = .ok u := by
  obtain ⟨t, ht⟩ : ∃ t, closeOpenStageAttempts row now failure (row.leasedBy.getD "None") s = .ok t :=
    foldlM_total (fun t span => ⟨_, Ledger.event_total _ _ hactor _ _⟩) _ _
  rw [failLease, ht, ok_bind]
  exact ⟨_, Ledger.event_total _ _ hactor _ _⟩

theorem quarantineRow_total (now : Time) (reason : String) (failureClass : Option String)
    (hactor : Trimmed (row.leasedBy.getD "None").toList = true) (hno : (s.view row.jobId).NoQuarantine) :
    ∃ u, quarantineRow now reason failureClass row s = .ok u := by
  obtain ⟨t, ht⟩ : ∃ t, s.insertQuarantine
      { quarantineId := s.nextQuarantineId, jobId := row.jobId, batchId := row.batchId, state := .active,
        reason := reason, failureClass := failureClass.getD "pathological:analysis-timeout",
        attemptCount := row.attemptCount, createdAt := now, releasedAt := none, releaseReason := none } = .ok t := by
    refine ⟨_, bind_eq_ok.mpr ⟨(), require_eq_ok.mpr ?_, rfl⟩⟩
    exact fun q hq h => hno q (Ledger.mem_view_quarantines.mpr ⟨hq, h.1⟩) h.2.1
  rw [quarantineRow, ht, ok_bind]
  exact ⟨_, Ledger.event_total _ _ hactor _ _⟩

theorem checkCircuit_total (now : Time) (row : Job) (failed : Bool) (failureClass : Option String) (s : Ledger) :
    ∃ u, checkCircuit now row failed failureClass s = .ok u := by
  unfold checkCircuit
  cases failureClass with
  | none => exact ⟨s, rfl⟩
  | some c =>
    simp only
    split
    · simp only [openCircuit]
      split
      · exact ⟨_, Ledger.event_total _ _ (by decide) _ _⟩
      · exact ⟨s, rfl⟩
    · exact ⟨s, rfl⟩

theorem checkFailureClass_trimmed {failureClass : Option String} (h : ∀ c ∈ failureClass, Trimmed c.toList = true) :
    checkFailureClass failureClass = .ok failureClass := by
  cases failureClass with
  | none => rfl
  | some c => simp [checkFailureClass, text, require, h c rfl, pure, Except.pure, bind, Except.bind]

/-- A report under a lease that holds, with texts that pass their checks, ends the
lease; only what follows can still raise. -/
theorem fail_endLease (h : Reachable sha256 s) (hrow : (s.view row.jobId).job = some row)
    (hh : row.holds token row.leaseGeneration now = true) {error : String} {failureClass : Option String}
    (herror : Trimmed error.toList = true) (hclass : ∀ c ∈ failureClass, Trimmed c.toList = true)
    (retryable pathological : Bool) :
    ∃ u o notes e, u.WellFormed ∧ row.jobId ∈ u.jobs.map (·.jobId) ∧
      u.view row.jobId = (s.view row.jobId).endLease now row o notes e ∧ o.attempt = .failed ∧
      o.state = (if !pathological && retryable && decide (row.attemptCount < s.state.maxAttempts) then .queued
        else .failed) ∧
      fail row.jobId token row.leaseGeneration error retryable failureClass pathological now s = (do
        let v ← if pathological then quarantineRow now error failureClass row u else pure u
        let w ← checkCircuit now row
          (!(!pathological && retryable && decide (row.attemptCount < s.state.maxAttempts))) failureClass v
        pure (w.job? row.jobId, w)) := by
  obtain ⟨hs, -⟩ := reachable_mirrored h
  have hactor := Job.leasedBy_trimmed h hrow (Job.holds_live hh)
  obtain ⟨t, ht, hwf, hview, hattempts⟩ := requireLease_holds hs hrow hh
  rw [← hview] at hrow
  have htext : text error "failure error" = .ok error := by
    simp [text, require, herror, pure, Except.pure, bind, Except.bind]
  rw [fail, htext, ok_bind, checkFailureClass_trimmed hclass, ok_bind, ht, ok_bind]
  simp only [hattempts]
  generalize (!pathological && retryable && decide (row.attemptCount < s.state.maxAttempts)) = retry
  generalize (if retry then retryDelay t.state row.attemptCount else 0) = delay
  generalize (if retry then now + seconds delay else 0) = eligibleAt
  generalize LeaseEnd.reported error row.leaseGeneration row.attemptCount retryable failureClass
    (retryable && !pathological && !retry) pathological delay (if retry then some eligibleAt else none) = ending
  obtain ⟨u, hu⟩ := failLease_total token error failureClass retry eligibleAt ending now t hactor
  obtain ⟨hedits, o, notes, e, ho, -, hstate, huview⟩ := failLease_edits hwf hrow hh hu
  refine ⟨u, o, notes, e, hedits.wellFormed, hedits.mem_jobs (mem_jobs_of_view hrow), hview ▸ huview, ho, ?_, ?_⟩
  · rcases hstate with ⟨hr, hs, -⟩ | ⟨hr, hs, -⟩ <;> simp [hr, hs]
  · rw [hu, ok_bind]

/-- Such a report is accepted unless it would be the job's second quarantine. -/
theorem fail_total (h : Reachable sha256 s) (hrow : (s.view row.jobId).job = some row)
    (hh : row.holds token row.leaseGeneration now = true) {error : String} {failureClass : Option String}
    (herror : Trimmed error.toList = true) (hclass : ∀ c ∈ failureClass, Trimmed c.toList = true)
    (retryable pathological : Bool) (hno : pathological = true → (s.view row.jobId).NoQuarantine) :
    ∃ reply s' o, fail row.jobId token row.leaseGeneration error retryable failureClass pathological now s =
        .ok (reply, s') ∧ o.attempt = .failed ∧
      o.state = (if !pathological && retryable && decide (row.attemptCount < s.state.maxAttempts) then .queued
        else .failed) ∧
      (s'.view row.jobId).job = some (row.endLease now o) ∧
      (s'.view row.jobId).attempts = updateWhere (fun a => a.liveFor row.jobId row.leaseGeneration)
        (Attempt.ended o.attempt o.endedAt (some o.reason)) (s.view row.jobId).attempts := by
  obtain ⟨u, o, notes, e, hwf, hmem, hview, ho, hstate, hfail⟩ :=
    fail_endLease h hrow hh herror hclass retryable pathological
  have hactor := Job.leasedBy_trimmed h hrow (Job.holds_live hh)
  rw [hfail]
  generalize (!(!pathological && retryable && decide (row.attemptCount < s.state.maxAttempts))) = failed
  cases pathological with
  | false =>
    obtain ⟨w, hw⟩ := checkCircuit_total now row failed failureClass u
    obtain ⟨hstill, -⟩ := checkCircuit_still hwf hw
    refine ⟨w.job? row.jobId, w, o, ?_, ho, hstate, ?_, ?_⟩
    · simp only [Bool.false_eq_true, if_false, pure_bind, hw, ok_bind]
      rfl
    · rw [hstill.views, hview]
      rfl
    · rw [hstill.views, hview]
      rfl
  | true =>
    have hnone : (u.view row.jobId).NoQuarantine := by
      rw [hview]
      exact hno rfl
    obtain ⟨x, hx⟩ := quarantineRow_total now error failureClass hactor hnone
    obtain ⟨y, hins, hevent⟩ := bind_eq_ok.mp hx
    obtain ⟨hquarantine, e', -, hxview⟩ := quarantine_edits hwf rfl hmem hins rfl hevent
    obtain ⟨w, hw⟩ := checkCircuit_total now row failed failureClass x
    obtain ⟨hstill, -⟩ := checkCircuit_still hquarantine.wellFormed hw
    refine ⟨w.job? row.jobId, w, o, ?_, ho, hstate, ?_, ?_⟩
    · simp only [if_true, hx, ok_bind, hw]
      rfl
    · rw [hstill.views, hxview, hview]
      rfl
    · rw [hstill.views, hxview, hview]
      rfl

/-- A pathological failure of a job that has an active quarantine cannot be recorded. -/
theorem fail_secondQuarantine (h : Reachable sha256 s) (hrow : (s.view row.jobId).job = some row)
    (hh : row.holds token row.leaseGeneration now = true) {error : String} {failureClass : Option String}
    (herror : Trimmed error.toList = true) (hclass : ∀ c ∈ failureClass, Trimmed c.toList = true) (retryable : Bool)
    {q : Quarantine} (hq : q ∈ (s.view row.jobId).quarantines) (ha : q.state = .active) :
    fail row.jobId token row.leaseGeneration error retryable failureClass true now s = .error secondQuarantine := by
  obtain ⟨u, o, notes, e, hwf, hmem, hview, ho, hstate, hfail⟩ :=
    fail_endLease h hrow hh herror hclass retryable true
  have hq' : q ∈ (u.view row.jobId).quarantines := by
    rw [hview]
    exact hq
  obtain ⟨hqmem, hqj⟩ := Ledger.mem_view_quarantines.mp hq'
  have hins : ∀ x : Quarantine, x.jobId = row.jobId → x.state = .active →
      u.insertQuarantine x = .error secondQuarantine := by
    intro x hx hxa
    have hno : ¬∀ r ∈ u.quarantines, ¬(r.jobId = x.jobId ∧ r.state = .active ∧ x.state = .active) :=
      fun hall => hall q hqmem ⟨hqj.trans hx.symm, ha, hxa⟩
    rw [Ledger.insertQuarantine, require, if_neg hno, error_bind]
    rfl
  rw [hfail]
  simp only [if_true, quarantineRow]
  rw [hins _ rfl rfl, error_bind, error_bind]

end Fail

inductive CellStage
  | requestValidation | authorityResolution | sourceAcquire | toolchainAcquire | executorImageAcquire
  | inputVerification | sourceExtract | toolchainExtract | patch | configure | compile | archiveObjectSelection
  | artifactValidation | ghidraStartup | ghidraDiagnosticPolicy | ghidraImportAnalysis | fidPopulation
  | fidValidation | fidbExport | fidbfExport | provenanceSeal | publication
  deriving DecidableEq

def CellStage.value : CellStage → String
  | .requestValidation => "request-validation"
  | .authorityResolution => "authority-resolution"
  | .sourceAcquire => "source-acquire"
  | .toolchainAcquire => "toolchain-acquire"
  | .executorImageAcquire => "executor-image-acquire"
  | .inputVerification => "input-verification"
  | .sourceExtract => "source-extract"
  | .toolchainExtract => "toolchain-extract"
  | .patch => "patch"
  | .configure => "configure"
  | .compile => "compile"
  | .archiveObjectSelection => "archive-object-selection"
  | .artifactValidation => "artifact-validation"
  | .ghidraStartup => "ghidra-startup"
  | .ghidraDiagnosticPolicy => "ghidra-diagnostic-policy"
  | .ghidraImportAnalysis => "ghidra-import-analysis"
  | .fidPopulation => "fid-population"
  | .fidValidation => "fid-validation"
  | .fidbExport => "fidb-export"
  | .fidbfExport => "fidbf-export"
  | .provenanceSeal => "provenance-seal"
  | .publication => "publication"

/-- The classes of exceptions that the handlers of a claim tell apart. -/
inductive ExceptionKind
  | keyboardInterrupt
  | cellResolution
  | pathologicalCell
  | value
  | otherException
  | otherBase
  deriving DecidableEq

/-- An exception; the name of its class is an identifier. -/
structure Raised where
  kind : ExceptionKind
  typeName : String
  message : String
  named : Trimmed typeName.toList = true

namespace Raised

def pathological (error : Raised) : Bool := decide (error.kind = .pathologicalCell)

/-- Whether a failure may be tried again; a `CellResolutionError` is a `ValueError`. -/
def retryable (error : Raised) : Bool :=
  match error.kind with
  | .cellResolution | .pathologicalCell | .value => false
  | _ => true

/-- `f"{type(error).__name__}: {error}"`. -/
def text (error : Raised) : String := error.typeName ++ ": " ++ error.message

end Raised

/-- How the body of the `try` statement ends: normally, or with an exception after the progress it reported. -/
inductive Work
  | returned
  | raised (progress : List (CellStage × StageStatus)) (error : Raised)

/-- The last stage that was reported as failed. -/
def failedStage (progress : List (CellStage × StageStatus)) : Option CellStage :=
  progress.foldl (fun stage event => if event.2 = .failed then some event.1 else stage) none

def failureClass (progress : List (CellStage × StageStatus)) (error : Raised) : String :=
  match failedStage progress with
  | some stage => stage.value ++ ":" ++ error.typeName
  | none => "worker:" ++ error.typeName

/-- What leaves a call: an exception of the cell, or one of the coordinator. -/
inductive Escape
  | cell (error : Raised)
  | coordinator (error : Error)

/-- The identity of a lease as its worker holds it. -/
structure Held where
  jobId : String
  leaseToken : String
  leaseGeneration : Nat

/-- `_execute_claim`, with the writes that the work on the cell itself commits. -/
def executeClaim (lease : Held) (work : Ledger → Work × Ledger) (now : Time) (s : Ledger) :
    Except Escape Bool × Ledger :=
  match work s with
  | (.returned, t) => (.ok true, t)
  | (.raised progress error, t) =>
    match error.kind with
    | .keyboardInterrupt =>
      match transaction (fail lease.jobId lease.leaseToken lease.leaseGeneration "worker interrupted" true none false
          now) t with
      | (.ok _, u) | (.error (.leaseConflict _), u) => (.error (.cell error), u)
      | (.error e, u) => (.error (.coordinator e), u)
    | .otherBase => (.error (.cell error), t)
    | _ =>
      match transaction (fail lease.jobId lease.leaseToken lease.leaseGeneration error.text error.retryable
          (some (failureClass progress error)) error.pathological now) t with
      | (.ok _, u) | (.error (.leaseConflict _), u) => (.ok false, u)
      | (.error e, u) => (.error (.coordinator e), u)

/-- Nothing but a `KeyboardInterrupt` leaves the call. -/
def Contained (result : Except Escape Bool) : Prop :=
  ∀ e, result = .error e → ∃ error : Raised, e = .cell error ∧ error.kind = .keyboardInterrupt

/-- The job has left its lease, and its attempt has failed. -/
structure RecordsFailure (row : Job) (retryable : Bool) (maxAttempts : Nat) (s : Ledger) : Prop where
  job : ∃ r, s.job? row.jobId = some r ∧
    r.state = if retryable ∧ row.attemptCount < maxAttempts then .queued else .failed
  attempt : ∃ a ∈ s.attempts, a.jobId = row.jobId ∧ a.leaseGeneration = row.leaseGeneration ∧ a.state = .failed

/-- The exceptions whose failure the coordinator can be told of. -/
def Tellable (error : Raised) : Prop :=
  error.kind = .keyboardInterrupt ∨
    error.kind ≠ .otherBase ∧ error.message.toList.getLast?.any (fun c => !isSpace c) = true

section Execution

variable {sha256 : String → String} {s t : Ledger} {row : Job} {lease : Held} {now : Time}
  {work : Ledger → Work × Ledger} {progress : List (CellStage × StageStatus)} {error : Raised}

theorem trimmed_append {front back : List Char} (hfront : front.head?.any (fun c => !isSpace c) = true)
    (hback : back ≠ []) : Trimmed (front ++ back) = back.getLast?.any fun c => !isSpace c := by
  cases front with
  | nil => cases hfront
  | cons c front =>
    have hlast : (c :: front ++ back).getLast? = back.getLast? := List.getLast?_append_of_ne_nil _ hback
    rw [Trimmed, hlast]
    simp only [List.cons_append, List.head?_cons, Option.any_some] at hfront ⊢
    rw [hfront, Bool.true_and]

theorem Raised.head?_typeName (error : Raised) : error.typeName.toList.head?.any (fun c => !isSpace c) = true := by
  have h := error.named
  rw [Trimmed, Bool.and_eq_true] at h
  exact h.1

theorem failureClass_trimmed (progress : List (CellStage × StageStatus)) (error : Raised) :
    Trimmed (failureClass progress error).toList = true := by
  have hne : error.typeName.toList ≠ [] := fun h => by
    have hhead := error.head?_typeName
    rw [h] at hhead
    cases hhead
  have hlast : error.typeName.toList.getLast?.any (fun c => !isSpace c) = true := by
    have h := error.named
    rw [Trimmed, Bool.and_eq_true] at h
    exact h.2
  have hfront : ∀ front : String, front.toList.head?.any (fun c => !isSpace c) = true →
      Trimmed (front ++ error.typeName).toList = true := by
    intro front hfront
    rw [String.toList_append, trimmed_append hfront hne]
    exact hlast
  unfold failureClass
  split
  · rename_i stage _
    exact hfront _ (by cases stage <;> decide)
  · exact hfront _ (by decide)

/-- The text of a failure passes the check of its error exactly when the message does not end in a blank. -/
theorem Raised.trimmed_text (error : Raised) :
    Trimmed error.text.toList = error.message.toList.getLast?.any fun c => !isSpace c := by
  have hsplit : error.text.toList = error.typeName.toList ++ (": ".toList ++ error.message.toList) := by
    rw [Raised.text, String.toList_append, String.toList_append, List.append_assoc]
  rw [hsplit, trimmed_append error.head?_typeName (by simp)]
  cases hm : error.message.toList with
  | nil => decide
  | cons c rest => rw [List.getLast?_append_of_ne_nil _ (by simp)]

/-- The lease of a live row, once ended as failed, is recorded. -/
theorem recordsFailure (h : Reachable sha256 t) (hrow : (t.view row.jobId).job = some row)
    (hl : row.state.live = true) {u : Ledger} {o : LeaseOutcome} {retryable : Bool} (ho : o.attempt = .failed)
    (hstate : o.state = if retryable ∧ row.attemptCount < t.state.maxAttempts then .queued else .failed)
    (hjob : (u.view row.jobId).job = some (row.endLease now o))
    (hattempts : (u.view row.jobId).attempts = updateWhere (fun a => a.liveFor row.jobId row.leaseGeneration)
      (Attempt.ended o.attempt o.endedAt (some o.reason)) (t.view row.jobId).attempts) :
    RecordsFailure row retryable t.state.maxAttempts u := by
  refine ⟨⟨_, hjob, hstate⟩, ?_⟩
  obtain ⟨hn, hmirror⟩ := (reachable_mirrored h).2 row.jobId row hrow
  generalize hheld : (t.view row.jobId).attempts = attempts at hmirror hn hattempts
  cases hmirror with
  | idle hidle _ _ => rw [hidle] at hl; cases hl
  | complete hc _ _ _ => rw [hc] at hl; cases hl
  | @live earlier a ha _ =>
    have hkeys : a.liveFor row.jobId row.leaseGeneration = true := by
      have howner : a.jobId = row.jobId := hn.owner a (by simp)
      have hgen : a.leaseGeneration = row.leaseGeneration := hn.last_generation
      simp [Attempt.liveFor, howner, hgen, ha.live]
    have hmem : Attempt.ended o.attempt o.endedAt (some o.reason) a ∈ (u.view row.jobId).attempts := by
      rw [hattempts]
      exact mem_updateWhere.mpr ⟨a, by simp, by rw [if_pos hkeys]⟩
    obtain ⟨hmem, hj⟩ := Ledger.mem_view_attempts.mp hmem
    exact ⟨_, hmem, hj, hn.last_generation, ho⟩

theorem executeClaim_other (hwork : work s = (.raised progress error, t)) (hk : error.kind ≠ .keyboardInterrupt)
    (hb : error.kind ≠ .otherBase) :
    executeClaim lease work now s =
      match transaction (fail lease.jobId lease.leaseToken lease.leaseGeneration error.text error.retryable
          (some (failureClass progress error)) error.pathological now) t with
      | (.ok _, u) | (.error (.leaseConflict _), u) => (.ok false, u)
      | (.error e, u) => (.error (.coordinator e), u) := by
  unfold executeClaim
  rw [hwork]
  cases hkind : error.kind with
  | keyboardInterrupt => exact (hk hkind).elim
  | otherBase => exact (hb hkind).elim
  | cellResolution | pathologicalCell | value | otherException => simp only [hkind]

/-- An interrupt is recorded with a text of its own, and goes on. -/
theorem interrupt_recorded (h : Reachable sha256 t) (hwork : work s = (.raised progress error, t))
    (hk : error.kind = .keyboardInterrupt) (hrow : (t.view lease.jobId).job = some row) (hj : row.jobId = lease.jobId)
    (hh : row.holds lease.leaseToken lease.leaseGeneration now = true) :
    Contained (executeClaim lease work now s).1 ∧
      RecordsFailure row error.retryable t.state.maxAttempts (executeClaim lease work now s).2 := by
  have hgen : lease.leaseGeneration = row.leaseGeneration := (Job.holds_iff.mp hh).2.2.1.symm
  have hretryable : error.retryable = true := by rw [Raised.retryable, hk]
  have htext : Trimmed "worker interrupted".toList = true := by decide
  rw [hgen] at hh
  rw [← hj] at hrow
  obtain ⟨reply, u, o, hfail, ho, hstate, hjob, hattempts⟩ :=
    fail_total h hrow hh htext (fun c (hc : c ∈ (none : Option String)) => by cases hc) true false (fun hp => by cases hp)
  have hrun : executeClaim lease work now s = (.error (.cell error), u) := by
    unfold executeClaim
    rw [hwork]
    simp only [hk]
    rw [transaction_ok.mpr (by rw [← hj, hgen]; exact hfail)]
  rw [hrun, hretryable]
  refine ⟨fun e he => ⟨error, (Except.error.inj he).symm, hk⟩, ?_⟩
  exact recordsFailure h hrow (Job.holds_live hh) ho (by simpa using hstate) hjob hattempts

/-- Any other exception that the handler sees is recorded when the report of it passes. -/
theorem exception_recorded (h : Reachable sha256 t) (hwork : work s = (.raised progress error, t))
    (hk : error.kind ≠ .keyboardInterrupt) (hb : error.kind ≠ .otherBase)
    (hrow : (t.view lease.jobId).job = some row) (hj : row.jobId = lease.jobId)
    (hh : row.holds lease.leaseToken lease.leaseGeneration now = true)
    (htext : Trimmed error.text.toList = true)
    (hno : error.pathological = true → (t.view lease.jobId).NoQuarantine) :
    Contained (executeClaim lease work now s).1 ∧
      RecordsFailure row error.retryable t.state.maxAttempts (executeClaim lease work now s).2 := by
  have hgen : lease.leaseGeneration = row.leaseGeneration := (Job.holds_iff.mp hh).2.2.1.symm
  rw [hgen] at hh
  rw [← hj] at hrow hno
  have hclass : ∀ c ∈ some (failureClass progress error), Trimmed c.toList = true := by
    intro c hc
    obtain rfl := Option.some.inj hc
    exact failureClass_trimmed progress error
  obtain ⟨reply, u, o, hfail, ho, hstate, hjob, hattempts⟩ :=
    fail_total h hrow hh htext hclass error.retryable error.pathological hno
  have hrun : executeClaim lease work now s = (.ok false, u) := by
    rw [executeClaim_other hwork hk hb, transaction_ok.mpr (by rw [← hj, hgen]; exact hfail)]
  have hretry : (!error.pathological && error.retryable) = error.retryable := by
    unfold Raised.pathological Raised.retryable
    cases error.kind <;> rfl
  rw [hrun]
  refine ⟨fun e he => (by cases he), recordsFailure h hrow (Job.holds_live hh) ho ?_ hjob hattempts⟩
  rw [hretry] at hstate
  simpa using hstate

/-- An error that the coordinator raises, other than a lease conflict, leaves the call. -/
theorem exception_escapes (hwork : work s = (.raised progress error, t)) (hk : error.kind ≠ .keyboardInterrupt)
    (hb : error.kind ≠ .otherBase) {e : Error} (he : ∀ message, e ≠ .leaseConflict message)
    (hfail : fail lease.jobId lease.leaseToken lease.leaseGeneration error.text error.retryable
      (some (failureClass progress error)) error.pathological now t = .error e) :
    ¬Contained (executeClaim lease work now s).1 := by
  have hrun : executeClaim lease work now s = (.error (.coordinator e), t) := by
    rw [executeClaim_other hwork hk hb, transaction, hfail]
    cases e with
    | leaseConflict message => exact (he message rfl).elim
    | value | coordinator | integrity | type => rfl
  rw [hrun]
  intro hc
  obtain ⟨_, heq, _⟩ := hc _ rfl
  cases heq

end Execution

namespace Sample

/-- The first lease of a synchronized queue. -/
def leased : List Op :=
  [.syncQueue queueA (resolve "1") "coordinator" 0, .claim "worker" "first" none none none 1]

def lease : Held := ⟨jobId "a" "1", "first", 1⟩

def failure (kind : ExceptionKind) (message : String) : Raised := ⟨kind, "RuntimeError", message, by decide⟩

/-- Work that raises at once. -/
def raising (error : Raised) (s : Ledger) : Work × Ledger := (.raised [(.compile, .failed)] error, s)

end Sample

end FidbPoc.Coordinator
