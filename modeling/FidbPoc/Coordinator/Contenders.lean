import FidbPoc.Coordinator.Mirror
import FidbPoc.Coordinator.Resync

namespace FidbPoc.Coordinator

open FidbPoc.Lib FidbPoc.Lib.Table

/-- The resolved execution authority of a job: what a worker executes for it. -/
structure Authority where
  batchId : String
  baseCellId : String
  factorVariants : List String
  queueRow : QueueRow
  cell : Option Cell
  deriving DecidableEq

def Ledger.authority (s : Ledger) (r : Job) : Authority :=
  ⟨r.batchId, r.baseCellId, r.factorVariants, r.queueRow, s.cell? r.planDigest r.baseCellId⟩

namespace JobView

/-- Terminal and carryable: complete with a complete attempt, or failed with an active quarantine. -/
def Ended (v : JobView) (r : Job) : Prop :=
  r.state = .complete ∧ (∃ a ∈ v.attempts, a.state = .complete) ∨
    r.state = .failed ∧ ∃ q ∈ v.quarantines, q.state = .active

/-- The job may still be executed without a further selection, or its execution counts. -/
def Contends (v : JobView) (r : Job) : Prop := r.active = true ∨ r.state.live = true ∨ v.Ended r

end JobView

def Ledger.Contends (s : Ledger) (r : Job) : Prop := (s.view r.jobId).Contends r

theorem carryable_iff {s : Ledger} {r : Job} : carryable s r = true ↔ (s.view r.jobId).Ended r := by
  simp only [carryable, JobView.Ended, Bool.or_eq_true, Bool.and_eq_true, decide_eq_true_eq, List.any_eq_true,
    Ledger.mem_view_attempts, Ledger.mem_view_quarantines, and_assoc]

theorem JobView.Mirrored.ended {v : JobView} (hv : v.Mirrored) {r : Job} (hr : v.job = some r)
    (hc : r.state = .complete) : v.Ended r := by
  obtain ⟨a, ha, hs⟩ := (hv r hr).2.complete_iff.mp hc
  exact .inl ⟨hc, a, List.mem_of_getLast? ha, hs⟩

/-- A job that a move not of the synchronization lets contend did so before, with the same authority. -/
theorem JobStep.contends {now : Time} {n : Nat} {m : Move} {v v' : JobView} (h : JobStep now n m v v')
    (hm : ¬m.selecting) {r' : Job} (hr' : v'.job = some r') :
    ∃ r, v.job = some r ∧ (∀ s : Ledger, s.authority r' = s.authority r) ∧ (v'.Contends r' → v.Contends r) := by
  cases h with
  | created | deselected | placed => simp [Move.selecting] at hm
  | claimed hr hq ha =>
    obtain rfl := Option.some.inj hr'
    exact ⟨_, hr, fun _ => rfl, fun _ => .inl ha⟩
  | renewed hr hh | staged hr hh | completed hr hh | failed hr hh | failedPathological hr hh =>
    obtain rfl := Option.some.inj hr'
    exact ⟨_, hr, fun _ => rfl, fun _ => .inr (.inl (Job.holds_live hh))⟩
  | expired hr hx =>
    obtain rfl := Option.some.inj hr'
    exact ⟨_, hr, fun _ => rfl, fun _ => .inr (.inl (Job.expired_live hx))⟩
  | interrupted hr hl =>
    obtain rfl := Option.some.inj hr'
    exact ⟨_, hr, fun _ => rfl, fun _ => .inr (.inl hl)⟩
  | quarantined hr ha =>
    obtain rfl := Option.some.inj hr'
    refine ⟨_, hr, fun _ => ?_, fun _ => .inl ha⟩
    split <;> rfl
  | @released _ r q e reason hr hq ha hone he =>
    obtain rfl := Option.some.inj hr'
    refine ⟨_, hr, fun _ => by split <;> rfl, ?_⟩
    by_cases hf : r.state = .failed
    · exact fun _ => .inr (.inr (.inr ⟨hf, q, hq, ha⟩))
    · rw [if_neg hf]
      refine Or.imp_right (Or.imp_right ?_)
      rintro (hc | ⟨hs, -⟩)
      · exact .inl hc
      · exact (hf hs).elim
  | requeued hr ha =>
    obtain rfl := Option.some.inj hr'
    exact ⟨_, hr, fun _ => rfl, fun _ => .inl ha⟩

/-- Every job has its cell, and no two that contend have one authority. -/
structure Ledger.Exclusive (s : Ledger) : Prop where
  resolved : ∀ r ∈ s.jobs, ∃ cell, s.cell? r.planDigest r.baseCellId = some cell
  one : ∀ r ∈ s.jobs, ∀ r' ∈ s.jobs, s.Contends r → s.Contends r' → s.authority r = s.authority r' → r = r'

section Work

variable {s s' : Ledger}

/-- Work that brings in no job and no contender. -/
theorem Ledger.Exclusive.of_origins (h : s.Exclusive) (hs' : s'.WellFormed)
    (horigin : ∀ r' ∈ s'.jobs, ∃ r ∈ s.jobs, r.jobId = r'.jobId ∧ s'.authority r' = s.authority r ∧
      (s'.Contends r' → s.Contends r)) : s'.Exclusive where
  resolved := by
    intro r' hr'
    obtain ⟨r, hr, -, ha, -⟩ := horigin r' hr'
    obtain ⟨cell, hcell⟩ := h.resolved r hr
    exact ⟨cell, (congrArg (·.cell) ha).trans hcell⟩
  one := by
    intro x' hx' y' hy' hcx hcy hauth
    obtain ⟨x, hx, hxj, hxa, hxc⟩ := horigin x' hx'
    obtain ⟨y, hy, hyj, hya, hyc⟩ := horigin y' hy'
    have hxy : x = y := h.one x hx y hy (hxc hcx) (hyc hcy) (hxa.symm.trans (hauth.trans hya))
    exact key_injective hs'.jobs_nodup hx' hy' (hxj.symm.trans ((congrArg (·.jobId) hxy).trans hyj))

theorem Ledger.authority_congr (h : s'.resolvedCells = s.resolvedCells) (r : Job) :
    s'.authority r = s.authority r := by
  simp only [Ledger.authority, Ledger.cell?, h]

theorem Acts.exclusive {now : Time} {m : Move} {ks : List String} (h : Acts now m ks s s') (hm : ¬m.selecting)
    (hs : s.Exclusive) : s'.Exclusive := by
  refine hs.of_origins h.wellFormed fun r' hr' => ?_
  have hview := Ledger.job?_of_mem h.wellFormed hr'
  by_cases hj : r'.jobId ∈ ks
  · obtain ⟨r, hr, hauth, hc⟩ := (h.steps _ hj).contends hm hview
    have hrj : r.jobId = r'.jobId := Ledger.job?_jobId hr
    refine ⟨r, List.mem_of_find?_eq_some hr, hrj, ?_, ?_⟩
    · rw [Ledger.authority_congr h.frame.resolvedCells, hauth]
    · simpa only [Ledger.Contends, hrj] using hc
  · have hr : (s.view r'.jobId).job = some r' := by
      rw [← h.others _ hj]
      exact hview
    refine ⟨r', List.mem_of_find?_eq_some hr, rfl, Ledger.authority_congr h.frame.resolvedCells r', ?_⟩
    simp only [Ledger.Contends, h.others _ hj]
    exact id

theorem Still.exclusive (h : Still s s') (hs : s.Exclusive) : s'.Exclusive := by
  refine hs.of_origins h.wellFormed fun r hr => ⟨r, h.jobs ▸ hr, rfl, Ledger.authority_congr h.resolvedCells r, ?_⟩
  simp only [Ledger.Contends, h.views]
  exact id

end Work

instance (s : Ledger) (rb : ResolvedBatch) (row : QueueRow) (r : Job) : Decidable (StandsFor s rb row r) :=
  decidable_of_iff (r.batchId = rb.batch.id ∧ r.baseCellId = row.baseCell ∧ r.factorVariants = row.factorVariants ∧
      r.queueRow = row ∧ ∃ cell ∈ rb.cells, cell.id = row.baseCell ∧ s.cell? r.planDigest r.baseCellId = some cell)
    ⟨fun ⟨hb, hc, hv, hq, hcell⟩ => ⟨hb, hc, hv, hq, hcell⟩,
      fun h => ⟨h.batchId, h.baseCell, h.factorVariants, h.queueRow, h.cell⟩⟩

/-- A twin of the job `ownId`: a worker executes it, or it is carryable while the job `ownId` failed. -/
def Ledger.Twin (s : Ledger) (ownId : String) (k : Job) : Prop :=
  k.jobId ≠ ownId ∧ (k.state.live = true ∨
    carryable s k = true ∧ (s.job? ownId).any (fun r => decide (r.state = .failed)) = true)

instance (s : Ledger) (ownId : String) (k : Job) : Decidable (s.Twin ownId k) := by
  unfold Ledger.Twin
  infer_instance

/-- No row that an operation selects has a twin of its own job. -/
def Op.NoTwin (sha256 : String → String) (op : Op) (s : Ledger) : Prop :=
  ∀ rb ∈ op.resolved sha256, ∀ row ∈ rb.rows, ∀ k ∈ s.jobs, StandsFor s rb row k →
    ¬s.Twin (Selected.jobId sha256 ⟨rb.batch.id, rb.plan.planDigest, row⟩) k

instance (sha256 : String → String) (op : Op) (s : Ledger) : Decidable (op.NoTwin sha256 s) := by
  unfold Op.NoTwin
  infer_instance

section Synchronization

variable {sha256 : String → String} {now : Time} {s t : Ledger} {done : List Selected}

theorem Syncs.authority (h : Syncs now s t) (hs : s.Exclusive) {k r : Job} (hk : k ∈ s.jobs) (hw : r.work = k.work) :
    t.authority r = s.authority k := by
  obtain ⟨cell, hcell⟩ := hs.resolved k hk
  have hb : r.batchId = k.batchId := congrArg (·.batchId) hw
  have hd : r.planDigest = k.planDigest := congrArg (·.planDigest) hw
  have hc : r.baseCellId = k.baseCellId := congrArg (·.baseCellId) hw
  have hv : r.factorVariants = k.factorVariants := congrArg (·.factorVariants) hw
  have hq : r.queueRow = k.queueRow := congrArg (·.queueRow) hw
  simp only [Ledger.authority, hb, hd, hc, hv, hq, hcell, h.cells _ _ _ hcell]

/-- A job not selected was there before, and what it contended with it had already. -/
theorem Selection.prior (h : Selection sha256 now s done t) (hs : s.Exclusive) {r : Job} (hr : r ∈ t.jobs)
    (ha : r.active = false) : ∃ k ∈ s.jobs, k.jobId = r.jobId ∧ t.authority r = s.authority k ∧
      carryable s k = carryable t r ∧ k.state = r.state := by
  have hview := Ledger.job?_of_mem h.syncs.wellFormed hr
  cases hk : (s.view r.jobId).job with
  | none =>
    have hfresh := h.fresh r hr hk
    rw [ha] at hfresh
    cases hfresh
  | some k =>
    have hm : k ∈ s.jobs := List.mem_of_find?_eq_some hk
    have hw := h.syncs.work_eq hk hview
    exact ⟨k, hm, Ledger.job?_jobId hk, h.syncs.authority hs hm hw, (h.syncs.carryable hw).symm,
      (congrArg (·.state) hw).symm⟩

/-- Two jobs fit one row exactly if they have one authority. -/
theorem Fits.of_authority {u : Ledger} {p : Selected} {r k : Job} (h : Fits t t p r) (ha : t.authority r = u.authority k) :
    Fits t u p k := by
  simp only [Ledger.authority, Authority.mk.injEq] at ha
  obtain ⟨hb, hc, hv, hq, hcells⟩ := ha
  obtain ⟨cell, hp, hr⟩ := h.cell
  exact ⟨hb.symm.trans h.batchId, hc.symm.trans h.baseCell, hv.symm.trans h.factorVariants, hq.symm.trans h.queueRow,
    cell, hp, hcells.symm.trans hr⟩

theorem Fits.authority_eq {p : Selected} {r k : Job} (h : Fits t t p r) (h' : Fits t t p k) :
    t.authority r = t.authority k := by
  obtain ⟨cell, hp, hr⟩ := h.cell
  obtain ⟨cell', hp', hk⟩ := h'.cell
  obtain rfl := Option.some.inj (hp.symm.trans hp')
  simp only [Ledger.authority, h.batchId, h.baseCell, h.factorVariants, h.queueRow, h'.batchId, h'.baseCell,
    h'.factorVariants, h'.queueRow] at hr hk ⊢
  rw [hr, hk]

/-- A job selected for a row and a prior contender with its authority are one job. -/
theorem Origin.contender {p : Selected} {r k : Job} (h : Origin sha256 s t p r.jobId) (hsync : Syncs now s t)
    (hmirror : ∀ j, (s.view j).Mirrored) (hs : s.Exclusive) (hr : (t.view r.jobId).job = some r) (hf : Fits t s p k)
    (hk : k ∈ s.jobs) (hauth : t.authority r = s.authority k) (hc : k.state.live = true ∨ carryable s k = true)
    (htwin : ¬s.Twin (p.jobId sha256) k) : r.jobId = k.jobId := by
  by_contra hne
  have hkc : s.Contends k := .inr (hc.imp_right carryable_iff.mp)
  have hidle : ∀ x, (s.view r.jobId).job = some x → ¬s.Contends x := by
    intro x hx hxc
    have hm : x ∈ s.jobs := List.mem_of_find?_eq_some hx
    have hxk : x = k := hs.one x hm k hk hxc hkc ((hsync.authority hs hm (hsync.work_eq hx hr)).symm.trans hauth)
    exact hne ((Ledger.job?_jobId hx).symm.trans (congrArg (·.jobId) hxk))
  have hprior : r.jobId = p.jobId sha256 → ¬NoPrior sha256 s t p := by
    intro hj hnone
    have hown : k.jobId ≠ p.jobId sha256 := fun he => hne (hj.trans he.symm)
    rcases hc with hl | hc
    · exact htwin ⟨hown, .inl hl⟩
    · rw [hnone k hk hown hf] at hc
      cases hc
  cases h with
  | carried hx hcarry => exact hidle _ hx (.inr (.inr (carryable_iff.mp hcarry)))
  | created hj hnew hnone => exact hprior hj hnone
  | @reused x hj hx hnone =>
    have hxj := Ledger.job?_jobId hx
    cases hstate : x.state with
    | queued => exact hprior hj (hnone (.inl hstate))
    | blocked => exact hprior hj (hnone (.inr hstate))
    | leased | running => exact hidle x hx (.inr (.inl (by rw [hstate]; rfl)))
    | complete =>
      have hended := (hmirror r.jobId).ended hx hstate
      rw [← hxj] at hended
      exact hidle x hx (.inr (.inr hended))
    | failed =>
      have hfailed : (s.job? (p.jobId sha256)).any (fun r => decide (r.state = .failed)) = true := by
        have hjob : s.job? (p.jobId sha256) = some x := hj ▸ hx
        rw [hjob]
        simp [hstate]
      exact htwin ⟨fun he => hne (hj.trans he.symm), hc.imp_right fun h => ⟨h, hfailed⟩⟩

/-- A selection whose rows have no twins brings in no second contender. -/
theorem Synchronized.exclusive {config : QueueConfig} {resolved : List ResolvedBatch}
    (h : Synchronized sha256 now config resolved s t) (hvalid : ∀ rb ∈ resolved, rb.Valid)
    (hmirror : ∀ j, (s.view j).Mirrored) (hs : s.Exclusive)
    (htwin : ∀ rb ∈ resolved, ∀ row ∈ rb.rows, ∀ k ∈ s.jobs, StandsFor s rb row k →
      ¬s.Twin (Selected.jobId sha256 ⟨rb.batch.id, rb.plan.planDigest, row⟩) k) : t.Exclusive := by
  have hsel := h.selection
  have hwf := hsel.syncs.wellFormed
  have hprior : ∀ r ∈ t.jobs, t.Contends r → r.active = false → ∃ k ∈ s.jobs, k.jobId = r.jobId ∧
      t.authority r = s.authority k ∧ (k.state.live = true ∨ carryable s k = true) := by
    intro r hr hc ha
    obtain ⟨k, hk, hj, hauth, hcarry, hstate⟩ := hsel.prior hs hr ha
    refine ⟨k, hk, hj, hauth, ?_⟩
    rw [hstate, hcarry, carryable_iff]
    exact hc.resolve_left (by simp [ha])
  have hmixed : ∀ r ∈ t.jobs, ∀ r' ∈ t.jobs, r.active = true → r'.active = false → t.Contends r' →
      t.authority r = t.authority r' → r = r' := by
    intro r hr r' hr' ha ha' hc hauth
    obtain ⟨p, hp, hf, horigin⟩ := hsel.active r hr ha
    obtain ⟨k, hk, hj, hkauth, hkc⟩ := hprior r' hr' hc ha'
    obtain ⟨rb, hrb, hrow, hprow⟩ := mem_selectedRows.mp hp
    have hkf := hf.of_authority (hauth.trans hkauth)
    have hstands : StandsFor s rb p.row k := by
      rw [hprow] at hkf
      exact hkf.standsFor (hvalid rb hrb) (h.cells rb hrb) hrow
    have hnot := htwin rb hrb p.row hrow k hk hstands
    rw [← hprow] at hnot
    refine key_injective hwf.jobs_nodup hr hr' (Eq.trans ?_ hj)
    exact horigin.contender hsel.syncs hmirror hs (Ledger.job?_of_mem hwf hr) hkf hk (hauth.trans hkauth) hkc hnot
  constructor
  · intro r hr
    by_cases ha : r.active = true
    · obtain ⟨p, -, hf, -⟩ := hsel.active r hr ha
      obtain ⟨cell, -, hcell⟩ := hf.cell
      exact ⟨cell, hcell⟩
    · obtain ⟨k, hk, -, hauth, -⟩ := hsel.prior hs hr (by simpa using ha)
      obtain ⟨cell, hcell⟩ := hs.resolved k hk
      exact ⟨cell, (congrArg (·.cell) hauth).trans hcell⟩
  · intro r hr r' hr' hc hc' hauth
    by_cases ha : r.active = true
    · by_cases ha' : r'.active = true
      · exact hsel.unique r hr r' hr' ha ha' (congrArg (·.batchId) hauth) (congrArg (·.queueRow) hauth)
      · exact hmixed r hr r' hr' ha (by simpa using ha') hc' hauth
    · by_cases ha' : r'.active = true
      · exact (hmixed r' hr' r hr ha' (by simpa using ha) hc hauth.symm).symm
      · obtain ⟨k, hk, hj, hkauth, hkc⟩ := hprior r hr hc (by simpa using ha)
        obtain ⟨k', hk', hj', hkauth', hkc'⟩ := hprior r' hr' hc' (by simpa using ha')
        have hkk : k = k' := hs.one k hk k' hk' (.inr (hkc.imp_right carryable_iff.mp))
          (.inr (hkc'.imp_right carryable_iff.mp)) (hkauth.symm.trans (hauth.trans hkauth'))
        exact key_injective hwf.jobs_nodup hr hr' (hj.symm.trans ((congrArg (·.jobId) hkk).trans hj'))

end Synchronization

/-- Contenders stay apart as long as no committed synchronization selects a row with a twin. -/
theorem Committed.exclusive {sha256 : String → String} {op : Op} {s s' : Ledger} (h : Committed sha256 op s s')
    (htwin : op.NoTwin sha256 s) (hmirror : ∀ j, (s.view j).Mirrored) (hs : s.Exclusive) : s'.Exclusive := by
  cases h with
  | synchronized hop hr hsync =>
    rw [Op.NoTwin, hop, Op.resolved_eq sha256 hr] at htwin
    exact hsync.exclusive (resolveQueue_valid hr).2 hmirror hs htwin
  | still hop hstill hstate => exact hstill.exclusive hs
  | worked hop hsweep hact _ _ =>
    exact hact.exclusive (Op.move_not_selecting hop) (hsweep.exclusive (by simp [Move.selecting]) hs)

end FidbPoc.Coordinator
