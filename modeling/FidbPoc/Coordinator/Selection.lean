import FidbPoc.Coordinator.SyncSteps

namespace FidbPoc.Coordinator

open FidbPoc.Lib.Table FidbPoc.Lib.Checked Relation

/-- The columns of a job that a synchronization never assigns. -/
def Job.work (r : Job) : Job := { r with position := 0, active := false, syncGeneration := 0, updatedAt := 0 }

def Move.selecting (m : Move) : Prop := m = .deselected ∨ m = .placed ∨ m = .created

/-- What a synchronization, or a part of one, may do: select and deselect jobs,
create jobs, resolve further cells. -/
structure Syncs (now : Time) (s s' : Ledger) : Prop where
  wellFormed : s'.WellFormed
  views : ∀ j n, ReflTransGen (fun v v' => ∃ m : Move, m.selecting ∧ JobStep now n m v v') (s.view j) (s'.view j)
  attempts : s'.attempts = s.attempts
  stageAttempts : s'.stageAttempts = s.stageAttempts
  quarantines : s'.quarantines = s.quarantines
  cells : ∀ d c cell, s.cell? d c = some cell → s'.cell? d c = some cell

namespace Syncs

variable {now : Time}

theorem trans {s t u : Ledger} (h : Syncs now s t) (h' : Syncs now t u) : Syncs now s u where
  wellFormed := h'.wellFormed
  views := fun j n => (h.views j n).trans (h'.views j n)
  attempts := h'.attempts.trans h.attempts
  stageAttempts := h'.stageAttempts.trans h.stageAttempts
  quarantines := h'.quarantines.trans h.quarantines
  cells := fun d c cell hc => h'.cells d c cell (h.cells d c cell hc)

theorem of_still {s s' : Ledger} (h : Still s s') : Syncs now s s' where
  wellFormed := h.wellFormed
  views := by
    intro j n
    rw [h.views]
  attempts := h.attempts
  stageAttempts := h.stageAttempts
  quarantines := h.quarantines
  cells := by
    intro d c cell hc
    simp only [Ledger.cell?, h.resolvedCells] at hc ⊢
    exact hc

theorem of_row {j : String} {s s' : Ledger} (h : RowSync now j s s') : Syncs now s s' where
  wellFormed := h.wellFormed
  views := by
    intro k n
    by_cases hk : k = j
    · obtain ⟨m, hm, hstep⟩ := h.step
      subst hk
      exact .single ⟨m, .inr hm, hstep n⟩
    · rw [h.others k hk]
  attempts := h.attempts
  stageAttempts := h.stageAttempts
  quarantines := h.quarantines
  cells := by
    intro d c cell hc
    simp only [Ledger.cell?, h.resolvedCells] at hc ⊢
    exact hc

end Syncs

/-- A selecting move leaves the work of an existing job as it is. -/
theorem JobStep.work {now : Time} {n : Nat} {m : Move} {v v' : JobView} (h : JobStep now n m v v')
    (hm : m.selecting) {r : Job} (hr : v.job = some r) : ∃ r', v'.job = some r' ∧ r'.work = r.work := by
  cases h with
  | created he => cases hr
  | deselected hj | placed hj _ =>
    rw [hj] at hr
    obtain rfl := Option.some.inj hr
    exact ⟨_, rfl, rfl⟩
  | claimed | renewed | staged | completed | expired | failed | failedPathological | interrupted | quarantined
  | released | requeued => simp [Move.selecting] at hm

theorem Syncs.work {now : Time} {s s' : Ledger} (h : Syncs now s s') {j : String} {r : Job}
    (hr : (s.view j).job = some r) : ∃ r', (s'.view j).job = some r' ∧ r'.work = r.work := by
  have hviews := h.views j 0
  generalize s'.view j = v' at hviews ⊢
  induction hviews with
  | refl => exact ⟨r, hr, rfl⟩
  | tail _ hstep ih =>
    obtain ⟨r₁, hr₁, hw₁⟩ := ih
    obtain ⟨m, hm, hstep⟩ := hstep
    obtain ⟨r₂, hr₂, hw₂⟩ := hstep.work hm hr₁
    exact ⟨r₂, hr₂, hw₂.trans hw₁⟩

theorem Syncs.work_eq {now : Time} {s s' : Ledger} (h : Syncs now s s') {j : String} {r r' : Job}
    (hr : (s.view j).job = some r) (hr' : (s'.view j).job = some r') : r'.work = r.work := by
  obtain ⟨r₁, hr₁, hw⟩ := h.work hr
  obtain rfl := Option.some.inj (hr₁.symm.trans hr')
  exact hw

/-- A job that a synchronization creates waits in the queue, or is blocked. -/
theorem Syncs.created {now : Time} {s s' : Ledger} (h : Syncs now s s') {j : String} (hnew : (s.view j).job = none)
    {r : Job} (hr : (s'.view j).job = some r) : r.state = .queued ∨ r.state = .blocked := by
  have hviews := h.views j 0
  generalize s'.view j = v' at hviews hr
  induction hviews generalizing r with
  | refl => rw [hnew] at hr; cases hr
  | @tail v v' _ hstep ih =>
    obtain ⟨m, hm, hstep⟩ := hstep
    cases hv : v.job with
    | none =>
      cases hstep with
      | created =>
        obtain rfl := Option.some.inj hr
        simp only [newJob]
        split
        · exact .inl rfl
        · exact .inr rfl
      | _ hj => rw [hj] at hv; cases hv
    | some r₁ =>
      obtain ⟨r₂, hr₂, hw⟩ := hstep.work hm hv
      obtain rfl := Option.some.inj (hr₂.symm.trans hr)
      rw [show r₂.state = r₁.state from congrArg (·.state) hw]
      exact ih hv

theorem Fits.of_work {t u : Ledger} {p : Selected} {r r' : Job} (h : Fits t u p r) (hw : r'.work = r.work) :
    Fits t u p r' := by
  have hb : r'.batchId = r.batchId := congrArg (·.batchId) hw
  have hd : r'.planDigest = r.planDigest := congrArg (·.planDigest) hw
  have hc : r'.baseCellId = r.baseCellId := congrArg (·.baseCellId) hw
  have hf : r'.factorVariants = r.factorVariants := congrArg (·.factorVariants) hw
  have hq : r'.queueRow = r.queueRow := congrArg (·.queueRow) hw
  refine ⟨hb.trans h.batchId, hc.trans h.baseCell, hf.trans h.factorVariants, hq.trans h.queueRow, ?_⟩
  rw [hd, hc]
  exact h.cell

theorem Fits.mono {t t' u u' : Ledger} {p : Selected} {r : Job} (h : Fits t u p r)
    (ht : ∀ d c cell, t.cell? d c = some cell → t'.cell? d c = some cell)
    (hu : ∀ d c cell, u.cell? d c = some cell → u'.cell? d c = some cell) : Fits t' u' p r := by
  obtain ⟨cell, hcell, hjob⟩ := h.cell
  exact ⟨h.batchId, h.baseCell, h.factorVariants, h.queueRow, cell, ht _ _ _ hcell, hu _ _ _ hjob⟩

/-- Two rows that one job fits are the same row of the same batch. -/
theorem Fits.same_row {t u t' u' : Ledger} {p p' : Selected} {r : Job} (h : Fits t u p r) (h' : Fits t' u' p' r) :
    p'.batchId = p.batchId ∧ p'.row = p.row :=
  ⟨h'.batchId.symm.trans h.batchId, h'.queueRow.symm.trans h.queueRow⟩

/-- Only a job with an attempt or a quarantine can be carried. -/
theorem carryable_mem {s : Ledger} (hs : s.WellFormed) {k : Job} (h : carryable s k = true) :
    k.jobId ∈ s.jobs.map (·.jobId) := by
  simp only [carryable, Bool.or_eq_true, Bool.and_eq_true, List.any_eq_true, decide_eq_true_eq] at h
  rcases h with ⟨-, a, ha, hj, -⟩ | ⟨-, q, hq, hj, -⟩
  · exact hj ▸ hs.attempt_job a ha
  · exact hj ▸ hs.quarantine_job q hq

theorem Syncs.carryable {now : Time} {s s' : Ledger} (h : Syncs now s s') {k k' : Job} (hw : k'.work = k.work) :
    carryable s' k' = carryable s k := by
  have hj : k'.jobId = k.jobId := congrArg (·.jobId) hw
  have hst : k'.state = k.state := congrArg (·.state) hw
  simp only [FidbPoc.Coordinator.carryable, h.attempts, h.quarantines, hj, hst]

section Selections

variable (sha256 : String → String)

/-- No other job of the ledger before the synchronization could stand for the row. -/
def NoPrior (s t : Ledger) (p : Selected) : Prop :=
  ∀ k ∈ s.jobs, k.jobId ≠ p.jobId sha256 → Fits t s p k → carryable s k = false

/-- Where the job selected for a row comes from, in terms of the ledger before. -/
inductive Origin (s t : Ledger) (p : Selected) (j : String) : Prop
  | carried {r : Job} (hr : (s.view j).job = some r) (hc : carryable s r = true)
  | created (hj : j = p.jobId sha256) (hnew : (s.view j).job = none) (hnone : NoPrior sha256 s t p)
  | reused {r : Job} (hj : j = p.jobId sha256) (hr : (s.view j).job = some r)
      (hnone : r.state = .queued ∨ r.state = .blocked → NoPrior sha256 s t p)

/-- After the rows `done`, the active jobs of `t` are one for each of these rows. -/
structure Selection (now : Time) (s : Ledger) (done : List Selected) (t : Ledger) : Prop where
  syncs : Syncs now s t
  placed : ∀ p ∈ done, ∃ r ∈ t.jobs, r.active = true ∧ Fits t t p r
  active : ∀ r ∈ t.jobs, r.active = true → ∃ p ∈ done, Fits t t p r ∧ Origin sha256 s t p r.jobId
  unique : ∀ r ∈ t.jobs, ∀ r' ∈ t.jobs, r.active = true → r'.active = true → r.batchId = r'.batchId →
    r.queueRow = r'.queueRow → r = r'
  fresh : ∀ r ∈ t.jobs, (s.view r.jobId).job = none → r.active = true

variable {sha256} {now : Time} {s t u : Ledger} {done : List Selected}

theorem NoPrior.mono {p : Selected} {cell : Cell} (h : NoPrior sha256 s t p)
    (hp : t.cell? p.planDigest p.row.baseCell = some cell)
    (hu : ∀ d c cell, t.cell? d c = some cell → u.cell? d c = some cell) : NoPrior sha256 s u p := by
  intro k hk hj hf
  obtain ⟨c, hc, hjob⟩ := hf.cell
  have hsame : c = cell := Option.some.inj (hc.symm.trans (hu _ _ _ hp))
  exact h k hk hj ⟨hf.batchId, hf.baseCell, hf.factorVariants, hf.queueRow, c, hsame ▸ hp, hjob⟩

theorem Origin.mono {p : Selected} {j : String} {cell : Cell} (h : Origin sha256 s t p j)
    (hp : t.cell? p.planDigest p.row.baseCell = some cell)
    (hu : ∀ d c cell, t.cell? d c = some cell → u.cell? d c = some cell) : Origin sha256 s u p j := by
  cases h with
  | carried hr hc => exact .carried hr hc
  | created hj hnew hnone => exact .created hj hnew (hnone.mono hp hu)
  | reused hj hr hnone => exact .reused hj hr fun hst => (hnone hst).mono hp hu

/-- Work that leaves the job rows alone keeps the selection. -/
theorem Selection.idle (h : Selection sha256 now s done t) (hu : Syncs now t u) (hjobs : u.jobs = t.jobs) :
    Selection sha256 now s done u where
  syncs := h.syncs.trans hu
  placed := by
    intro p hp
    obtain ⟨r, hr, ha, hf⟩ := h.placed p hp
    exact ⟨r, hjobs ▸ hr, ha, hf.mono hu.cells hu.cells⟩
  active := by
    intro r hr ha
    rw [hjobs] at hr
    obtain ⟨p, hp, hf, ho⟩ := h.active r hr ha
    obtain ⟨cell, hcell, -⟩ := hf.cell
    exact ⟨p, hp, hf.mono hu.cells hu.cells, ho.mono hcell hu.cells⟩
  unique := by rw [hjobs]; exact h.unique
  fresh := by rw [hjobs]; exact h.fresh

/-- A job that fits a row not yet processed is inactive. -/
theorem Selection.inactive (h : Selection sha256 now s done t) {p : Selected}
    (hp : ∀ p' ∈ done, ¬(p'.batchId = p.batchId ∧ p'.row = p.row)) {u u' : Ledger} {r : Job} (hr : r ∈ t.jobs)
    (hf : Fits u u' p r) : r.active = false := by
  by_contra ha
  rw [Bool.not_eq_false] at ha
  obtain ⟨p', hp', hf', -⟩ := h.active r hr ha
  exact hp p' hp' (hf.same_row hf')

/-- The choice made for a row, traced back to the ledger before the synchronization. -/
theorem Selection.origin (h : Selection sha256 now s done t) (hs : s.WellFormed) {p : Selected}
    (hp : ∀ p' ∈ done, ¬(p'.batchId = p.batchId ∧ p'.row = p.row)) {j : String} (hc : Choice sha256 t p j) :
    Origin sha256 s t p j := by
  have hprior : NoneCarried sha256 t p → NoPrior sha256 s t p := by
    intro hnone k hk hj hf
    obtain ⟨k', hk', hw⟩ := h.syncs.work (Ledger.job?_of_mem hs hk)
    have hm : k' ∈ t.jobs := List.mem_of_find?_eq_some hk'
    have hj' : k'.jobId ≠ p.jobId sha256 := by
      rw [show k'.jobId = k.jobId from congrArg (·.jobId) hw]
      exact hj
    have hf' : Fits t t p k' := (hf.mono (fun _ _ _ => id) h.syncs.cells).of_work hw
    rw [← h.syncs.carryable hw]
    exact hnone k' hm (h.inactive hp hm hf') hj' hf'
  cases hc with
  | carried hr ha hf hc =>
    rename_i r
    cases hr₀ : (s.view j).job with
    | some r₀ => exact .carried hr₀ (by rw [← h.syncs.carryable (h.syncs.work_eq hr₀ hr)]; exact hc)
    | none =>
      have hrj : r.jobId = j := Ledger.job?_jobId hr
      have hm : r ∈ t.jobs := List.mem_of_find?_eq_some hr
      have hfresh := h.fresh r hm (by rw [hrj]; exact hr₀)
      rw [ha] at hfresh
      cases hfresh
  | created hj hnew hnone =>
    refine .created hj ?_ (hprior hnone)
    cases hr₀ : (s.view j).job with
    | none => rfl
    | some r₀ =>
      obtain ⟨r, hr, -⟩ := h.syncs.work hr₀
      rw [hnew] at hr
      cases hr
  | reused hj hr hf hnone =>
    rename_i r
    have hm : r ∈ t.jobs := List.mem_of_find?_eq_some hr
    cases hr₀ : (s.view j).job with
    | none =>
      have hrj : r.jobId = j := Ledger.job?_jobId hr
      have hfresh := h.fresh r hm (by rw [hrj]; exact hr₀)
      rw [h.inactive hp hm hf] at hfresh
      cases hfresh
    | some r₀ =>
      refine .reused hj hr₀ fun hst => hprior (hnone ?_)
      rw [show r.state = r₀.state from congrArg (·.state) (h.syncs.work_eq hr₀ hr)]
      exact hst

theorem RowSync.mem_other {j : String} (h : RowSync now j t u) {x : Job} (hx : x ∈ u.jobs) (hj : x.jobId ≠ j) :
    x ∈ t.jobs := by
  have hview := Ledger.job?_of_mem h.wellFormed hx
  have hsame : (t.view x.jobId).job = some x := by
    rw [← h.others _ hj]
    exact hview
  exact List.mem_of_find?_eq_some hsame

theorem RowSync.mem_old {j : String} (ht : t.WellFormed) (h : RowSync now j t u) {x : Job} (hx : x ∈ t.jobs)
    (hj : x.jobId ≠ j) : x ∈ u.jobs := by
  have hview := Ledger.job?_of_mem ht hx
  have hsame : (u.view x.jobId).job = some x := by
    rw [h.others _ hj]
    exact hview
  exact List.mem_of_find?_eq_some hsame

/-- One more row processed: its job joins the active ones, which were no job of it. -/
theorem Selection.row (h : Selection sha256 now s done t) (hs : s.WellFormed) {p : Selected}
    (hp : ∀ p' ∈ done, ¬(p'.batchId = p.batchId ∧ p'.row = p.row)) {cell : Cell}
    (hcell : t.cell? p.planDigest p.row.baseCell = some cell) {actor : String} {generation n c : Nat}
    (hroute : routeRow sha256 now actor generation p.batchId p.planDigest t p.row = .ok (u, n, c)) :
    Selection sha256 now s (done ++ [p]) u := by
  obtain ⟨j, r, hrow, hr, ha, hf, hc⟩ := routeRow_spec h.syncs.wellFormed hcell hroute
  have hsyncs : Syncs now t u := .of_row hrow
  have horigin := (h.origin hs hp hc).mono hcell hsyncs.cells
  have hrm : r ∈ u.jobs := List.mem_of_find?_eq_some hr
  have hrj : r.jobId = j := Ledger.job?_jobId hr
  have hself : ∀ x ∈ u.jobs, x.jobId = j → x = r := fun x hx hj =>
    key_injective hrow.wellFormed.jobs_nodup hx hrm (hj.trans hrj.symm)
  have hother : ∀ x ∈ u.jobs, x ≠ r → x ∈ t.jobs ∧ x.jobId ≠ j := fun x hx hne =>
    have hj : x.jobId ≠ j := fun hj => hne (hself x hx hj)
    ⟨hrow.mem_other hx hj, hj⟩
  have hinactive : ∀ x ∈ t.jobs, x.jobId = j → x.active = false := by
    intro x hx hj
    have hview : (t.view j).job = some x := hj ▸ Ledger.job?_of_mem h.syncs.wellFormed hx
    cases hc with
    | carried hr₀ ha₀ hf₀ hc₀ => rw [Option.some.inj (hview.symm.trans hr₀)]; exact ha₀
    | created hj₀ hnew hnone => rw [hnew] at hview; cases hview
    | reused hj₀ hr₀ hf₀ hnone =>
      rw [Option.some.inj (hview.symm.trans hr₀)]
      exact h.inactive hp (List.mem_of_find?_eq_some hr₀) hf₀
  refine ⟨h.syncs.trans hsyncs, ?_, ?_, ?_, ?_⟩
  · intro p' hp'
    rcases List.mem_append.mp hp' with hp' | hp'
    · obtain ⟨x, hx, hax, hfx⟩ := h.placed p' hp'
      have hj : x.jobId ≠ j := fun hj => by rw [hinactive x hx hj] at hax; cases hax
      exact ⟨x, hrow.mem_old h.syncs.wellFormed hx hj, hax, hfx.mono hsyncs.cells hsyncs.cells⟩
    · rw [List.mem_singleton.mp hp']
      exact ⟨r, hrm, ha, hf.mono hsyncs.cells hsyncs.cells⟩
  · intro x hx hax
    by_cases hxr : x = r
    · rw [hxr, hrj]
      exact ⟨p, by simp, hf.mono hsyncs.cells hsyncs.cells, horigin⟩
    · obtain ⟨p', hp', hfx, hox⟩ := h.active x (hother x hx hxr).1 hax
      obtain ⟨cell', hcell', -⟩ := hfx.cell
      exact ⟨p', List.mem_append_left _ hp', hfx.mono hsyncs.cells hsyncs.cells, hox.mono hcell' hsyncs.cells⟩
  · have hclash : ∀ x ∈ u.jobs, x.active = true → x ≠ r → x.batchId = r.batchId → x.queueRow = r.queueRow →
        False := by
      intro x hx hax hxr hb hq
      obtain ⟨p', hp', hfx, -⟩ := h.active x (hother x hx hxr).1 hax
      exact hp p' hp' ⟨hfx.batchId.symm.trans (hb.trans hf.batchId), hfx.queueRow.symm.trans (hq.trans hf.queueRow)⟩
    intro x hx y hy hax hay hb hq
    by_cases hxr : x = r
    · by_cases hyr : y = r
      · rw [hxr, hyr]
      · exact (hclash y hy hay hyr (hxr ▸ hb.symm) (hxr ▸ hq.symm)).elim
    · by_cases hyr : y = r
      · exact (hclash x hx hax hxr (hyr ▸ hb) (hyr ▸ hq)).elim
      · exact h.unique x (hother x hx hxr).1 y (hother y hy hyr).1 hax hay hb hq
  · intro x hx hnone
    by_cases hxr : x = r
    · rw [hxr]; exact ha
    · exact h.fresh x (hother x hx hxr).1 hnone

end Selections

end FidbPoc.Coordinator
