import FidbPoc.Coordinator.Refinement

namespace FidbPoc.Coordinator

open FidbPoc.Lib FidbPoc.Lib.Table FidbPoc.Lib.Checked

/-- A job that executes a row of a resolved batch, on the cell that the row resolves to. -/
structure StandsFor (s : Ledger) (rb : ResolvedBatch) (row : QueueRow) (r : Job) : Prop where
  batchId : r.batchId = rb.batch.id
  baseCell : r.baseCellId = row.baseCell
  factorVariants : r.factorVariants = row.factorVariants
  queueRow : r.queueRow = row
  cell : ∃ cell ∈ rb.cells, cell.id = row.baseCell ∧ s.cell? r.planDigest r.baseCellId = some cell

section Rows

variable {resolved : List ResolvedBatch}

theorem mem_selectedRows {p : Selected} :
    p ∈ selectedRows resolved ↔ ∃ rb ∈ resolved, p.row ∈ rb.rows ∧ p = ⟨rb.batch.id, rb.plan.planDigest, p.row⟩ := by
  simp only [selectedRows, ResolvedBatch.selected, List.mem_flatMap, List.mem_map]
  constructor
  · rintro ⟨rb, hrb, row, hrow, rfl⟩
    exact ⟨rb, hrb, hrow, rfl⟩
  · rintro ⟨rb, hrb, hrow, hp⟩
    exact ⟨rb, hrb, p.row, hrow, hp.symm⟩

/-- The cell stored for a row is the one that the row resolves to now. -/
theorem Fits.standsFor {t u : Ledger} {rb : ResolvedBatch} {row : QueueRow} {r : Job} (hvalid : rb.Valid)
    (hcells : ∀ cell ∈ rb.cells, t.cell? rb.plan.planDigest cell.id = some cell) (hrow : row ∈ rb.rows)
    (h : Fits t u ⟨rb.batch.id, rb.plan.planDigest, row⟩ r) : StandsFor u rb row r := by
  obtain ⟨cell, hcell, hid⟩ := hvalid.row_cell row hrow
  obtain ⟨found, hfound, hjob⟩ := h.cell
  have hstored := hcells cell hcell
  rw [hid] at hstored
  obtain rfl := Option.some.inj (hfound.symm.trans hstored)
  exact ⟨h.batchId, h.baseCell, h.factorVariants, h.queueRow, found, hcell, hid, hjob⟩

/-- A job stands for one row: configured batches have distinct ids. -/
theorem StandsFor.unique {config : QueueConfig} {s : Ledger} {r : Job} {p p' : ResolvedBatch × QueueRow}
    (hbatches : resolved.map (·.batch) = config.batches) (hp : p.1 ∈ resolved) (hp' : p'.1 ∈ resolved)
    (h : StandsFor s p.1 p.2 r) (h' : StandsFor s p'.1 p'.2 r) : p' = p := by
  have hnodup : (resolved.map (·.batch.id)).Nodup := by
    have hids := config.batches_nodup
    rw [← hbatches, List.map_map] at hids
    exact hids
  have hbatch : p'.1 = p.1 := key_injective hnodup hp' hp (h'.batchId.symm.trans h.batchId)
  exact Prod.ext hbatch (h'.queueRow.symm.trans h.queueRow)

end Rows

/-- A synchronization that returns leaves one active job for every selected row, each
for one row, and the work of existing jobs as it was; one that raises leaves the ledger. -/
theorem syncQueue_selects_rows (sha256 : String → String) {s : Ledger} (h : Reachable sha256 s)
    (config : QueueConfig) (resolvePlan : BatchConfig → Result ResolvedPlan) (actor : String) (now : Time) :
    (∀ reply s', (Op.syncQueue config resolvePlan actor now).apply sha256 s = (.ok reply, s') →
      ∃ resolved, resolveQueue sha256 config resolvePlan = .ok resolved ∧
        (∀ rb ∈ resolved, ∀ row ∈ rb.rows, ∃ r ∈ s'.jobs, r.active = true ∧ StandsFor s' rb row r ∧
          ∀ r' ∈ s'.jobs, r'.active = true → r'.batchId = rb.batch.id → r'.queueRow = row → r' = r) ∧
        (∀ r ∈ s'.jobs, r.active = true →
          ∃! p : ResolvedBatch × QueueRow, p.1 ∈ resolved ∧ p.2 ∈ p.1.rows ∧ StandsFor s' p.1 p.2 r) ∧
        (∀ r ∈ s.jobs, ∃ r' ∈ s'.jobs, r'.jobId = r.jobId ∧ r'.work = r.work) ∧
        s'.attempts = s.attempts ∧ s'.stageAttempts = s.stageAttempts ∧ s'.quarantines = s.quarantines) ∧
    ∀ e s', (Op.syncQueue config resolvePlan actor now).apply sha256 s = (.error e, s') → s' = s := by
  obtain ⟨hs, -⟩ := reachable_invariant (P := fun _ => True) trivial (fun _ _ _ _ _ _ _ => trivial) h
  refine ⟨fun reply s' happly => ?_, fun e s' happly => (transaction_error happly).2⟩
  obtain ⟨u, hsync, he⟩ := map_eq_ok.mp (transaction_ok.mp happly)
  obtain ⟨-, rfl⟩ := Prod.mk.inj he
  obtain ⟨resolved, hresolved, hsynced⟩ := syncQueue_synchronized hs hsync
  obtain ⟨hbatches, hvalid⟩ := resolveQueue_valid hresolved
  have hsel := hsynced.selection
  refine ⟨resolved, hresolved, ?_, ?_, ?_, hsel.syncs.attempts, hsel.syncs.stageAttempts, hsel.syncs.quarantines⟩
  · intro rb hrb row hrow
    obtain ⟨r, hr, ha, hfits⟩ := hsel.placed ⟨rb.batch.id, rb.plan.planDigest, row⟩
      (mem_selectedRows.mpr ⟨rb, hrb, hrow, rfl⟩)
    refine ⟨r, hr, ha, hfits.standsFor (hvalid rb hrb) (hsynced.cells rb hrb) hrow, ?_⟩
    intro r' hr' ha' hb hq
    exact hsel.unique r' hr' r hr ha' ha (hb.trans hfits.batchId.symm) (hq.trans hfits.queueRow.symm)
  · intro r hr ha
    obtain ⟨p, hp, hfits, -⟩ := hsel.active r hr ha
    obtain ⟨rb, hrb, hrow, hrow'⟩ := mem_selectedRows.mp hp
    rw [hrow'] at hfits
    have hstands := hfits.standsFor (hvalid rb hrb) (hsynced.cells rb hrb) hrow
    refine ⟨(rb, p.row), ⟨hrb, hrow, hstands⟩, ?_⟩
    rintro p' ⟨hrb', -, hstands'⟩
    exact hstands.unique hbatches (p := (rb, p.row)) hrb hrb' hstands'
  · intro r hr
    obtain ⟨r', hr', hwork⟩ := hsel.syncs.work (Ledger.job?_of_mem hs hr)
    exact ⟨r', List.mem_of_find?_eq_some hr', congrArg (·.jobId) hwork, hwork⟩

/-- Both batches are resolved to new plans, with the rows and cells they had. -/
theorem syncQueue_selects_rows_refreshed :
    let s := after id freshLedger [.syncQueue Sample.queueAB (Sample.resolve "1") "coordinator" 0,
      .claim "worker" "first" none none none 1]
    ∃ reply s', (Op.syncQueue Sample.queueAB (Sample.resolve "2") "coordinator" 2).apply id s = (.ok reply, s') ∧
      s'.attempts = s.attempts ∧ ∀ r ∈ s.jobs, ∃ r' ∈ s'.jobs, r'.jobId = r.jobId ∧ r'.work = r.work := by
  intro s
  have hreach : Reachable id s := reachable_after id _
  obtain ⟨hsync, -⟩ := syncQueue_selects_rows id hreach Sample.queueAB (Sample.resolve "2") "coordinator" 2
  have hok : ((Op.syncQueue Sample.queueAB (Sample.resolve "2") "coordinator" 2).apply id s).1 = .ok .done := by
    decide
  obtain ⟨resolved, -, -, -, hwork, hattempts, -⟩ := hsync .done _ (Prod.ext hok rfl)
  exact ⟨.done, _, Prod.ext hok rfl, hattempts, hwork⟩

end FidbPoc.Coordinator
