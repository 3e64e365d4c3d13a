import FidbPoc.Coordinator.Selection

namespace FidbPoc.Coordinator

open FidbPoc.Lib.Table FidbPoc.Lib.Checked

/-- What resolution guarantees of a batch: distinct positions, and a cell for every row. -/
structure ResolvedBatch.Valid (resolved : ResolvedBatch) : Prop where
  positions_nodup : (resolved.rows.map (·.position)).Nodup
  row_cell : ∀ row ∈ resolved.rows, ∃ cell ∈ resolved.cells, cell.id = row.baseCell

theorem ResolvedBatch.Valid.stored_rows {resolved : ResolvedBatch} (h : resolved.Valid) {s : Ledger}
    (hcells : ∀ cell ∈ resolved.cells, s.cell? resolved.plan.planDigest cell.id = some cell) :
    ∀ row ∈ resolved.rows, ∃ cell, s.cell? resolved.plan.planDigest row.baseCell = some cell := by
  intro row hrow
  obtain ⟨cell, hcell, hid⟩ := h.row_cell row hrow
  exact ⟨cell, hid ▸ hcells cell hcell⟩

section Resolution

variable {sha256 : String → String}

theorem resolveBatch_valid {batch : BatchConfig} {plan : ResolvedPlan} {resolved : ResolvedBatch}
    (h : resolveBatch sha256 batch plan = .ok resolved) :
    resolved.batch = batch ∧ resolved.plan = plan ∧ resolved.Valid := by
  simp only [resolveBatch, bind_eq_ok, pure_eq_ok] at h
  obtain ⟨_, _, _, _, _, _, _, _, _, _, rfl⟩ := h
  refine ⟨rfl, rfl, ?_, ?_⟩
  · exact (List.filter_sublist.map _).nodup plan.positions_nodup
  · intro row hrow
    obtain ⟨-, hmem⟩ := List.mem_filter.mp hrow
    exact List.mem_map.mp (of_decide_eq_true hmem)

theorem resolveQueue_valid {config : QueueConfig} {resolvePlan : BatchConfig → Result ResolvedPlan}
    {resolved : List ResolvedBatch} (h : resolveQueue sha256 config resolvePlan = .ok resolved) :
    resolved.map (·.batch) = config.batches ∧ ∀ rb ∈ resolved, rb.Valid := by
  have hall := mapM_eq_ok h
  clear h
  generalize config.batches = batches at hall ⊢
  induction hall with
  | nil => exact ⟨rfl, fun _ h => (List.not_mem_nil h).elim⟩
  | cons hx _ ih =>
    obtain ⟨plan, -, hresolve⟩ := bind_eq_ok.mp hx
    obtain ⟨hbatch, -, hvalid⟩ := resolveBatch_valid hresolve
    refine ⟨by rw [List.map_cons, hbatch, ih.1], ?_⟩
    intro rb hrb
    rcases List.mem_cons.mp hrb with rfl | hrb
    · exact hvalid
    · exact ih.2 rb hrb

end Resolution

/-- Work of a synchronization beside the job rows. -/
structure Idles (now : Time) (s s' : Ledger) : Prop where
  syncs : Syncs now s s'
  jobs : s'.jobs = s.jobs
  state : s'.state = s.state

theorem Idles.trans {now : Time} {s t u : Ledger} (h : Idles now s t) (h' : Idles now t u) : Idles now s u :=
  ⟨h.syncs.trans h'.syncs, h'.jobs.trans h.jobs, h'.state.trans h.state⟩

section Batches

variable {sha256 : String → String} {now : Time} {actor : String} {generation : Nat} {s t u : Ledger}
  {done : List Selected}

theorem syncPlan_idles {resolved : ResolvedBatch} (ht : t.WellFormed) (h : syncPlan now actor resolved t = .ok u) :
    Idles now t u ∧ u.batches = t.batches := by
  unfold syncPlan at h
  dsimp only at h
  split at h
  · have hwf : (t.insertPlan ⟨resolved.plan.planDigest, resolved.plan.schemaVersion, resolved.plan.name,
        resolved.plan, now⟩).WellFormed := ht.congr ht.batches_nodup rfl rfl rfl rfl rfl
    obtain ⟨hstill, hstate⟩ := Still.event hwf rfl h
    have hfirst : Syncs now t (t.insertPlan ⟨resolved.plan.planDigest, resolved.plan.schemaVersion,
        resolved.plan.name, resolved.plan, now⟩) :=
      ⟨hwf, fun _ _ => .refl, rfl, rfl, rfl, fun _ _ _ => id⟩
    exact ⟨⟨hfirst.trans (.of_still hstill), hstill.jobs, hstate⟩, hstill.batches⟩
  · simp only [bind_eq_ok, pure_eq_ok] at h
    obtain ⟨_, _, rfl⟩ := h
    exact ⟨⟨.of_still (Still.refl ht), rfl, rfl⟩, rfl⟩

theorem cell?_insertCell {d c d' c' : String} {cell : Cell} {found : Cell} (h : t.cell? d' c' = some found) :
    (t.insertCell ⟨d, c, cell⟩).cell? d' c' = some found := by
  simp only [Ledger.cell?, Ledger.insertCell, Option.map_eq_some_iff] at h ⊢
  obtain ⟨x, hx, rfl⟩ := h
  exact ⟨x, by rw [List.find?_append, hx]; rfl, rfl⟩

theorem syncCell_idles {planDigest : String} {cell : Cell} (ht : t.WellFormed)
    (h : syncCell planDigest t cell = .ok u) :
    Idles now t u ∧ u.batches = t.batches ∧ u.cell? planDigest cell.id = some cell := by
  unfold syncCell at h
  split at h
  · rename_i hnone
    rw [pure_eq_ok] at h
    subst h
    refine ⟨⟨⟨ht.congr ht.batches_nodup rfl rfl rfl rfl rfl, fun _ _ => .refl, rfl, rfl, rfl,
      fun _ _ _ => cell?_insertCell⟩, rfl, rfl⟩, rfl, ?_⟩
    simp only [Ledger.cell?, Option.map_eq_none_iff] at hnone
    simp only [Ledger.cell?, Ledger.insertCell, List.find?_append, hnone]
    simp
  · rename_i existing hsome
    simp only [bind_eq_ok, require_eq_ok, pure_eq_ok] at h
    obtain ⟨_, rfl, rfl⟩ := h
    exact ⟨⟨.of_still (Still.refl ht), rfl, rfl⟩, rfl, hsome⟩

theorem syncCells_idles {planDigest : String} {cells : List Cell} (ht : t.WellFormed)
    (h : cells.foldlM (syncCell planDigest) t = .ok u) :
    Idles now t u ∧ u.batches = t.batches ∧ ∀ cell ∈ cells, u.cell? planDigest cell.id = some cell := by
  induction cells generalizing t with
  | nil =>
    rw [List.foldlM_nil, pure_eq_ok] at h
    subst h
    exact ⟨⟨.of_still (Still.refl ht), rfl, rfl⟩, rfl, fun _ h => (List.not_mem_nil h).elim⟩
  | cons cell cells ih =>
    rw [List.foldlM_cons, bind_eq_ok] at h
    obtain ⟨v, hv, h⟩ := h
    obtain ⟨hfirst, hbatches, hcell⟩ : Idles now t v ∧ _ := syncCell_idles ht hv
    obtain ⟨hrest, hbatches', hcells⟩ := ih hfirst.syncs.wellFormed h
    refine ⟨hfirst.trans hrest, hbatches'.trans hbatches, ?_⟩
    intro c hc
    rcases List.mem_cons.mp hc with rfl | hc
    · exact hrest.syncs.cells _ _ _ hcell
    · exact hcells c hc

theorem activeBatch?_isSome {b : String} :
    (t.activeBatch? b).isSome = true ↔ ∃ r ∈ t.batches, r.batchId = b ∧ r.active = true := by
  rw [Ledger.activeBatch?, List.find?_isSome]
  simp only [Bool.and_eq_true, decide_eq_true_eq]

theorem upsertBatch_idles {position : Nat} {resolved : ResolvedBatch} (ht : t.WellFormed) :
    Idles now t (upsertBatch now generation position resolved t) ∧ ∀ b,
      ((upsertBatch now generation position resolved t).activeBatch? b).isSome = true ↔
        (t.activeBatch? b).isSome = true ∨ b = resolved.batch.id := by
  unfold upsertBatch
  dsimp only
  split
  · rename_i hnone
    have hfresh : ∀ r ∈ t.batches, r.batchId ≠ resolved.batch.id := by
      simpa [Ledger.batch?] using hnone
    refine ⟨⟨⟨ht.congr ?_ rfl rfl rfl rfl rfl, fun _ _ => .refl, rfl, rfl, rfl, fun _ _ _ => id⟩, rfl, rfl⟩, ?_⟩
    · simp only [Ledger.insertBatch, List.map_append, List.map_cons, List.map_nil, List.nodup_append,
        List.nodup_singleton, List.mem_map, List.mem_singleton]
      refine ⟨ht.batches_nodup, trivial, ?_⟩
      rintro _ ⟨r, hr, rfl⟩ _ rfl
      exact hfresh r hr
    · intro b
      simp only [activeBatch?_isSome, Ledger.insertBatch, List.mem_append, List.mem_singleton]
      constructor
      · rintro ⟨r, hr | rfl, hb, ha⟩
        · exact .inl ⟨r, hr, hb, ha⟩
        · exact .inr hb.symm
      · rintro (⟨r, hr, hb, ha⟩ | rfl)
        · exact ⟨r, .inl hr, hb, ha⟩
        · exact ⟨_, .inr rfl, rfl, rfl⟩
  · rename_i existing hsome
    have hm : existing ∈ t.batches := List.mem_of_find?_eq_some hsome
    have hid : existing.batchId = resolved.batch.id := by simpa using List.find?_some hsome
    refine ⟨⟨⟨ht.congr ?_ rfl rfl rfl rfl rfl, fun _ _ => .refl, rfl, rfl, rfl, fun _ _ _ => id⟩, rfl, rfl⟩, ?_⟩
    · simp only [Ledger.updateBatches]
      rw [map_updateWhere]
      · exact ht.batches_nodup
      · exact fun _ _ => rfl
    · intro b
      simp only [activeBatch?_isSome, Ledger.updateBatches, mem_updateWhere]
      constructor
      · rintro ⟨_, ⟨r, hr, rfl⟩, hb, ha⟩
        by_cases hrid : r.batchId = resolved.batch.id
        · simp only [hrid, decide_true, if_true] at hb
          exact .inr hb.symm
        · simp only [hrid, decide_false, Bool.false_eq_true, if_false] at hb ha
          exact .inl ⟨r, hr, hb, ha⟩
      · rintro (⟨r, hr, hb, ha⟩ | rfl)
        · refine ⟨_, ⟨r, hr, rfl⟩, ?_⟩
          by_cases hrid : r.batchId = resolved.batch.id
          · simp only [hrid, decide_true, if_true]
            exact ⟨hrid.symm.trans hb, trivial⟩
          · simp only [hrid, decide_false, Bool.false_eq_true, if_false]
            exact ⟨hb, ha⟩
        · refine ⟨_, ⟨existing, hm, rfl⟩, ?_⟩
          simp only [hid, decide_true, if_true]
          exact ⟨trivial, trivial⟩

/-- The rows of one batch, processed in order. -/
theorem syncRows_selection {batchId planDigest : String} {rows : List QueueRow} {counts counts' : SyncCounts}
    (hs : s.WellFormed) (h : Selection sha256 now s done t)
    (hrows : (rows.map (·.position)).Nodup)
    (hcells : ∀ row ∈ rows, ∃ cell, t.cell? planDigest row.baseCell = some cell)
    (hdone : ∀ p ∈ done, p.batchId = batchId → p.row ∉ rows)
    (hsync : rows.foldlM (syncRow sha256 now actor generation batchId planDigest) (counts, t) = .ok (counts', u)) :
    Selection sha256 now s (done ++ rows.map (fun row => ⟨batchId, planDigest, row⟩)) u ∧
      u.batches = t.batches ∧ u.state = t.state ∧ u.resolvedCells = t.resolvedCells := by
  induction rows generalizing done t counts with
  | nil =>
    rw [List.foldlM_nil, pure_eq_ok] at hsync
    obtain ⟨-, rfl⟩ := Prod.mk.inj hsync
    exact ⟨by simpa using h, rfl, rfl, rfl⟩
  | cons row rows ih =>
    simp only [List.foldlM_cons, syncRow, bind_eq_ok, pure_eq_ok] at hsync
    obtain ⟨_, ⟨⟨v, created, carried⟩, hroute, rfl⟩, hsync⟩ := hsync
    obtain ⟨hfirst, hrest⟩ := List.nodup_cons.mp hrows
    obtain ⟨cell, hcell⟩ := hcells row (by simp)
    have hfresh : ∀ p' ∈ done, ¬(p'.batchId = batchId ∧ p'.row = row) := by
      rintro p' hp' ⟨hb, hr⟩
      exact hdone p' hp' hb (by simp [hr])
    obtain ⟨j, r, hrow, -⟩ := routeRow_spec (p := ⟨batchId, planDigest, row⟩) h.syncs.wellFormed hcell hroute
    have hnext := h.row (p := ⟨batchId, planDigest, row⟩) hs hfresh hcell hroute
    have hcells' : ∀ row ∈ rows, ∃ cell, v.cell? planDigest row.baseCell = some cell := by
      intro row' hrow'
      obtain ⟨cell', hcell'⟩ := hcells row' (List.mem_cons_of_mem _ hrow')
      exact ⟨cell', (Syncs.of_row hrow).cells _ _ _ hcell'⟩
    have hdone' : ∀ p ∈ done ++ [⟨batchId, planDigest, row⟩], p.batchId = batchId → p.row ∉ rows := by
      intro p hp hb hmem
      rcases List.mem_append.mp hp with hp | hp
      · exact hdone p hp hb (List.mem_cons_of_mem _ hmem)
      · rw [List.mem_singleton.mp hp] at hmem
        exact hfirst (List.mem_map_of_mem hmem)
    obtain ⟨hsel, hbatches, hstate, hresolved⟩ := ih hnext hrest hcells' hdone' hsync
    exact ⟨by simpa using hsel, hbatches.trans hrow.batches, hstate.trans hrow.state,
      hresolved.trans hrow.resolvedCells⟩

/-- The cells of `t` are kept, and those of a resolved batch are among the cells of `u`. -/
def ResolvedBatch.Stored (resolved : ResolvedBatch) (t u : Ledger) : Prop :=
  (∀ d c cell, t.cell? d c = some cell → u.cell? d c = some cell) ∧
    ∀ cell ∈ resolved.cells, u.cell? resolved.plan.planDigest cell.id = some cell

/-- The plan, the batch and the cells of a resolved batch are stored before its rows are routed. -/
theorem syncBatch_idles {resolved : ResolvedBatch} {position : Nat} {v w : Ledger} (ht : t.WellFormed)
    (hplan : syncPlan now actor resolved t = .ok v)
    (hcells : resolved.cells.foldlM (syncCell resolved.plan.planDigest) (upsertBatch now generation position resolved v) =
      .ok w) :
    Idles now t w ∧ (∀ cell ∈ resolved.cells, w.cell? resolved.plan.planDigest cell.id = some cell) ∧
      ∀ b, (w.activeBatch? b).isSome = true ↔ (t.activeBatch? b).isSome = true ∨ b = resolved.batch.id := by
  obtain ⟨hplan, hplanBatches⟩ := syncPlan_idles ht hplan
  obtain ⟨hbatch, hactive⟩ : Idles now v (upsertBatch now generation position resolved v) ∧ _ :=
    upsertBatch_idles hplan.syncs.wellFormed
  obtain ⟨hcells, hcellBatches, hresolved⟩ : Idles now _ w ∧ _ := syncCells_idles hbatch.syncs.wellFormed hcells
  refine ⟨(hplan.trans hbatch).trans hcells, hresolved, fun b => ?_⟩
  have hsame : w.activeBatch? b = (upsertBatch now generation position resolved v).activeBatch? b := by
    simp only [Ledger.activeBatch?, hcellBatches]
  have hfirst : v.activeBatch? b = t.activeBatch? b := by
    simp only [Ledger.activeBatch?, hplanBatches]
  rw [hsame, hactive b, hfirst]

theorem syncBatch_selection {resolved : ResolvedBatch} {position : Nat} {counts counts' : SyncCounts}
    (hs : s.WellFormed) (h : Selection sha256 now s done t) (hvalid : resolved.Valid)
    (hdone : ∀ p ∈ done, p.batchId ≠ resolved.batch.id)
    (hsync : syncBatch sha256 now actor generation (counts, t) (resolved, position) = .ok (counts', u)) :
    Selection sha256 now s (done ++ resolved.selected) u ∧ u.state = t.state ∧ resolved.Stored t u ∧
      ∀ b, (u.activeBatch? b).isSome = true ↔ (t.activeBatch? b).isSome = true ∨ b = resolved.batch.id := by
  simp only [syncBatch, bind_eq_ok] at hsync
  obtain ⟨v, hplan, w, hcells, hrows⟩ := hsync
  obtain ⟨hidle, hresolved, hactive⟩ := syncBatch_idles h.syncs.wellFormed hplan hcells
  obtain ⟨hsel, hbatches, hstate, hcellRows⟩ := syncRows_selection hs (h.idle hidle.syncs hidle.jobs)
    hvalid.positions_nodup (hvalid.stored_rows hresolved) (fun p hp hb => (hdone p hp hb).elim) hrows
  have hkept : ∀ d c, u.cell? d c = w.cell? d c := fun d c => by simp only [Ledger.cell?, hcellRows]
  refine ⟨hsel, hstate.trans hidle.state, ⟨?_, ?_⟩, ?_⟩
  · intro d c cell hcell
    rw [hkept]
    exact hidle.syncs.cells d c cell hcell
  · intro cell hcell
    rw [hkept]
    exact hresolved cell hcell
  · intro b
    rw [← hactive b]
    simp only [Ledger.activeBatch?, hbatches]

theorem syncBatches_selection {batches : List (ResolvedBatch × Nat)} {counts counts' : SyncCounts}
    (hs : s.WellFormed) (h : Selection sha256 now s done t) (hvalid : ∀ rb ∈ batches, rb.1.Valid)
    (hids : (batches.map (·.1.batch.id)).Nodup)
    (hdone : ∀ p ∈ done, p.batchId ∉ batches.map (·.1.batch.id))
    (hsync : batches.foldlM (syncBatch sha256 now actor generation) (counts, t) = .ok (counts', u)) :
    Selection sha256 now s (done ++ batches.flatMap (·.1.selected)) u ∧ u.state = t.state ∧
      (∀ d c cell, t.cell? d c = some cell → u.cell? d c = some cell) ∧ (∀ rb ∈ batches, rb.1.Stored t u) ∧
      ∀ b, (u.activeBatch? b).isSome = true ↔
        (t.activeBatch? b).isSome = true ∨ b ∈ batches.map (·.1.batch.id) := by
  induction batches generalizing done t counts with
  | nil =>
    rw [List.foldlM_nil, pure_eq_ok] at hsync
    obtain ⟨-, rfl⟩ := Prod.mk.inj hsync
    exact ⟨by simpa using h, rfl, fun _ _ _ => id, fun _ h => (List.not_mem_nil h).elim, by simp⟩
  | cons rb batches ih =>
    rw [List.foldlM_cons, bind_eq_ok] at hsync
    obtain ⟨⟨counts₁, v⟩, hfirst, hsync⟩ := hsync
    obtain ⟨hfresh, hrest⟩ := List.nodup_cons.mp hids
    obtain ⟨hsel, hstate, hstored, hactive⟩ := syncBatch_selection hs h (hvalid rb (by simp))
      (fun p hp he => hdone p hp (by simp [he])) hfirst
    have hdone' : ∀ p ∈ done ++ rb.1.selected, p.batchId ∉ batches.map (·.1.batch.id) := by
      intro p hp hmem
      rcases List.mem_append.mp hp with hp | hp
      · exact hdone p hp (List.mem_cons_of_mem _ hmem)
      · obtain ⟨row, -, rfl⟩ := List.mem_map.mp hp
        exact hfresh hmem
    obtain ⟨hsel', hstate', hkept, hrestStored, hactive'⟩ :=
      ih hsel (fun x hx => hvalid x (List.mem_cons_of_mem _ hx)) hrest hdone' hsync
    have hkeptAll := fun d c cell hc => hkept d c cell (hstored.1 d c cell hc)
    refine ⟨by simpa using hsel', hstate'.trans hstate, hkeptAll, ?_, ?_⟩
    · intro x hx
      rcases List.mem_cons.mp hx with rfl | hx
      · exact ⟨hkeptAll, fun cell hc => hkept _ _ _ (hstored.2 cell hc)⟩
      · exact ⟨hkeptAll, (hrestStored x hx).2⟩
    intro b
    rw [hactive' b, hactive b, List.map_cons, List.mem_cons]
    tauto

theorem openGeneration_selection {config : QueueConfig} (hs : s.WellFormed) :
    Selection sha256 now s [] (openGeneration config now s) ∧
      ∀ b, ¬((openGeneration config now s).activeBatch? b).isSome = true := by
  have hjobs : ∀ r ∈ (openGeneration config now s).jobs, r.active = false ∧ r.jobId ∈ s.jobs.map (·.jobId) := by
    intro r hr
    obtain ⟨x, hx, rfl⟩ := mem_updateWhere.mp hr
    exact ⟨rfl, List.mem_map_of_mem (f := (·.jobId)) hx⟩
  have hview : ∀ j, (openGeneration config now s).view j =
      { s.view j with job := (s.view j).job.map (fun r => { r with active := false }) } :=
    fun j => Ledger.view_updateJobs (s := s.updateBatches (fun _ => true) (fun r => { r with active := false }))
      (p := fun _ => true) (f := fun r => { r with active := false }) (fun _ _ => rfl) j
  refine ⟨⟨⟨?_, ?_, rfl, rfl, rfl, fun _ _ _ => id⟩, ?_, ?_, ?_, ?_⟩, ?_⟩
  · have hbatches : (s.updateBatches (fun _ => true) (fun r => { r with active := false })).WellFormed := by
      refine hs.congr ?_ rfl rfl rfl rfl rfl
      simp only [Ledger.updateBatches]
      rw [map_updateWhere]
      · exact hs.batches_nodup
      · exact fun _ _ => rfl
    exact (hbatches.updateJobs (p := fun _ => true) (f := fun r => { r with active := false })
      (fun _ _ => rfl)).congr hbatches.batches_nodup rfl rfl rfl rfl rfl
  · intro j n
    rw [hview]
    cases hr : (s.view j).job with
    | none =>
      rw [Option.map_none, ← hr]
    | some r => exact .single ⟨.deselected, .inl rfl, .deselected hr⟩
  · exact fun _ hp => (List.not_mem_nil hp).elim
  · intro r hr ha
    rw [(hjobs r hr).1] at ha
    cases ha
  · intro r hr _ _ ha
    rw [(hjobs r hr).1] at ha
    cases ha
  · intro r hr hnone
    exact absurd (hjobs r hr).2 (Ledger.job?_eq_none.mp hnone)
  · intro b hb
    obtain ⟨r, hr, -, ha⟩ := activeBatch?_isSome.mp hb
    obtain ⟨x, -, rfl⟩ := mem_updateWhere.mp hr
    cases ha

end Batches

/-- A completed synchronization: the selection of every row, the batches left
active, and the columns of the queue state that other operations read. -/
structure Synchronized (sha256 : String → String) (now : Time) (config : QueueConfig)
    (resolved : List ResolvedBatch) (s s' : Ledger) : Prop where
  selection : Selection sha256 now s (selectedRows resolved) s'
  cells : ∀ rb ∈ resolved, ∀ cell ∈ rb.cells, s'.cell? rb.plan.planDigest cell.id = some cell
  activeBatch : ∀ b, (s'.activeBatch? b).isSome = true ↔ b ∈ config.batches.map (·.id)
  activeBatchId : s'.state.activeBatchId =
    s.state.activeBatchId.filter (fun b => decide (b ∈ config.batches.map (·.id)))
  lookaheadBatchId : s'.state.lookaheadBatchId =
    s.state.lookaheadBatchId.filter (fun b => decide (b ∈ config.batches.map (·.id)))
  maxWorkers : s'.state.maxWorkers = config.maxWorkers
  maxAttempts : s'.state.maxAttempts = config.maxAttempts

theorem keep_eq_filter {t : Ledger} {ids : List String} (h : ∀ b, (t.activeBatch? b).isSome = true ↔ b ∈ ids)
    (id : Option String) :
    (if id.any (fun b => (t.activeBatch? b).isNone) = true then none else id) =
      id.filter (fun b => decide (b ∈ ids)) := by
  cases id with
  | none => rfl
  | some b =>
    by_cases hb : b ∈ ids
    · have hsome := (h b).mpr hb
      simp only [Option.any_some, Option.filter, hb, decide_true, if_true]
      rw [if_neg]
      rw [Option.isNone_iff_eq_none]
      exact Option.isSome_iff_ne_none.mp hsome
    · have hnone : ¬(t.activeBatch? b).isSome = true := fun hs => hb ((h b).mp hs)
      simp only [Option.any_some, Option.filter, hb, decide_false, Bool.false_eq_true, if_false]
      rw [if_pos]
      simpa using hnone

/-- The batches as a synchronization numbers them. -/
theorem zipped_batches {sha256 : String → String} {config : QueueConfig}
    {resolvePlan : BatchConfig → Result ResolvedPlan} {resolved : List ResolvedBatch}
    (h : resolveQueue sha256 config resolvePlan = .ok resolved) :
    (resolved.zipIdx 1).map (·.1.batch.id) = config.batches.map (·.id) ∧ ∀ x ∈ resolved.zipIdx 1, x.1.Valid := by
  obtain ⟨hbatches, hvalid⟩ := resolveQueue_valid h
  have hfst : (resolved.zipIdx 1).map (·.1) = resolved := by simp
  refine ⟨?_, fun x hx => hvalid x.1 ?_⟩
  · conv_rhs => rw [← hbatches, ← hfst]
    simp only [List.map_map, Function.comp_def]
  · have hmem := List.mem_map_of_mem (f := (·.1)) hx
    rwa [hfst] at hmem

theorem syncQueue_synchronized {sha256 : String → String} {config : QueueConfig}
    {resolvePlan : BatchConfig → Result ResolvedPlan} {actor : String} {now : Time} {s s' : Ledger}
    (hs : s.WellFormed) (h : syncQueue sha256 config resolvePlan actor now s = .ok s') :
    ∃ resolved, resolveQueue sha256 config resolvePlan = .ok resolved ∧
      Synchronized sha256 now config resolved s s' := by
  simp only [syncQueue, syncResolved, bind_eq_ok] at h
  obtain ⟨resolved, hresolved, ⟨counts, t⟩, hloop, hevent⟩ := h
  refine ⟨resolved, hresolved, ?_⟩
  obtain ⟨hids, hvalid⟩ := zipped_batches hresolved
  have hfst : (resolved.zipIdx 1).map (·.1) = resolved := by simp
  have hselected : (resolved.zipIdx 1).flatMap (·.1.selected) = selectedRows resolved := by
    rw [selectedRows, ← hfst, List.flatMap_map]
    simp
  obtain ⟨hopen, hnone⟩ : Selection sha256 now s [] (openGeneration config now s) ∧ _ :=
    openGeneration_selection hs
  obtain ⟨hsel, hstate, -, hstored, hactive⟩ := syncBatches_selection hs hopen hvalid
    (by rw [hids]; exact config.batches_nodup) (fun _ hp => (List.not_mem_nil hp).elim) hloop
  have hactive : ∀ b, (t.activeBatch? b).isSome = true ↔ b ∈ config.batches.map (·.id) := by
    intro b
    rw [hactive b, hids]
    exact ⟨fun hb => hb.resolve_left (hnone b), .inr⟩
  rw [List.nil_append, hselected] at hsel
  have hclear : Still t (clearAdmissions t) := by
    unfold clearAdmissions
    exact Still.updateState hsel.syncs.wellFormed _
  obtain ⟨hlast, hfinal⟩ := Still.event hclear.wellFormed rfl hevent
  have hstill := hclear.trans hlast
  have hsame : ∀ b, s'.activeBatch? b = t.activeBatch? b := by
    intro b
    simp only [Ledger.activeBatch?, hstill.batches]
  refine ⟨hsel.idle (.of_still hstill) hstill.jobs, ?_, ?_, ?_, ?_, ?_, ?_⟩
  · intro rb hrb cell hcell
    rw [← hfst] at hrb
    obtain ⟨x, hx, rfl⟩ := List.mem_map.mp hrb
    have hfound := (hstored x hx).2 cell hcell
    simp only [Ledger.cell?, hstill.resolvedCells] at hfound ⊢
    exact hfound
  · intro b
    rw [hsame b, hactive b]
  · rw [hfinal]
    simp only [clearAdmissions, Ledger.updateState]
    rw [keep_eq_filter hactive, hstate]
    rfl
  · rw [hfinal]
    simp only [clearAdmissions, Ledger.updateState]
    rw [keep_eq_filter hactive, hstate]
    rfl
  · rw [hfinal]
    simp only [clearAdmissions, Ledger.updateState, hstate]
    rfl
  · rw [hfinal]
    simp only [clearAdmissions, Ledger.updateState, hstate]
    rfl

end FidbPoc.Coordinator
