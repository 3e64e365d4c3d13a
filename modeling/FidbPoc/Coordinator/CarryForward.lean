import FidbPoc.Coordinator.Contenders

namespace FidbPoc.Coordinator

open FidbPoc.Lib FidbPoc.Lib.Table FidbPoc.Lib.Checked

def Error.Unambiguous (e : Error) : Prop := ∀ batchId row, e ≠ ambiguousCarry batchId row

theorem unambiguous_value (message : String) : (Error.value message).Unambiguous := fun _ _ he => by cases he

/-- Another coordinator error is told by the first character of its text. -/
theorem unambiguous_coordinator {start : String} {c : Char} (hstart : start.toList.head? = some c) (hc : c ≠ 'a')
    (rest : String) : (Error.coordinator (start ++ rest)).Unambiguous := by
  intro batchId row h
  have hhead := congrArg (fun message : String => message.toList.head?) (Error.coordinator.inj h)
  simp only [toString, String.toList_append, List.head?_append, hstart, Option.some_or] at hhead
  rw [show "ambiguous terminal job carry-forward for ".toList.head? = some 'a' by decide] at hhead
  exact hc (Option.some.inj hhead)

section Sync

variable {sha256 : String → String} {now : Time} {actor : String} {generation : Nat} {s t : Ledger}
  {done : List Selected}

theorem rowCandidates_nodup (ht : t.WellFormed) (batchId planDigest jobId : String) (row : QueueRow) :
    (rowCandidates t batchId planDigest jobId row).Nodup := by
  have hcarry : (carryCandidates t batchId planDigest jobId row).Nodup := by
    unfold carryCandidates
    rw [(List.perm_insertionSort carryOrder _).nodup_iff]
    exact (List.Nodup.of_map _ ht.jobs_nodup).filter _
  unfold rowCandidates
  split
  · exact hcarry
  · split
    · exact hcarry
    · exact List.nodup_nil

/-- Two jobs that one row may carry forward ended before the synchronization, with one authority. -/
theorem Selection.one_candidate (h : Selection sha256 now s done t) (hs : s.Exclusive) {p : Selected} {k k' : Job}
    (hk : k ∈ rowCandidates t p.batchId p.planDigest (p.jobId sha256) p.row)
    (hk' : k' ∈ rowCandidates t p.batchId p.planDigest (p.jobId sha256) p.row) : k = k' := by
  obtain ⟨hm, ha, -, hf, hc⟩ := mem_carryCandidates.mp (mem_rowCandidates hk)
  obtain ⟨hm', ha', -, hf', hc'⟩ := mem_carryCandidates.mp (mem_rowCandidates hk')
  obtain ⟨x, hx, hj, hauth, hcarry, -⟩ := h.prior hs hm ha
  obtain ⟨x', hx', hj', hauth', hcarry', -⟩ := h.prior hs hm' ha'
  have hsame : x = x' := hs.one x hx x' hx' (.inr (.inr (carryable_iff.mp (hcarry.trans hc))))
    (.inr (.inr (carryable_iff.mp (hcarry'.trans hc')))) (hauth.symm.trans ((hf.authority_eq hf').trans hauth'))
  exact key_injective h.syncs.wellFormed.jobs_nodup hm hm' (hj.symm.trans ((congrArg (·.jobId) hsame).trans hj'))

theorem createJob_raises (batchId planDigest jobId : String) (row : QueueRow) :
    RaisesOnly Error.Unambiguous (createJob now actor generation batchId planDigest jobId row t) := by
  unfold createJob Ledger.insertJob
  refine .bind (.bind (.require fun _ => ?_) fun _ _ => .ok _) fun _ _ =>
    Ledger.event_raises unambiguous_value _ _ _ _ _
  exact fun _ _ he => by cases he

theorem reuseJob_raises (batchId planDigest : String) (row : QueueRow) (existing : Job) :
    RaisesOnly Error.Unambiguous (reuseJob now generation batchId planDigest row existing t) :=
  .bind (.require fun _ => unambiguous_coordinator (c := 's') (by decide) (by decide) _) fun _ _ => .ok _

theorem routeRow_raises (h : Selection sha256 now s done t) (hs : s.Exclusive) (p : Selected) :
    RaisesOnly Error.Unambiguous (routeRow sha256 now actor generation p.batchId p.planDigest t p.row) := by
  have hnodup := rowCandidates_nodup h.syncs.wellFormed p.batchId p.planDigest (p.jobId sha256) p.row
  unfold routeRow
  rw [show stableJobId sha256 p.batchId p.planDigest p.row.baseCell p.row.factorVariants = p.jobId sha256 from rfl]
  cases hcands : rowCandidates t p.batchId p.planDigest (p.jobId sha256) p.row with
  | nil =>
    cases hown : t.job? (p.jobId sha256) with
    | none =>
      simp only [hcands, hown]
      exact .bind (createJob_raises _ _ _ _) fun _ _ => .ok _
    | some existing =>
      simp only [hcands, hown]
      exact .bind (reuseJob_raises _ _ _ _) fun _ _ => .ok _
  | cons carried rest =>
    cases rest with
    | nil =>
      simp only [hcands]
      exact .bind (Ledger.event_raises unambiguous_value _ _ _ _ _) fun _ _ => .ok _
    | cons second rest =>
      have hone : carried = second := h.one_candidate hs (p := p) (by simp [hcands]) (by simp [hcands])
      rw [hcands, hone] at hnodup
      simp at hnodup

theorem syncPlan_raises (resolved : ResolvedBatch) : RaisesOnly Error.Unambiguous (syncPlan now actor resolved t) := by
  unfold syncPlan
  dsimp only
  split
  · exact Ledger.event_raises unambiguous_value _ _ _ _ _
  · exact .bind (.require fun _ => unambiguous_coordinator (c := 'i') (by decide) (by decide) _) fun _ _ => .ok _

theorem syncCell_raises (planDigest : String) (cell : Cell) :
    RaisesOnly Error.Unambiguous (syncCell planDigest t cell) := by
  unfold syncCell
  split
  · exact .ok _
  · simp only [String.append_assoc]
    exact .bind (.require fun _ => unambiguous_coordinator (c := 'i') (by decide) (by decide) _) fun _ _ => .ok _

theorem syncBatch_raises {counts : SyncCounts} {resolved : ResolvedBatch} {position : Nat} (hs : s.WellFormed)
    (hex : s.Exclusive) (h : Selection sha256 now s done t) (hvalid : resolved.Valid)
    (hdone : ∀ p ∈ done, p.batchId ≠ resolved.batch.id) :
    RaisesOnly Error.Unambiguous (syncBatch sha256 now actor generation (counts, t) (resolved, position)) := by
  refine .bind (syncPlan_raises resolved) fun v hplan => ?_
  refine .bind (.foldlM (fun _ _ => syncCell_raises _ _) _ _) fun w hcells => ?_
  obtain ⟨hidle, hresolved, -⟩ := syncBatch_idles h.syncs.wellFormed hplan hcells
  -- the rows before the one that raises have been routed, and leave a selection
  intro e he
  obtain ⟨earlier, row, rest, ⟨counts', u⟩, hrows, hearlier, hrow⟩ := foldlM_eq_error he
  have hsub : ∀ x ∈ earlier, x ∈ resolved.rows := fun x hx => hrows ▸ List.mem_append_left _ hx
  have hpositions : (earlier.map (·.position)).Nodup := by
    refine ((List.Sublist.map _ ?_).nodup) hvalid.positions_nodup
    rw [hrows]
    exact List.sublist_append_left _ _
  obtain ⟨hsel, -⟩ := syncRows_selection hs (h.idle hidle.syncs hidle.jobs) hpositions
    (fun x hx => hvalid.stored_rows hresolved x (hsub x hx)) (fun p hp hb => (hdone p hp hb).elim) hearlier
  have hroute : RaisesOnly Error.Unambiguous
      (syncRow sha256 now actor generation resolved.batch.id resolved.plan.planDigest (counts', u) row) :=
    .bind (routeRow_raises hsel hex ⟨resolved.batch.id, resolved.plan.planDigest, row⟩) fun _ _ => .ok _
  exact hroute e hrow

/-- No synchronization of an exclusive ledger finds a row with two jobs to carry forward. -/
theorem syncResolved_raises {config : QueueConfig} {resolvePlan : BatchConfig → Result ResolvedPlan}
    {resolved : List ResolvedBatch} (hs : s.WellFormed) (hex : s.Exclusive)
    (hr : resolveQueue sha256 config resolvePlan = .ok resolved) :
    RaisesOnly Error.Unambiguous (syncResolved sha256 config resolved actor now s) := by
  refine .bind (fun e he => ?_) fun _ _ => Ledger.event_raises unambiguous_value _ _ _ _ _
  obtain ⟨earlier, ⟨rb, position⟩, rest, ⟨counts, t⟩, hzip, hearlier, hbatch⟩ := foldlM_eq_error he
  obtain ⟨hids, hvalid⟩ := zipped_batches hr
  have hnodup := config.batches_nodup
  rw [← hids, hzip, List.map_append, List.map_cons, List.nodup_append] at hnodup
  obtain ⟨hearlierIds, -, hdisjoint⟩ := hnodup
  obtain ⟨hsel, -⟩ := syncBatches_selection hs (openGeneration_selection hs).1
    (fun x hx => hvalid x (hzip ▸ List.mem_append_left _ hx)) hearlierIds (fun _ hp => (List.not_mem_nil hp).elim) hearlier
  refine syncBatch_raises hs hex hsel (hvalid (rb, position) (by simp [hzip])) ?_ e hbatch
  intro p hp
  rw [List.nil_append, List.mem_flatMap] at hp
  obtain ⟨x, hx, hp⟩ := hp
  obtain ⟨row, -, rfl⟩ := List.mem_map.mp hp
  exact hdisjoint _ (List.mem_map_of_mem hx) _ (by simp)

end Sync

theorem freshLedger_exclusive : freshLedger.Exclusive where
  resolved := fun _ h => (List.not_mem_nil h).elim
  one := fun _ h => (List.not_mem_nil h).elim

/-- A completed attempt is the only one of its job, whose execution counts. -/
theorem JobView.Mirrored.completed {v : JobView} (hv : v.Mirrored) {r : Job} (hr : v.job = some r) {a : Attempt}
    (ha : a ∈ v.attempts) (hc : a.state = .complete) :
    v.Ended r ∧ ∀ a' ∈ v.attempts, a'.state = .complete → a' = a := by
  obtain ⟨-, hm⟩ := hv r hr
  exact ⟨.inl ⟨(hm.complete_unique ha ha hc hc).2, a, ha, hc⟩,
    fun a' ha' hc' => (hm.complete_unique ha' ha hc' hc).1⟩

/-- As long as no committed synchronization selects a row whose job has a twin, no two
carryable jobs have one authority, no synchronization is stopped by an ambiguity, and
no authority is successfully executed twice. -/
theorem carryForward_unambiguous (sha256 : String → String) {trace : List (Step Ledger Op)} {s : Ledger}
    (h : History sha256 trace s) (htwin : ∀ st ∈ trace, Commits sha256 st → st.op.NoTwin sha256 st.before) :
    (∀ r ∈ s.jobs, ∀ r' ∈ s.jobs, carryable s r = true → carryable s r' = true →
      s.authority r = s.authority r' → r = r') ∧
    (∀ config resolvePlan resolved, resolveQueue sha256 config resolvePlan = .ok resolved →
      ∀ actor now batchId row, ((Op.syncQueue config resolvePlan actor now).apply sha256 s).1 ≠
        .error (ambiguousCarry batchId row)) ∧
    ∀ r ∈ s.jobs, ∀ r' ∈ s.jobs, s.authority r = s.authority r' →
      ∀ a ∈ s.attempts, ∀ a' ∈ s.attempts, a.jobId = r.jobId → a'.jobId = r'.jobId →
        a.state = .complete → a'.state = .complete → a = a' := by
  obtain ⟨hs, hmirror, hex⟩ := run_invariant (P := fun s => (∀ j, (s.view j).Mirrored) ∧ s.Exclusive) h
    freshLedger_wellFormed ⟨fun _ _ hr => (by cases hr), freshLedger_exclusive⟩ fun st hst hcommit _ hc ⟨hm, hex⟩ =>
      ⟨fun j => hc.invariant (fun _ _ _ hstep hv => hstep.mirrored hv) (hm j), hc.exclusive (htwin st hst hcommit) hm hex⟩
  refine ⟨?_, ?_, ?_⟩
  · intro r hr r' hr' hc hc' hauth
    exact hex.one r hr r' hr' (.inr (.inr (carryable_iff.mp hc))) (.inr (.inr (carryable_iff.mp hc'))) hauth
  · intro config resolvePlan resolved hresolved actor now batchId row he
    obtain ⟨hbody, -⟩ := transaction_error (Prod.ext he rfl)
    have hraises : RaisesOnly Error.Unambiguous (syncQueue sha256 config resolvePlan actor now s) := by
      rw [syncQueue, hresolved]
      exact syncResolved_raises hs hex hresolved
    exact hraises.map _ hbody batchId row rfl
  · intro r hr r' hr' hauth a ha a' ha' hj hj' hc hc'
    obtain ⟨hended, -⟩ := (hmirror r.jobId).completed (Ledger.job?_of_mem hs hr)
      (Ledger.mem_view_attempts.mpr ⟨ha, hj⟩) hc
    obtain ⟨hended', hone⟩ := (hmirror r'.jobId).completed (Ledger.job?_of_mem hs hr')
      (Ledger.mem_view_attempts.mpr ⟨ha', hj'⟩) hc'
    have hsame : r = r' := hex.one r hr r' hr' (.inr (.inr hended)) (.inr (.inr hended')) hauth
    exact hone a (Ledger.mem_view_attempts.mpr ⟨ha, hj.trans (congrArg (·.jobId) hsame)⟩) hc

namespace Sample

/-- A job completes, and its batch is resolved to a plan with another digest. -/
def carried : List Op :=
  [.syncQueue queueA (resolve "1") "coordinator" 0,
    .claim "worker" "first" none none none 1,
    .complete (jobId "a" "1") "first" 1 "done" 2,
    .syncQueue queueA (resolve "2") "coordinator" 3]

/-- The batch is resolved to another plan while its job runs, which creates a twin; both complete. -/
def twinned : List Op :=
  [.syncQueue queueA (resolve "1") "coordinator" 0,
    .claim "worker" "first" none none none 1,
    .syncQueue queueA (resolve "2") "coordinator" 2,
    .claim "worker" "second" none none none 3,
    .complete (jobId "a" "1") "first" 1 "done" 4,
    .complete (jobId "a" "2") "second" 1 "done" 5]

end Sample

/-- The completed job is carried forward, and the next refresh finds it alone. -/
theorem carryForward_unambiguous_carried :
    (∃ r ∈ (after id freshLedger Sample.carried).jobs, r.active = true ∧
        carryable (after id freshLedger Sample.carried) r = true) ∧
      ∀ batchId row, ((Op.syncQueue Sample.queueA (Sample.resolve "3") "coordinator" 4).apply id
        (after id freshLedger Sample.carried)).1 ≠ .error (ambiguousCarry batchId row) := by
  have htwin : ∀ st ∈ traceOf id freshLedger Sample.carried, st.op.NoTwin id st.before := by decide +kernel
  have hcarried : ∃ r ∈ (after id freshLedger Sample.carried).jobs, r.active = true ∧
      carryable (after id freshLedger Sample.carried) r = true := by decide +kernel
  obtain ⟨-, hsync, -⟩ := carryForward_unambiguous id (run_after id freshLedger Sample.carried)
    fun st hst _ => htwin st hst
  exact ⟨hcarried, hsync Sample.queueA (Sample.resolve "3") _ rfl "coordinator" 4⟩

/-- Two jobs of one authority are executed to the end, and stop the next refresh. -/
theorem carryForward_ambiguous :
    ∃ s, Reachable id s ∧
      (∃ r ∈ s.jobs, ∃ r' ∈ s.jobs, r ≠ r' ∧ carryable s r = true ∧ carryable s r' = true ∧
        s.authority r = s.authority r' ∧
        ∃ a ∈ s.attempts, ∃ a' ∈ s.attempts, a.jobId = r.jobId ∧ a'.jobId = r'.jobId ∧ a ≠ a' ∧
          a.state = .complete ∧ a'.state = .complete) ∧
      ((Op.syncQueue Sample.queueA (Sample.resolve "3") "coordinator" 6).apply id s).1 =
        .error (ambiguousCarry "a" (Sample.row "a")) :=
  ⟨_, reachable_after id Sample.twinned, by decide +kernel⟩

end FidbPoc.Coordinator
