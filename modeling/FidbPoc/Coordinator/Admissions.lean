import FidbPoc.Coordinator.Refinement

namespace FidbPoc.Coordinator

open FidbPoc.Lib FidbPoc.Lib.Checked

/-- The look-ahead, if any, stands behind a primary and is a batch of the queue. -/
def LookaheadBehind (s : Ledger) : Prop :=
  ∀ b, s.state.lookaheadBatchId = some b →
    (∃ a, s.state.activeBatchId = some a ∧ a ≠ b) ∧ b ∈ s.batches.map (·.batchId)

/-- A synchronization that keeps the batch of the look-ahead keeps that of the primary. -/
def Op.KeepsPrimary (op : Op) (s : Ledger) : Prop :=
  ∀ config ∈ op.synced, ∀ a ∈ s.state.activeBatchId, ∀ b ∈ s.state.lookaheadBatchId,
    b ∈ config.batches.map (·.id) → a ∈ config.batches.map (·.id)

instance (op : Op) (s : Ledger) : Decidable (op.KeepsPrimary s) :=
  inferInstanceAs (Decidable (∀ config ∈ op.synced, ∀ a ∈ s.state.activeBatchId,
    ∀ b ∈ s.state.lookaheadBatchId, b ∈ config.batches.map (·.id) → a ∈ config.batches.map (·.id)))

theorem LookaheadBehind.congr {s s' : Ledger} (h : LookaheadBehind s) (hb : s'.batches = s.batches)
    (hactive : s'.state.activeBatchId = s.state.activeBatchId)
    (hlook : s'.state.lookaheadBatchId = s.state.lookaheadBatchId) : LookaheadBehind s' := by
  intro b hlook'
  rw [hb, hactive]
  exact h b (hlook ▸ hlook')

theorem LookaheadBehind.admission {s s' : Ledger} (h : LookaheadBehind s) (hb : s'.batches = s.batches)
    (hstep : AdmissionStep s s'.state) : LookaheadBehind s' := by
  generalize hc : s'.state = c at hstep
  cases hstep with
  | stayed => exact h.congr hb (by rw [hc]) (by rw [hc])
  | admitted ha hl =>
    intro b hlook
    rw [hc] at hlook
    cases hl.symm.trans hlook
  | @lookahead primaryId batchId admission ha hl hne hmem =>
    intro b hlook
    rw [hc] at hlook
    obtain rfl : batchId = b := Option.some.inj hlook
    exact ⟨⟨primaryId, by rw [hc]; exact ha, hne⟩, by rw [hb]; exact hmem⟩
  | drained ha =>
    intro b hlook
    rw [hc] at hlook
    cases hlook

theorem Frame.state_eq {s s' : Ledger} (h : Frame s s') :
    s'.state.activeBatchId = s.state.activeBatchId ∧ s'.state.lookaheadBatchId = s.state.lookaheadBatchId := by
  obtain ⟨paused, hstate⟩ := h.state
  rw [hstate]
  exact ⟨rfl, rfl⟩

/-- Only a synchronization can part a look-ahead from its primary. -/
theorem Committed.lookaheadBehind {sha256 : String → String} {op : Op} {s s' : Ledger}
    (h : Committed sha256 op s s') (hkeep : op.KeepsPrimary s) (hs : LookaheadBehind s) : LookaheadBehind s' := by
  cases h with
  | @synchronized config resolvePlan actor now resolved hop hr hsync =>
    intro b hlook
    rw [hsync.lookaheadBatchId, Option.filter_eq_some_iff, decide_eq_true_eq] at hlook
    obtain ⟨⟨a, ha, hne⟩, -⟩ := hs b hlook.1
    have hkept : a ∈ config.batches.map (·.id) := hkeep config (by rw [hop]; rfl) a ha b hlook.1 hlook.2
    refine ⟨⟨a, ?_, hne⟩, ?_⟩
    · rw [hsync.activeBatchId, ha]
      simp only [Option.filter, hkept, decide_true, if_true]
    · obtain ⟨row, hrow⟩ := Option.isSome_iff_exists.mp ((hsync.activeBatch b).mpr hlook.2)
      have hfound := List.find?_some hrow
      simp only [Bool.and_eq_true, decide_eq_true_eq] at hfound
      exact hfound.1 ▸ List.mem_map_of_mem (List.mem_of_find?_eq_some hrow)
  | still hop hstill hstate =>
    generalize hc : s'.state = c at hstate
    cases hstate with
    | paused => exact hs.congr hstill.batches (by rw [hc]) (by rw [hc])
    | disarmed => exact hs.congr hstill.batches (by rw [hc]) (by rw [hc])
    | policy => exact hs.congr hstill.batches (by rw [hc]; rfl) (by rw [hc]; rfl)
    | admission hstep => exact hs.admission hstill.batches (hc ▸ hstep)
  | worked hop hsweep hact _ _ =>
    have hframe := hsweep.frame.trans hact.frame
    exact hs.congr hframe.batches hframe.state_eq.1 hframe.state_eq.2

theorem startNextBlock_ne_orphaned {admissionId actor : String} {scheduled reentry : Bool} {now : Time} {s : Ledger}
    (hs : s.state.activeBatchId = none → s.state.lookaheadBatchId = none) :
    startNextBlock admissionId scheduled reentry actor now s ≠ .error lookaheadWithoutPrimary := by
  have hvalue : ∀ message, Error.value message ≠ lookaheadWithoutPrimary := fun _ he => by cases he
  have hraises : RaisesOnly (· ≠ lookaheadWithoutPrimary)
      (startNextBlock admissionId scheduled reentry actor now s) := by
    refine .bind (text_raises hvalue _ _) fun admission _ => ?_
    split
    · exact .ok _
    split
    · exact .ok _
    rename_i hactive
    split
    · rename_i hlook
      exact (hlook (hs (not_not.mp hactive))).elim
    split
    · exact .ok _
    split
    · exact .ok _
    · exact .bind (Ledger.event_raises hvalue _ _ _ _ _) fun _ _ => .ok _
  exact fun he => hraises _ he rfl

/-- A drained primary hands its place to the look-ahead. -/
theorem finishActiveBlockIfDrained_promotes {actor a b : String} (now : Time) {s : Ledger}
    (hactor : Trimmed actor.toList = true) (ha : s.state.activeBatchId = some a)
    (hb : s.state.lookaheadBatchId = some b) (hmem : b ∈ s.batches.map (·.batchId)) (hdrained : remaining s a = 0) :
    ∃ s', finishActiveBlockIfDrained actor now s = .ok (true, s') ∧ s'.state.activeBatchId = some b ∧
      s'.state.lookaheadBatchId = none := by
  obtain ⟨row, hrow⟩ : ∃ row, s.batch? b = some row := by
    obtain ⟨row, hrow, hid⟩ := List.mem_map.mp hmem
    refine Option.isSome_iff_exists.mp (List.find?_isSome.mpr ⟨row, hrow, ?_⟩)
    exact decide_eq_true hid
  simp only [finishActiveBlockIfDrained, ha, hdrained, ne_eq, not_true_eq_false, if_false,
    Ledger.event_total _ _ hactor, ok_bind, promotionEvent, hb]
  have hpromoted : ∀ events, ({ s.updateState CoordinatorState.promoted with events := events } : Ledger).batch? b =
      some row := fun _ => hrow
  rw [hpromoted]
  refine ⟨_, rfl, ?_, rfl⟩
  simp [Ledger.updateState, CoordinatorState.promoted, hb]

/-- As long as no committed synchronization keeps the batch of the look-ahead but drops
that of the primary, a look-ahead always has a primary, which hands over to it. -/
theorem lookahead_behind_primary (sha256 : String → String) {trace : List (Step Ledger Op)} {s : Ledger}
    (h : History sha256 trace s) (hkeep : ∀ st ∈ trace, Commits sha256 st → st.op.KeepsPrimary st.before) :
    (∀ b, s.state.lookaheadBatchId = some b → ∃ a, s.state.activeBatchId = some a ∧ a ≠ b) ∧
    (∀ admissionId scheduled reentry actor now,
      startNextBlock admissionId scheduled reentry actor now s ≠ .error lookaheadWithoutPrimary) ∧
    ∀ a b actor now, s.state.activeBatchId = some a → s.state.lookaheadBatchId = some b → remaining s a = 0 →
      Trimmed actor.toList = true → ∃ s', finishActiveBlockIfDrained actor now s = .ok (true, s') ∧
        s'.state.activeBatchId = some b ∧ s'.state.lookaheadBatchId = none := by
  obtain ⟨-, hbehind⟩ := run_invariant (P := LookaheadBehind) h freshLedger_wellFormed (fun _ hl => by cases hl)
    fun st hst hcommit _ hc hs => hc.lookaheadBehind (hkeep st hst hcommit) hs
  refine ⟨fun b hb => (hbehind b hb).1, ?_, ?_⟩
  · intro admissionId scheduled reentry actor now
    refine startNextBlock_ne_orphaned fun hnone => ?_
    by_contra hlook
    obtain ⟨b, hb⟩ := Option.ne_none_iff_exists'.mp hlook
    obtain ⟨⟨a, ha, -⟩, -⟩ := hbehind b hb
    rw [hnone] at ha
    cases ha
  · intro a b actor now ha hb hdrained hactor
    exact finishActiveBlockIfDrained_promotes now hactor ha hb (hbehind b hb).2 hdrained

/-- Batch `b` is admitted beside `a`, whose only job is complete. -/
def Sample.lookedAhead : List Op :=
  [.syncQueue Sample.queueAB (Sample.resolve "1") "coordinator" 0,
    .startNextBlock "first" false false "operator" 1,
    .claim "worker" "token" none none none 2,
    .complete (Sample.jobId "a" "1") "token" 1 "result" 3,
    .admitLookaheadBlock "second" 1 "coordinator" 4]

theorem lookahead_behind_primary_lookedAhead :
    (after id freshLedger Sample.lookedAhead).state.lookaheadBatchId = some "b" ∧
      ∃ a, (after id freshLedger Sample.lookedAhead).state.activeBatchId = some a ∧ a ≠ "b" := by
  have hkeep : ∀ st ∈ traceOf id freshLedger Sample.lookedAhead, st.op.KeepsPrimary st.before := by decide +kernel
  have hlook : (after id freshLedger Sample.lookedAhead).state.lookaheadBatchId = some "b" := by decide +kernel
  obtain ⟨hbehind, -⟩ := lookahead_behind_primary id (run_after id freshLedger Sample.lookedAhead)
    fun st hst _ => hkeep st hst
  exact ⟨hlook, hbehind "b" hlook⟩

/-- The next synchronization keeps `b` and drops `a`. -/
def Sample.orphaned : List Op := Sample.lookedAhead ++ [.syncQueue Sample.queueB (Sample.resolve "1") "coordinator" 5]

/-- The admitted look-ahead is left without a primary: no block can be started, and
none is ever drained for it. -/
theorem lookahead_orphaned :
    ∃ s, Reachable id s ∧ s.state.lookaheadBatchId = some "b" ∧ s.state.activeBatchId = none ∧
      startNextBlock "third" false false "operator" 6 s = .error lookaheadWithoutPrimary ∧
      admitLookaheadBlock "third" 1 "coordinator" 6 s = .ok (none, s) ∧
      finishActiveBlockIfDrained "coordinator" 6 s = .ok (false, s) :=
  ⟨_, reachable_after id Sample.orphaned, by decide +kernel⟩

end FidbPoc.Coordinator
