import FidbPoc.Coordinator.Admission
import FidbPoc.Coordinator.Edits

namespace FidbPoc.Coordinator

open FidbPoc.Lib.Table FidbPoc.Lib.Checked

/-- What the queue-wide operations do to the admissions: nothing, admit a primary where
there is none, admit another batch beside the primary, or drain the primary. -/
inductive AdmissionStep (s : Ledger) : CoordinatorState → Prop
  | stayed : AdmissionStep s s.state
  | admitted {batchId admission : String} {schedule : Option String} (ha : s.state.activeBatchId = none)
      (hl : s.state.lookaheadBatchId = none) :
      AdmissionStep s { s.state with
        activeBatchId := some batchId
        activeAdmissionId := some admission
        lastScheduleAdmissionId := schedule }
  | lookahead {primaryId batchId admission : String} (ha : s.state.activeBatchId = some primaryId)
      (hl : s.state.lookaheadBatchId = none) (hne : primaryId ≠ batchId)
      (hb : batchId ∈ s.batches.map (·.batchId)) :
      AdmissionStep s { s.state with lookaheadBatchId := some batchId, lookaheadAdmissionId := some admission }
  | drained {primaryId : String} (ha : s.state.activeBatchId = some primaryId) : AdmissionStep s s.state.promoted

section QueueSteps

variable {actor reason : String} {now : Time} {s s' : Ledger}

theorem pause_still (hs : s.WellFormed) (h : pause reason actor now s = .ok s') :
    Still s s' ∧ ∃ paused, s'.state = { s.state with paused := paused } := by
  simp only [pause, bind_eq_ok] at h
  obtain ⟨reason', _, h⟩ := h
  split at h
  · rw [pure_eq_ok] at h
    subst h
    exact ⟨Still.refl hs, s.state.paused, rfl⟩
  · have hfirst := Still.updateState hs (fun c => { c with paused := true })
    obtain ⟨hlast, hstate⟩ := Still.event hfirst.wellFormed rfl h
    exact ⟨hfirst.trans hlast, true, hstate⟩

theorem resume_still (hs : s.WellFormed) (h : resume actor now s = .ok s') :
    Still s s' ∧ ∃ paused, s'.state = { s.state with paused := paused } := by
  simp only [resume] at h
  split at h
  · have hfirst := Still.updateState hs (fun c => { c with paused := false })
    obtain ⟨hlast, hstate⟩ := Still.event hfirst.wellFormed rfl h
    exact ⟨hfirst.trans hlast, false, hstate⟩
  · rw [pure_eq_ok] at h
    subst h
    exact ⟨Still.refl hs, s.state.paused, rfl⟩

theorem touchWorker_still {workerId transport : String} {pools : List String} {metadata : List (String × String)}
    (hs : s.WellFormed) (h : touchWorker workerId transport pools metadata now s = .ok s') :
    Still s s' ∧ s'.state = s.state := by
  simp only [touchWorker, registerWorker, bind_eq_ok] at h
  obtain ⟨worker, _, _, _, _, _, _, _, h⟩ := h
  split at h
  · rw [pure_eq_ok] at h
    subst h
    exact ⟨Still.workers hs _, rfl⟩
  · have hfirst := Still.workers hs (s.workers ++ [⟨worker, transport, pools, metadata, now, now⟩])
    obtain ⟨hlast, hstate⟩ := Still.event hfirst.wellFormed rfl h
    exact ⟨hfirst.trans hlast, hstate⟩

theorem reconfigureRuntime_still {config : QueueConfig} {generation jobs : Int} (hs : s.WellFormed)
    (h : reconfigureRuntime config generation jobs reason actor now s = .ok s') :
    Still s s' ∧ s'.state = s.state.withPolicy config := by
  simp only [reconfigureRuntime, bind_eq_ok] at h
  obtain ⟨_, _, _, _, _, _, _, _, _, _, _, _, _, _, h⟩ := h
  have hfirst := Still.updateState hs (CoordinatorState.withPolicy config)
  obtain ⟨hlast, hstate⟩ := Still.event hfirst.wellFormed rfl h
  exact ⟨hfirst.trans hlast, hstate⟩

theorem disarmForRecovery_still {config : QueueConfig} {generation jobs live : Int} (hs : s.WellFormed)
    (h : disarmForRecovery config generation jobs live reason actor now s = .ok s') :
    Still s s' ∧ s'.state = { s.state with armed := false } := by
  simp only [disarmForRecovery, bind_eq_ok] at h
  obtain ⟨_, _, _, _, _, _, _, _, _, _, _, _, _, _, _, _, _, _, h⟩ := h
  have hfirst := Still.updateState hs (fun c => { c with armed := false })
  obtain ⟨hlast, hstate⟩ := Still.event hfirst.wellFormed rfl h
  exact ⟨hfirst.trans hlast, hstate⟩

theorem startNextBlock_still {admissionId : String} {scheduled reentry : Bool} {reply : Option ExecutionBlock}
    (hs : s.WellFormed) (h : startNextBlock admissionId scheduled reentry actor now s = .ok (reply, s')) :
    Still s s' ∧ AdmissionStep s s'.state := by
  simp only [startNextBlock, bind_eq_ok] at h
  obtain ⟨admission, hadm, h⟩ := h
  have hstay : ∀ {r}, (pure (r, s) : Result (Option ExecutionBlock × Ledger)) = .ok (reply, s') →
      Still s s' ∧ AdmissionStep s s'.state := by
    intro r hr
    obtain ⟨-, rfl⟩ := Prod.mk.inj (pure_eq_ok.mp hr)
    exact ⟨Still.refl hs, .stayed⟩
  split at h
  · exact hstay h
  · split at h
    · exact hstay h
    · split at h
      · cases h
      · split at h
        · exact hstay h
        · split at h
          · exact hstay h
          · rename_i hactive hlook _ _ batch _
            simp only [bind_eq_ok, pure_eq_ok] at h
            obtain ⟨t, hevent, h⟩ := h
            obtain ⟨-, rfl⟩ := Prod.mk.inj h
            have hfirst := Still.updateState hs (fun c => { c with
              activeBatchId := some batch.batchId
              activeAdmissionId := some admission
              lastScheduleAdmissionId := if scheduled then some admission else c.lastScheduleAdmissionId })
            obtain ⟨hlast, hstate⟩ := Still.event hfirst.wellFormed rfl hevent
            refine ⟨hfirst.trans hlast, ?_⟩
            rw [hstate]
            exact .admitted (not_not.mp hactive) (not_not.mp hlook)

theorem firstBatch?_eq_some {p : Batch → Bool} {b : Batch} (h : firstBatch? s p = some b) :
    b ∈ s.batches ∧ b.active = true ∧ p b = true := by
  have hm := (List.perm_insertionSort batchOrder _).mem_iff.mp (List.mem_of_mem_head? h)
  obtain ⟨hm, hp⟩ := List.mem_filter.mp hm
  simp only [Bool.and_eq_true] at hp
  exact ⟨hm, hp.1.1, hp.1.2⟩

/-- A successor stands behind the primary in the queue, so it is another batch. -/
theorem admitSuccessor_still {admission primaryId : String} {idleThreshold : Nat} {idleSlots : Int}
    {primary : Batch} {reply : Option ExecutionBlock} (hs : s.WellFormed)
    (hprimary : s.activeBatch? primaryId = some primary)
    (ha : s.state.activeBatchId = some primaryId) (hl : s.state.lookaheadBatchId = none)
    (h : admitSuccessor admission primaryId idleThreshold idleSlots actor now primary s = .ok (reply, s')) :
    Still s s' ∧ AdmissionStep s s'.state := by
  unfold admitSuccessor at h
  split at h
  · obtain ⟨-, rfl⟩ := Prod.mk.inj (pure_eq_ok.mp h)
    exact ⟨Still.refl hs, .stayed⟩
  · rename_i successor hsucc
    simp only [bind_eq_ok, pure_eq_ok] at h
    obtain ⟨t, hevent, h⟩ := h
    obtain ⟨-, rfl⟩ := Prod.mk.inj h
    have hfirst := Still.updateState hs (fun c => { c with
      lookaheadBatchId := some successor.batchId, lookaheadAdmissionId := some admission })
    obtain ⟨hlast, hstate⟩ := Still.event hfirst.wellFormed rfl hevent
    refine ⟨hfirst.trans hlast, ?_⟩
    rw [hstate]
    obtain ⟨hm, -, hpos⟩ := firstBatch?_eq_some hsucc
    refine .lookahead ha hl ?_ (List.mem_map_of_mem hm)
    intro he
    have hpm : primary ∈ s.batches := List.mem_of_find?_eq_some hprimary
    have hpid : primary.batchId = primaryId := by
      have hfound := List.find?_some hprimary
      simp only [Bool.and_eq_true, decide_eq_true_eq] at hfound
      exact hfound.1
    have hsame : primary = successor := key_injective hs.batches_nodup hpm hm (hpid.trans he)
    rw [hsame] at hpos
    exact absurd (of_decide_eq_true hpos) (Nat.lt_irrefl _)

theorem admitLookaheadBlock_still {admissionId : String} {minimumIdleSlots : Int} {reply : Option ExecutionBlock}
    (hs : s.WellFormed)
    (h : admitLookaheadBlock admissionId minimumIdleSlots actor now s = .ok (reply, s')) :
    Still s s' ∧ AdmissionStep s s'.state := by
  simp only [admitLookaheadBlock, bind_eq_ok] at h
  obtain ⟨admission, _, idleThreshold, _, h⟩ := h
  have hstay : ∀ {r}, (pure (r, s) : Result (Option ExecutionBlock × Ledger)) = .ok (reply, s') →
      Still s s' ∧ AdmissionStep s s'.state := by
    intro r hr
    obtain ⟨-, rfl⟩ := Prod.mk.inj (pure_eq_ok.mp hr)
    exact ⟨Still.refl hs, .stayed⟩
  split at h
  · exact hstay h
  · split at h
    · exact hstay h
    · rename_i primaryId hactive
      split at h
      · exact hstay h
      · rename_i hlook
        split at h
        · exact hstay h
        · split at h
          · exact hstay h
          · split at h
            · cases h
            · rename_i primary hprimary
              exact admitSuccessor_still hs hprimary hactive (not_not.mp hlook) h

theorem finishActiveBlockIfDrained_still {reply : Bool} (hs : s.WellFormed)
    (h : finishActiveBlockIfDrained actor now s = .ok (reply, s')) :
    Still s s' ∧ AdmissionStep s s'.state := by
  unfold finishActiveBlockIfDrained at h
  split at h
  · obtain ⟨-, rfl⟩ := Prod.mk.inj (pure_eq_ok.mp h)
    exact ⟨Still.refl hs, .stayed⟩
  · rename_i primaryId hactive
    split at h
    · obtain ⟨-, rfl⟩ := Prod.mk.inj (pure_eq_ok.mp h)
      exact ⟨Still.refl hs, .stayed⟩
    · simp only [bind_eq_ok, pure_eq_ok] at h
      obtain ⟨t, hevent, u, hpromotion, h⟩ := h
      obtain ⟨-, rfl⟩ := Prod.mk.inj h
      have hfirst := Still.updateState hs CoordinatorState.promoted
      obtain ⟨hdrained, hstate⟩ := Still.event hfirst.wellFormed rfl hevent
      have hlast : Still t u ∧ u.state = t.state := by
        unfold promotionEvent at hpromotion
        split at hpromotion
        · rw [pure_eq_ok] at hpromotion
          exact hpromotion ▸ ⟨Still.refl hdrained.wellFormed, rfl⟩
        · split at hpromotion
          · cases hpromotion
          · exact Still.event hdrained.wellFormed rfl hpromotion
      refine ⟨(hfirst.trans hdrained).trans hlast.1, ?_⟩
      rw [hlast.2, hstate]
      exact .drained hactive

end QueueSteps

end FidbPoc.Coordinator
