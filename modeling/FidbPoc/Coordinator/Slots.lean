import FidbPoc.Coordinator.Mirror

namespace FidbPoc.Coordinator

open FidbPoc.Lib FidbPoc.Lib.Table

/-- A selected job that a worker holds. -/
def Ledger.busy (s : Ledger) (r : Job) : Bool := s.selects r && r.state.live

def Ledger.live (s : Ledger) (jobId : String) : Bool := (s.job? jobId).any (fun r => r.state.live)

/-- At most `m` of the rows that an operation selects have a live job of their own. -/
def Op.HasRoom (sha256 : String → String) (m : Nat) (op : Op) (s : Ledger) : Prop :=
  (op.rows sha256).countP (fun p => s.live (p.jobId sha256)) ≤ m

instance (sha256 : String → String) (m : Nat) (op : Op) (s : Ledger) : Decidable (op.HasRoom sha256 m s) :=
  inferInstanceAs (Decidable ((op.rows sha256).countP (fun p => s.live (p.jobId sha256)) ≤ m))

/-- Beside a claim, work on a job neither selects it nor gives it to a worker. -/
theorem JobStep.busy {now : Time} {n : Nat} {m : Move} {v v' : JobView} (h : JobStep now n m v v')
    (hs : ¬m.selecting) (hc : m ≠ .claimed) {r' : Job} (hr' : v'.job = some r') (hl : r'.state.live = true) :
    ∃ r, v.job = some r ∧ r.state.live = true ∧ r.active = r'.active ∧ r.batchId = r'.batchId := by
  cases h with
  | created | deselected | placed => simp [Move.selecting] at hs
  | claimed => exact (hc rfl).elim
  | renewed hr hh | staged hr hh | completed hr hh | failed hr hh | failedPathological hr hh =>
    obtain rfl := Option.some.inj hr'
    exact ⟨_, hr, Job.holds_live hh, rfl, rfl⟩
  | expired hr hx =>
    obtain rfl := Option.some.inj hr'
    exact ⟨_, hr, Job.expired_live hx, rfl, rfl⟩
  | interrupted hr hlive =>
    obtain rfl := Option.some.inj hr'
    exact ⟨_, hr, hlive, rfl, rfl⟩
  | quarantined hr ha hst =>
    obtain rfl := Option.some.inj hr'
    split at hl
    · cases hl
    · rcases hst with hst | hst <;> rw [hst] at hl <;> cases hl
  | @released _ r q e reason hr =>
    obtain rfl := Option.some.inj hr'
    by_cases hf : r.state = .failed
    · rw [if_pos hf] at hl
      cases hl
    · rw [if_neg hf] at hl ⊢
      exact ⟨r, hr, hl, rfl, rfl⟩
  | requeued hr =>
    obtain rfl := Option.some.inj hr'
    cases hl

section Slots

variable {sha256 : String → String} {s t u : Ledger}

theorem activeWorkers_eq (s : Ledger) : activeWorkers s = (s.jobs.filter s.busy).length :=
  List.countP_eq_length_filter

theorem selects_congr {r r' : Job} (hb : u.batches = t.batches) (ha : r'.active = r.active)
    (hid : r'.batchId = r.batchId) : u.selects r' = t.selects r := by
  simp only [Ledger.selects, Ledger.activeBatch?, hb, ha, hid]

/-- Busy after work on `ks`: in `ks`, or busy before. -/
theorem Acts.busy {now : Time} {m : Move} {ks : List String} (h : Acts now m ks t u)
    (hs : ¬m.selecting) {r' : Job} (hr' : r' ∈ u.jobs) (hbusy : u.busy r' = true) :
    m = .claimed ∧ r'.jobId ∈ ks ∨ r'.jobId ∈ (t.jobs.filter t.busy).map (·.jobId) := by
  have hview := Ledger.job?_of_mem h.wellFormed hr'
  simp only [Ledger.busy, Bool.and_eq_true] at hbusy
  have hold : ∀ r, (t.view r'.jobId).job = some r → r.state.live = true → r.active = r'.active →
      r.batchId = r'.batchId → r'.jobId ∈ (t.jobs.filter t.busy).map (·.jobId) := by
    intro r hr hl ha hid
    refine List.mem_map.mpr ⟨r, List.mem_filter.mpr ⟨List.mem_of_find?_eq_some hr, ?_⟩, Ledger.job?_jobId hr⟩
    rw [Ledger.busy, ← selects_congr h.frame.batches ha.symm hid.symm, hbusy.1, hl]
    rfl
  by_cases hj : r'.jobId ∈ ks
  · by_cases hc : m = .claimed
    · exact .inl ⟨hc, hj⟩
    · obtain ⟨r, hr, hl, ha, hid⟩ := (h.steps _ hj).busy hs hc hview hbusy.2
      exact .inr (hold r hr hl ha hid)
  · have hr : (t.view r'.jobId).job = some r' := by
      rw [← h.others _ hj]
      exact hview
    exact .inr (hold r' hr hbusy.2 rfl rfl)

theorem busy_nodup (hu : u.WellFormed) : ((u.jobs.filter u.busy).map (·.jobId)).Nodup :=
  (List.filter_sublist.map _).nodup hu.jobs_nodup

/-- Work other than a claim takes no further slot. -/
theorem Acts.activeWorkers_le {now : Time} {m : Move} {ks : List String} (h : Acts now m ks t u) (hs : ¬m.selecting) (hc : m ≠ .claimed ∨ ks = []) :
    activeWorkers u ≤ activeWorkers t := by
  have hbefore : activeWorkers t = ((t.jobs.filter t.busy).map (·.jobId)).length := by
    rw [activeWorkers_eq, List.length_map]
  rw [activeWorkers_eq, hbefore]
  refine length_le_of_keys (busy_nodup h.wellFormed) fun r' hr' => ?_
  obtain ⟨hmem, hbusy⟩ := List.mem_filter.mp hr'
  rcases h.busy hs hmem hbusy with ⟨hclaim, hj⟩ | hold
  · rcases hc with hc | hnil
    · exact (hc hclaim).elim
    · rw [hnil] at hj
      cases hj
  · exact hold

/-- A claim takes one slot. -/
theorem Acts.activeWorkers_succ {now : Time} {k : String} (h : Acts now .claimed [k] t u) :
    activeWorkers u ≤ activeWorkers t + 1 := by
  have hbefore : activeWorkers t + 1 = (k :: (t.jobs.filter t.busy).map (·.jobId)).length := by
    rw [activeWorkers_eq, List.length_cons, List.length_map]
  rw [activeWorkers_eq, hbefore]
  refine length_le_of_keys (busy_nodup h.wellFormed) fun r' hr' => ?_
  obtain ⟨hmem, hbusy⟩ := List.mem_filter.mp hr'
  rcases h.busy (by simp [Move.selecting]) hmem hbusy with ⟨-, hj⟩ | hold
  · exact List.mem_cons.mpr (.inl (List.mem_singleton.mp hj))
  · exact List.mem_cons_of_mem _ hold

/-- Of the jobs that a synchronization selects, the busy ones are those selected again by
their own rows. -/
theorem Selection.activeWorkers_le {now : Time} {rows : List Selected} (h : Selection sha256 now s rows u) :
    activeWorkers u ≤ rows.countP (fun p => s.live (p.jobId sha256)) := by
  have hrows : rows.countP (fun p => s.live (p.jobId sha256)) =
      ((rows.filter fun p => s.live (p.jobId sha256)).map (Selected.jobId sha256)).length := by
    rw [List.countP_eq_length_filter, List.length_map]
  rw [activeWorkers_eq, hrows]
  refine length_le_of_keys (busy_nodup h.syncs.wellFormed) fun r' hr' => ?_
  obtain ⟨hmem, hbusy⟩ := List.mem_filter.mp hr'
  simp only [Ledger.busy, Ledger.selects, Bool.and_eq_true] at hbusy
  obtain ⟨⟨ha, -⟩, hl⟩ := hbusy
  have hview := Ledger.job?_of_mem h.syncs.wellFormed hmem
  obtain ⟨p, hp, -, horigin⟩ := h.active r' hmem ha
  have hstate : ∀ r, (s.view r'.jobId).job = some r → r.state = r'.state := fun r hr =>
    (congrArg (·.state) (h.syncs.work_eq hr hview)).symm
  cases horigin with
  | @carried r hr hcarry =>
    simp only [carryable, Bool.or_eq_true, Bool.and_eq_true, decide_eq_true_eq, hstate r hr] at hcarry
    rcases hcarry with ⟨hs, -⟩ | ⟨hs, -⟩ <;> rw [hs] at hl <;> cases hl
  | created hj hnew hnone =>
    rcases h.syncs.created hnew hview with hs | hs <;> rw [hs] at hl <;> cases hl
  | @reused r hj hr hnone =>
    refine List.mem_map.mpr ⟨p, List.mem_filter.mpr ⟨hp, ?_⟩, hj.symm⟩
    have hjob : s.job? (p.jobId sha256) = some r := hj ▸ hr
    simp only [Ledger.live, hjob, Option.any_some, hstate r hr, hl]

theorem Committed.activeWorkers_le {op : Op} {m : Nat} (h : Committed sha256 op s u)
    (hroom : op.HasRoom sha256 m s) (hs : s.Policed (fun l => l.maxWorkers = m)) (hle : activeWorkers s ≤ m) :
    activeWorkers u ≤ m := by
  cases h with
  | @synchronized config resolvePlan actor now resolved hop hr hsync =>
    have hrows : op.rows sha256 = selectedRows resolved := by rw [hop, Op.rows, Op.resolved_eq sha256 hr]
    rw [Op.HasRoom, hrows] at hroom
    exact hsync.selection.activeWorkers_le.trans hroom
  | still hop hstill hstate =>
    have hsame : activeWorkers u = activeWorkers s := by
      simp only [activeWorkers, Ledger.selects, Ledger.activeBatch?, hstill.jobs, hstill.batches]
    rw [hsame]
    exact hle
  | @worked move t js ks hop hsweep hact _ hclaimed =>
    have ht : activeWorkers t ≤ m := (hsweep.activeWorkers_le (by simp [Move.selecting]) (.inl (by simp))).trans hle
    by_cases hc : move ≠ .claimed ∨ ks = []
    · exact (hact.activeWorkers_le (Op.move_not_selecting hop) hc).trans ht
    · obtain ⟨hclaim, hne⟩ : move = .claimed ∧ ks ≠ [] := by simpa [not_or] using hc
      obtain ⟨hslot, k, rfl⟩ := (hclaimed hclaim).resolve_left hne
      subst hclaim
      rcases hs with hnil | hmax
      · have hempty : u.jobs = [] := (hsweep.frame.trans hact.frame).jobs_nil hnil
        simp [activeWorkers, hempty]
      · rw [hsweep.frame.maxWorkers, show s.state.maxWorkers = m from hmax] at hslot
        exact hact.activeWorkers_succ.trans hslot

end Slots

/-- While every configuration allows `m` workers, and no synchronization selects again
more than `m` rows whose own jobs are live, at most `m` selected jobs are live. -/
theorem activeWorkers_bounded (sha256 : String → String) {trace : List (Step Ledger Op)} {s : Ledger}
    (h : History sha256 trace s) {m : Nat}
    (hm : ∀ st ∈ trace, Commits sha256 st → ∀ config ∈ st.op.configured, config.maxWorkers = m)
    (hroom : ∀ st ∈ trace, Commits sha256 st → st.op.HasRoom sha256 m st.before) :
    activeWorkers s ≤ m := by
  refine (run_invariant (P := fun s => s.Policed (fun l => l.maxWorkers = m) ∧ activeWorkers s ≤ m) h
    freshLedger_wellFormed ⟨.inl rfl, Nat.zero_le m⟩ ?_).2.2
  rintro st hst hcommit - hc ⟨hpoliced, hle⟩
  exact ⟨hc.policed (hm st hst hcommit) hpoliced, hc.activeWorkers_le (hroom st hst hcommit) hpoliced hle⟩

namespace Sample

/-- The batch of a running job is dropped, and another batch takes the slot. -/
def dropped : List Op :=
  [.syncQueue queueA (resolve "1") "coordinator" 0,
    .claim "first" "first" none none none 1,
    .syncQueue queueB (resolve "1") "coordinator" 2,
    .claim "second" "second" none none none 3]

/-- The dropped batch is added again while both jobs run. -/
def readded : List Op := dropped ++ [.syncQueue queueAB (resolve "1") "coordinator" 4]

end Sample

theorem activeWorkers_bounded_dropped :
    activeWorkers (after id freshLedger Sample.dropped) ≤ 1 ∧
      (after id freshLedger Sample.dropped).jobs.countP (fun r => r.state.live) = 2 := by
  have hm : ∀ st ∈ traceOf id freshLedger Sample.dropped, ∀ config ∈ st.op.configured, config.maxWorkers = 1 := by
    decide +kernel
  have hroom : ∀ st ∈ traceOf id freshLedger Sample.dropped, st.op.HasRoom id 1 st.before := by decide +kernel
  exact ⟨activeWorkers_bounded id (run_after id freshLedger Sample.dropped) (fun st hst _ => hm st hst)
    (fun st hst _ => hroom st hst), by decide +kernel⟩

/-- Every configuration of this run has one worker slot, and two workers hold selected jobs. -/
theorem activeWorkers_readded :
    History id (traceOf id freshLedger Sample.readded) (after id freshLedger Sample.readded) ∧
      (∀ st ∈ traceOf id freshLedger Sample.readded, ∀ config ∈ st.op.configured, config.maxWorkers = 1) ∧
      activeWorkers (after id freshLedger Sample.readded) = 2 :=
  ⟨run_after id freshLedger Sample.readded, by decide +kernel⟩

end FidbPoc.Coordinator
