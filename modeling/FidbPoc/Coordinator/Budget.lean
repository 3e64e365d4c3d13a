import FidbPoc.Coordinator.Mirror

namespace FidbPoc.Coordinator

open FidbPoc.Lib FidbPoc.Lib.Table Relation

def Ledger.queued (s : Ledger) (jobId : String) : Bool := (s.job? jobId).any (fun r => decide (r.state = .queued))

/-- The operator transitions that put jobs back in the queue. -/
def Op.recovers : Op → Bool
  | .requeueFailedBatch .. | .requeueInterruptedBatch .. | .releasePathologicalQuarantine .. => true
  | _ => false

/-- A step by which an operator puts a job back in the queue. -/
def PutsBack (jobId : String) (st : Step Ledger Op) : Bool :=
  st.op.recovers && !st.before.queued jobId && st.after.queued jobId

def Move.recovers : Move → Bool
  | .requeued | .interrupted | .released => true
  | _ => false

theorem Op.recovers_move {op : Op} {m : Move} (h : op.move = some m) : m.recovers = op.recovers := by
  cases op <;> cases h <;> rfl

namespace JobView

def queued (v : JobView) : Bool := v.job.any (fun r => decide (r.state = .queued))

/-- A job within a budget of `m` attempts and `n` more; while it waits in the queue, one
of them is left. -/
def WithinBudget (m n : Nat) (v : JobView) : Prop :=
  ∀ r, v.job = some r → r.attemptCount ≤ m + n ∧ (r.state = .queued → r.attemptCount < m + n)

theorem WithinBudget.mono {m n n' : Nat} {v : JobView} (hv : v.WithinBudget m n) (h : n ≤ n') :
    v.WithinBudget m n' := by
  intro r hr
  obtain ⟨hle, hlt⟩ := hv r hr
  exact ⟨by omega, fun hs => by have hlt := hlt hs; omega⟩

theorem WithinBudget.recovered {m n : Nat} {v v' : JobView} {r r' : Job} (hv : v.WithinBudget m n)
    (hr : v.job = some r) (hr' : v'.job = some r') (hc : r'.attemptCount = r.attemptCount) :
    v'.WithinBudget m (if !v.queued && v'.queued then n + 1 else n) := by
  obtain ⟨hle, hlt⟩ := hv r hr
  intro x hx
  obtain rfl := Option.some.inj (hr'.symm.trans hx)
  rw [hc]
  by_cases hwaits' : r'.state = .queued
  · by_cases hwaits : r.state = .queued
    · rw [if_neg (by simp [queued, hr, hwaits])]
      exact ⟨hle, fun _ => hlt hwaits⟩
    · rw [if_pos (by simp [queued, hr, hr', hwaits, hwaits'])]
      exact ⟨by omega, fun _ => by omega⟩
  · rw [if_neg (by simp [queued, hr', hwaits'])]
    exact ⟨hle, fun h => (hwaits' h).elim⟩

end JobView

/-- Every move keeps a job within its budget, which only a recovery extends. -/
theorem JobStep.withinBudget {now : Time} {m n : Nat} {move : Move} {v v' : JobView} (h : JobStep now m move v v')
    (hm : 0 < m) (hv : v.WithinBudget m n) :
    v'.WithinBudget m (if move.recovers && !v.queued && v'.queued then n + 1 else n) := by
  have hkeep : move.recovers = false → v'.WithinBudget m n →
      v'.WithinBudget m (if move.recovers && !v.queued && v'.queued then n + 1 else n) := by
    intro hmove hv'
    rw [hmove]
    exact hv'
  cases h with
  | @created jobId batchId planDigest generation row e he =>
    refine hkeep rfl fun r hr => ?_
    obtain rfl := Option.some.inj hr
    exact ⟨Nat.zero_le _, fun _ => Nat.lt_of_lt_of_le hm (Nat.le_add_right m n)⟩
  | deselected hr | placed hr _ | renewed hr _ _ =>
    refine hkeep rfl fun r' hr' => ?_
    obtain rfl := Option.some.inj hr'
    have hbudget := hv _ hr
    exact hbudget
  | claimed hr hq ha hid hsp he =>
    refine hkeep rfl fun r' hr' => ?_
    obtain rfl := Option.some.inj hr'
    exact ⟨(hv _ hr).2 hq, fun hs => by cases hs⟩
  | staged hr hh ha hl hs he =>
    refine hkeep rfl fun r' hr' => ?_
    obtain rfl := Option.some.inj hr'
    exact ⟨(hv _ hr).1, fun hs => by cases hs⟩
  | completed hr hh hopen he =>
    refine hkeep rfl fun r' hr' => ?_
    obtain rfl := Option.some.inj hr'
    exact ⟨(hv _ hr).1, fun hs => by cases hs⟩
  | expired hr hx ho hn he =>
    refine hkeep rfl fun r' hr' => ?_
    obtain rfl := Option.some.inj hr'
    refine ⟨(hv _ hr).1, fun hs => ?_⟩
    rcases he with ⟨-, hlt, -⟩ | ⟨hfailed, -⟩
    · exact Nat.lt_of_lt_of_le hlt (Nat.le_add_right m n)
    · exact absurd (hfailed.symm.trans hs) (by simp)
  | failed hr hh ho hn he =>
    refine hkeep rfl fun r' hr' => ?_
    obtain rfl := Option.some.inj hr'
    refine ⟨(hv _ hr).1, fun hs => ?_⟩
    rcases he with ⟨-, hlt, -⟩ | ⟨hfailed, -⟩
    · exact Nat.lt_of_lt_of_le hlt (Nat.le_add_right m n)
    · exact absurd (hfailed.symm.trans hs) (by simp)
  | failedPathological hr hh ho hn hs he hno hq he' =>
    refine hkeep rfl fun r' hr' => ?_
    obtain rfl := Option.some.inj hr'
    exact ⟨(hv _ hr).1, fun hs' => absurd (hs.symm.trans hs') (by simp)⟩
  | @quarantined _ r q e reason cause hr ha hs hno hq he =>
    refine hkeep rfl fun r' hr' => ?_
    obtain rfl := Option.some.inj hr'
    split
    · exact ⟨(hv r hr).1, fun hs => by cases hs⟩
    · exact hv r hr
  | interrupted hr hl ho hn hs he => exact hv.recovered hr rfl rfl
  | @released _ r q e reason hr hq ha hone he => exact hv.recovered hr rfl (by split <;> rfl)
  | requeued hr ha hs he => exact hv.recovered hr rfl rfl

theorem JobStep.not_queued_of_expired {now : Time} {n : Nat} {v v' : JobView} (h : JobStep now n .expired v v') :
    v.queued = false := by
  cases h with
  | expired hr hx =>
    have hl := Job.expired_live hx
    simp only [JobView.queued, hr, Option.any_some, decide_eq_false_iff_not]
    exact fun hs => by rw [hs] at hl; cases hl

/-- A policy of `m` attempts. -/
def Limits.Allow (m : Nat) (l : Limits) : Prop := l.maxAttempts = m ∧ 0 < m

section Committed

variable {sha256 : String → String} {op : Op} {s s' : Ledger} {m : Nat}

theorem allow_configured (hm : ∀ config ∈ op.configured, config.maxAttempts = m) :
    ∀ config ∈ op.configured, config.limits.Allow m :=
  fun config hconfig => ⟨hm config hconfig, hm config hconfig ▸ config.maxAttempts_pos⟩

theorem Committed.withinBudget {n : Nat} {j : String} (h : Committed sha256 op s s')
    (hm : ∀ config ∈ op.configured, config.maxAttempts = m) (hs : s.Policed (Limits.Allow m))
    (hv : (s.view j).WithinBudget m n) :
    (s'.view j).WithinBudget m
      (if op.recovers && !(s.view j).queued && (s'.view j).queued then n + 1 else n) := by
  cases h with
  | @synchronized config _ _ now _ hop hr hsync =>
    have hpos : 0 < m := hm config (by rw [hop]; rfl) ▸ config.maxAttempts_pos
    have hviews := hsync.selection.syncs.views j m
    have hrecovers : op.recovers = false := by rw [hop]; rfl
    simp only [hrecovers, Bool.false_and, Bool.false_eq_true, if_false]
    generalize s'.view j = v' at hviews ⊢
    induction hviews with
    | refl => exact hv
    | tail _ hlast ih =>
      obtain ⟨move, hmove, hlast⟩ := hlast
      have hselecting : move.recovers = false := by
        rcases hmove with rfl | rfl | rfl <;> rfl
      have hnext := hlast.withinBudget hpos ih
      simpa only [hselecting, Bool.false_and, Bool.false_eq_true, if_false] using hnext
  | still hop hstill hstate =>
    have hsame : (!(s.view j).queued && (s.view j).queued) = false := by cases (s.view j).queued <;> rfl
    rw [hstill.views, Bool.and_assoc, hsame, Bool.and_false, if_neg Bool.false_ne_true]
    exact hv
  | @worked move t js ks hop hsweep hact _ _ =>
    rcases hs with hnil | ⟨hmax, hpos⟩
    · intro r hr
      have hmem := mem_jobs_of_view hr
      rw [(hsweep.frame.trans hact.frame).jobs_nil hnil] at hmem
      cases hmem
    -- the sweep never puts a job back that was waiting before
    have ht : (t.view j).WithinBudget m n ∧ ((s.view j).queued = true → t.view j = s.view j) := by
      by_cases hj : j ∈ js
      · have hstep := hsweep.steps j hj
        rw [show s.state.maxAttempts = m from hmax] at hstep
        have hnext := hstep.withinBudget hpos hv
        refine ⟨hnext, fun hq => ?_⟩
        have hidle := hstep.not_queued_of_expired
        rw [hidle] at hq
        cases hq
      · rw [hsweep.others j hj]
        exact ⟨hv, fun _ => rfl⟩
    by_cases hj : j ∈ ks
    · have hstep := hact.steps j hj
      rw [hsweep.frame.maxAttempts, show s.state.maxAttempts = m from hmax] at hstep
      have hnext := hstep.withinBudget hpos ht.1
      rw [Op.recovers_move hop] at hnext
      cases hq : (s.view j).queued with
      | true =>
        rw [ht.2 hq, hq] at hnext
        exact hnext
      | false =>
        refine hnext.mono ?_
        cases op.recovers <;> cases (t.view j).queued <;> cases (s'.view j).queued <;> simp
    · rw [hact.others j hj]
      refine ht.1.mono ?_
      split <;> omega

end Committed

/-- While the policy allows `m` attempts, a job is leased at most `m` times, and once more
for every time that an operator puts it back in the queue. -/
theorem attempts_within_budget (sha256 : String → String) {trace : List (Step Ledger Op)} {s : Ledger}
    (h : History sha256 trace s) {m : Nat}
    (hm : ∀ st ∈ trace, Commits sha256 st → ∀ config ∈ st.op.configured, config.maxAttempts = m) {r : Job}
    (hr : r ∈ s.jobs) :
    r.attemptCount ≤ m + trace.countP (PutsBack r.jobId) ∧
      (attemptsOf s r.jobId).length ≤ m + trace.countP (PutsBack r.jobId) ∧
      ((∀ st ∈ trace, st.op.recovers = false) → (attemptsOf s r.jobId).length ≤ m) := by
  obtain ⟨hs, -, hbudget⟩ := Run.counted
    (P := fun n s => s.WellFormed ∧ s.Policed (Limits.Allow m) ∧ (s.view r.jobId).WithinBudget m n) (PutsBack r.jobId) h
    ⟨freshLedger_wellFormed, .inl rfl, fun _ hr => by cases hr⟩ <| by
      rintro st hst hnext n ⟨hs, hallows, hv⟩
      rcases next_cases sha256 hnext with ⟨-, he⟩ | ⟨reply, hbody⟩
      · rw [he]
        exact ⟨hs, hallows, hv.mono (by split <;> omega)⟩
      · have hc := committed hs hbody
        have hconfig := hm st hst ⟨reply, transaction_ok.mpr hbody⟩
        exact ⟨hc.wellFormed, hc.policed (allow_configured hconfig) hallows, hc.withinBudget hconfig hallows hv⟩
  obtain ⟨hn, -⟩ := (reachable_mirrored ⟨trace, h⟩).2 r.jobId r (Ledger.job?_of_mem hs hr)
  have hlength : (attemptsOf s r.jobId).length = r.attemptCount := hn.length
  have hle := (hbudget r (Ledger.job?_of_mem hs hr)).1
  refine ⟨hle, hlength ▸ hle, fun hnone => ?_⟩
  have hzero : trace.countP (PutsBack r.jobId) = 0 := by
    rw [List.countP_eq_zero]
    intro st hst
    simp [PutsBack, hnone st hst]
  rw [hlength]
  omega

/-- Two attempts fail, the operator requeues the batch, and a third attempt starts. -/
def Sample.requeued : List Op :=
  [.syncQueue Sample.queueA (Sample.resolve "1") "coordinator" 0,
    .claim "worker" "first" none none none 1,
    .fail (Sample.jobId "a" "1") "first" 1 "broken" true none false 2,
    .claim "worker" "second" none none none 3,
    .fail (Sample.jobId "a" "1") "second" 2 "broken" true none false 4,
    .pause "review" "operator" 5,
    .syncQueue { Sample.queueA with armed := false } (Sample.resolve "1") "coordinator" 6,
    .requeueFailedBatch "a" 1 "retry" "operator" 7,
    .syncQueue Sample.queueA (Sample.resolve "1") "coordinator" 8,
    .resume "operator" 9,
    .claim "worker" "third" none none none 10]

theorem attempts_within_budget_requeued :
    ∃ r ∈ (after id freshLedger Sample.requeued).jobs, r.attemptCount = 3 ∧
      3 ≤ 2 + (traceOf id freshLedger Sample.requeued).countP (PutsBack r.jobId) := by
  obtain ⟨r, hr, hc⟩ : ∃ r ∈ (after id freshLedger Sample.requeued).jobs, r.attemptCount = 3 := by decide +kernel
  have hm : ∀ st ∈ traceOf id freshLedger Sample.requeued, ∀ config ∈ st.op.configured, config.maxAttempts = 2 := by
    decide +kernel
  obtain ⟨hle, -⟩ := attempts_within_budget id (run_after id freshLedger Sample.requeued)
    (fun st hst _ => hm st hst) hr
  exact ⟨r, hr, hc, hc ▸ hle⟩

end FidbPoc.Coordinator
