import FidbPoc.Coordinator.Refinement

namespace FidbPoc.Coordinator

open FidbPoc.Lib.Table

/-- An attempt that is over, other than by completing. -/
structure Attempt.Spent (a : Attempt) : Prop where
  state : a.state = .failed ∨ a.state = .expired
  ended : a.endedAt.isSome = true

theorem Attempt.Spent.not_live {a : Attempt} (h : a.Spent) : a.state.live = false := by
  rcases h.state with hs | hs <;> rw [hs] <;> rfl

theorem Attempt.Spent.not_complete {a : Attempt} (h : a.Spent) : a.state ≠ .complete := by
  rcases h.state with hs | hs <;> rw [hs] <;> simp

/-- A live attempt carries the lease columns of its job. -/
structure Attempt.Carries (a : Attempt) (r : Job) : Prop where
  state : r.state = .leased ∧ a.state = .leased ∨ r.state = .running ∧ a.state = .running
  leaseToken : r.leaseToken = some a.leaseToken
  worker : r.leasedBy = some a.workerId
  leaseExpiresAt : r.leaseExpiresAt = some a.leaseExpiresAt

theorem Attempt.Carries.live {a : Attempt} {r : Job} (h : a.Carries r) : a.state.live = true := by
  rcases h.state with ⟨-, hs⟩ | ⟨-, hs⟩ <;> rw [hs] <;> rfl

theorem Attempt.Carries.job_live {a : Attempt} {r : Job} (h : a.Carries r) : r.state.live = true := by
  rcases h.state with ⟨hs, -⟩ | ⟨hs, -⟩ <;> rw [hs] <;> rfl

/-- The attempts of a job by the job's own state: all spent, all spent but a live one
that carries the lease, or all spent but the one that completed. -/
inductive Mirror (r : Job) : List Attempt → Prop
  | idle {attempts : List Attempt} (hl : r.state.live = false) (hc : r.state ≠ .complete)
      (h : ∀ a ∈ attempts, a.Spent) : Mirror r attempts
  | live {earlier : List Attempt} {a : Attempt} (ha : a.Carries r) (h : ∀ x ∈ earlier, x.Spent) :
      Mirror r (earlier ++ [a])
  | complete {earlier : List Attempt} {a : Attempt} (hc : r.state = .complete) (ha : a.state = .complete)
      (he : a.endedAt.isSome = true) (h : ∀ x ∈ earlier, x.Spent) : Mirror r (earlier ++ [a])

/-- Attempts are numbered, and fenced, by their position. -/
structure Numbered (r : Job) (attempts : List Attempt) : Prop where
  owner : ∀ a ∈ attempts, a.jobId = r.jobId
  generation : r.leaseGeneration = r.attemptCount
  numbers : attempts.map (·.attemptNumber) = List.range' 1 r.attemptCount
  generations : attempts.map (·.leaseGeneration) = List.range' 1 r.attemptCount

def JobView.Mirrored (v : JobView) : Prop := ∀ r, v.job = some r → Numbered r v.attempts ∧ Mirror r v.attempts

section Steps

variable {r r' : Job} {attempts : List Attempt}

theorem Numbered.length (h : Numbered r attempts) : attempts.length = r.attemptCount := by
  simpa using congrArg List.length h.numbers

theorem Numbered.congr (h : Numbered r attempts) (hj : r'.jobId = r.jobId)
    (hg : r'.leaseGeneration = r.leaseGeneration) (hc : r'.attemptCount = r.attemptCount) : Numbered r' attempts where
  owner := by rw [hj]; exact h.owner
  generation := by rw [hg, hc]; exact h.generation
  numbers := by rw [hc]; exact h.numbers
  generations := by rw [hc]; exact h.generations

theorem Numbered.updateWhere (h : Numbered r attempts) {p : Attempt → Bool} {f : Attempt → Attempt}
    (hf : ∀ a, (f a).jobId = a.jobId ∧ (f a).attemptNumber = a.attemptNumber ∧
      (f a).leaseGeneration = a.leaseGeneration) : Numbered r (updateWhere p f attempts) where
  owner := by
    intro a ha
    obtain ⟨x, hx, rfl⟩ := mem_updateWhere.mp ha
    by_cases hp : p x = true
    · rw [if_pos hp, (hf x).1]; exact h.owner x hx
    · rw [if_neg hp]; exact h.owner x hx
  generation := h.generation
  numbers := by
    rw [map_updateWhere _ (fun a _ => (hf a).2.1)]
    exact h.numbers
  generations := by
    rw [map_updateWhere _ (fun a _ => (hf a).2.2)]
    exact h.generations

theorem Numbered.append (h : Numbered r attempts) {a : Attempt} (hj : a.jobId = r.jobId)
    (hn : a.attemptNumber = r.attemptCount + 1) (hg : a.leaseGeneration = r.leaseGeneration + 1)
    (hj' : r'.jobId = r.jobId) (hc' : r'.attemptCount = r.attemptCount + 1)
    (hg' : r'.leaseGeneration = r.leaseGeneration + 1) : Numbered r' (attempts ++ [a]) where
  owner := by
    intro x hx
    rw [hj']
    rcases List.mem_append.mp hx with hx | hx
    · exact h.owner x hx
    · rw [List.mem_singleton.mp hx]; exact hj
  generation := by rw [hg', hc', h.generation]
  numbers := by
    rw [List.map_append, h.numbers, hc', List.range'_1_concat]
    simp [hn, Nat.add_comm]
  generations := by
    rw [List.map_append, h.generations, hc', List.range'_1_concat]
    simp [hg, h.generation, Nat.add_comm]

theorem Numbered.last_generation {earlier : List Attempt} {a : Attempt} (hn : Numbered r (earlier ++ [a])) :
    a.leaseGeneration = r.leaseGeneration := by
  have hgens := hn.generations
  have hlen : earlier.length + 1 = r.attemptCount := by simpa using hn.length
  rw [← hlen, List.map_append, List.range'_1_concat] at hgens
  have hpair := List.append_inj hgens (by simp)
  have heq : a.leaseGeneration = 1 + earlier.length := by simpa using hpair.2
  rw [heq, hn.generation]
  omega

/-- The fenced update of a live lease reaches its last attempt and no other. -/
theorem updateWhere_live {earlier : List Attempt} {a : Attempt} (hn : Numbered r (earlier ++ [a]))
    (ha : a.state.live = true) (h : ∀ x ∈ earlier, x.Spent) (f : Attempt → Attempt) :
    updateWhere (fun a => a.liveFor r.jobId r.leaseGeneration) f (earlier ++ [a]) = earlier ++ [f a] := by
  have hlast : a.leaseGeneration = r.leaseGeneration := hn.last_generation
  have hself : a.liveFor r.jobId r.leaseGeneration = true := by
    simp [Attempt.liveFor, hn.owner a (by simp), hlast, ha]
  rw [updateWhere_append, updateWhere_eq_self]
  · simp [updateWhere, hself]
  · intro x hx
    simp [Attempt.liveFor, (h x hx).not_live]

/-- A live job has exactly one attempt that its lease can still write. -/
theorem Mirror.live_eq (h : Mirror r attempts) (hl : r.state.live = true) :
    ∃ earlier a, attempts = earlier ++ [a] ∧ a.Carries r ∧ ∀ x ∈ earlier, x.Spent := by
  cases h with
  | idle hl' => rw [hl] at hl'; cases hl'
  | live ha h => exact ⟨_, _, rfl, ha, h⟩
  | complete hc => rw [hc] at hl; cases hl

/-- The last attempt of a leased job is the one its lease can write. -/
theorem Mirror.last_generation (h : Mirror r attempts) (hn : Numbered r attempts)
    (hl : r.state.live = true) {a : Attempt} (ha : a ∈ attempts) (hg : a.leaseGeneration = r.leaseGeneration) :
    attempts.getLast? = some a ∧ a.Carries r := by
  obtain ⟨earlier, b, rfl, hb, hspent⟩ := h.live_eq hl
  have hlast : b.leaseGeneration = r.leaseGeneration := hn.last_generation
  have hnodup : ((earlier ++ [b]).map (·.leaseGeneration)).Nodup := by
    rw [hn.generations]
    exact List.nodup_range'
  have hab : a = b := key_injective hnodup ha (by simp) (hg.trans hlast.symm)
  rw [hab]
  exact ⟨by simp, hb⟩

theorem Mirror.spent (h : Mirror r attempts) (hl : r.state.live = false) (hc : r.state ≠ .complete) :
    ∀ a ∈ attempts, a.Spent := by
  cases h with
  | idle _ _ h => exact h
  | live ha => rw [ha.job_live] at hl; cases hl
  | complete hc' => exact (hc hc').elim

/-- A job whose state and lease columns are as before. -/
theorem Mirror.congr (h : Mirror r attempts) (hs : r'.state = r.state) (ht : r'.leaseToken = r.leaseToken)
    (hw : r'.leasedBy = r.leasedBy) (he : r'.leaseExpiresAt = r.leaseExpiresAt) : Mirror r' attempts := by
  cases h with
  | idle hl hc h => exact .idle (hs ▸ hl) (hs ▸ hc) h
  | live ha h =>
    refine .live ⟨?_, ?_, ?_, ?_⟩ h
    · rw [hs]; exact ha.state
    · rw [ht]; exact ha.leaseToken
    · rw [hw]; exact ha.worker
    · rw [he]; exact ha.leaseExpiresAt
  | complete hc ha he' h => exact .complete (hs.trans hc) ha he' h

end Steps

theorem Job.holds_live {r : Job} {token : String} {generation : Nat} {now : Time}
    (h : r.holds token generation now = true) : r.state.live = true := by
  simp only [Job.holds, Bool.and_eq_true] at h
  exact h.1.1.1

theorem Job.expired_live {r : Job} {now : Time} (h : r.expired now = true) : r.state.live = true := by
  simp only [Job.expired, Bool.and_eq_true] at h
  exact h.1

namespace JobView

variable {v : JobView}

theorem Mirrored.endLease (hv : v.Mirrored) {now : Time} {r : Job} {o : LeaseOutcome} (notes : List Event)
    (e : Event) (hr : v.job = some r) (hl : r.state.live = true)
    (ho : o.attempt = .expired ∨ o.attempt = .failed) (hs : o.state = .queued ∨ o.state = .failed) :
    (v.endLease now r o notes e).Mirrored := by
  intro r' hr'
  obtain rfl := Option.some.inj hr'
  obtain ⟨hn, hm⟩ := hv r hr
  refine ⟨Numbered.congr (hn.updateWhere ?_) rfl rfl rfl, ?_⟩
  · exact fun _ => ⟨rfl, rfl, rfl⟩
  obtain ⟨earlier, a, hattempts, ha, hspent⟩ := hm.live_eq hl
  simp only [JobView.endLease]
  rw [hattempts] at hn ⊢
  rw [updateWhere_live hn ha.live hspent]
  refine .idle ?_ ?_ ?_
  · simp only [Job.endLease, Job.unleased]
    rcases hs with hs | hs <;> rw [hs] <;> rfl
  · simp only [Job.endLease, Job.unleased]
    rcases hs with hs | hs <;> rw [hs] <;> simp
  · intro x hx
    rcases List.mem_append.mp hx with hx | hx
    · exact hspent x hx
    · rw [List.mem_singleton.mp hx]
      refine ⟨?_, rfl⟩
      simp only [Attempt.ended]
      exact ho.symm

/-- A move between states without a lease touches no attempt. -/
theorem Mirrored.idle (hv : v.Mirrored) {r r' : Job} (hr : v.job = some r) (hj : r'.jobId = r.jobId)
    (hg : r'.leaseGeneration = r.leaseGeneration) (hc : r'.attemptCount = r.attemptCount)
    (hl : r.state.live = false) (hn : r.state ≠ .complete) (hl' : r'.state.live = false)
    (hn' : r'.state ≠ .complete) : Numbered r' v.attempts ∧ Mirror r' v.attempts := by
  obtain ⟨hnum, hm⟩ := hv r hr
  exact ⟨hnum.congr hj hg hc, .idle hl' hn' (hm.spent hl hn)⟩

end JobView

/-- Every move keeps the mirror of a job and its attempts. -/
theorem JobStep.mirrored {now : Time} {n : Nat} {m : Move} {v v' : JobView} (h : JobStep now n m v v')
    (hv : v.Mirrored) : v'.Mirrored := by
  cases h with
  | @created jobId batchId planDigest generation row e he =>
    intro r hr
    obtain rfl := Option.some.inj hr
    refine ⟨⟨fun _ h => (List.not_mem_nil h).elim, rfl, rfl, rfl⟩, .idle ?_ ?_ fun _ h => (List.not_mem_nil h).elim⟩
    · simp only [newJob]; split <;> rfl
    · simp only [newJob]; split <;> simp
  | deselected hr =>
    intro r' hr'
    obtain rfl := Option.some.inj hr'
    obtain ⟨hn, hm⟩ := hv _ hr
    exact ⟨hn.congr rfl rfl rfl, hm.congr rfl rfl rfl rfl⟩
  | placed hr _ =>
    intro r' hr'
    obtain rfl := Option.some.inj hr'
    obtain ⟨hn, hm⟩ := hv _ hr
    exact ⟨hn.congr rfl rfl rfl, hm.congr rfl rfl rfl rfl⟩
  | claimed hr hq ha hid hsp he =>
    intro r' hr'
    obtain rfl := Option.some.inj hr'
    obtain ⟨hn, hm⟩ := hv _ hr
    refine ⟨hn.append rfl rfl rfl rfl rfl rfl, .live ⟨.inl ⟨rfl, rfl⟩, rfl, rfl, rfl⟩ ?_⟩
    exact hm.spent (by rw [hq]; rfl) (by rw [hq]; simp)
  | renewed hr hh he =>
    intro r' hr'
    obtain rfl := Option.some.inj hr'
    obtain ⟨hn, hm⟩ := hv _ hr
    refine ⟨Numbered.congr (hn.updateWhere ?_) rfl rfl rfl, ?_⟩
    · exact fun _ => ⟨rfl, rfl, rfl⟩
    obtain ⟨earlier, a, hattempts, ha, hspent⟩ := hm.live_eq (Job.holds_live hh)
    rw [hattempts] at hn ⊢
    rw [updateWhere_live hn ha.live hspent]
    exact .live ⟨ha.state, ha.leaseToken, ha.worker, rfl⟩ hspent
  | staged hr hh ha hlive hs he =>
    intro r' hr'
    obtain rfl := Option.some.inj hr'
    obtain ⟨hn, hm⟩ := hv _ hr
    refine ⟨Numbered.congr (hn.updateWhere ?_) rfl rfl rfl, ?_⟩
    · exact fun _ => ⟨rfl, rfl, rfl⟩
    obtain ⟨earlier, a, hattempts, ha, hspent⟩ := hm.live_eq (Job.holds_live hh)
    rw [hattempts] at hn ⊢
    rw [updateWhere_live hn ha.live hspent]
    exact .live ⟨.inr ⟨rfl, rfl⟩, ha.leaseToken, ha.worker, ha.leaseExpiresAt⟩ hspent
  | completed hr hh hopen he =>
    intro r' hr'
    obtain rfl := Option.some.inj hr'
    obtain ⟨hn, hm⟩ := hv _ hr
    refine ⟨Numbered.congr (hn.updateWhere ?_) rfl rfl rfl, ?_⟩
    · exact fun _ => ⟨rfl, rfl, rfl⟩
    obtain ⟨earlier, a, hattempts, ha, hspent⟩ := hm.live_eq (Job.holds_live hh)
    rw [hattempts] at hn ⊢
    rw [updateWhere_live hn ha.live hspent]
    exact .complete rfl rfl rfl hspent
  | expired hr hx ho hn he =>
    refine hv.endLease _ _ hr (Job.expired_live hx) (.inl ho) ?_
    exact he.imp (fun h => h.1) (fun h => h.1)
  | failed hr hh ho hn he =>
    refine hv.endLease _ _ hr (Job.holds_live hh) (.inr ho) ?_
    exact he.imp (fun h => h.1) (fun h => h.1)
  | @failedPathological _ _ _ _ _ _ notes e _ _ _ _ hr hh ho hn hs he hno hq he' =>
    exact hv.endLease notes e hr (Job.holds_live hh) (.inr ho) (.inr hs)
  | interrupted hr hl ho hn hs he => exact hv.endLease _ _ hr hl (.inr ho) (.inl hs)
  | @quarantined _ r q e reason cause hr ha hs hno hq he =>
    intro r' hr'
    obtain rfl := Option.some.inj hr'
    have hidle : r.state.live = false ∧ r.state ≠ .complete := by
      rcases hs with hs | hs <;> rw [hs] <;> simp [JobState.live]
    by_cases hqueued : r.state = .queued
    · rw [if_pos hqueued]
      exact hv.idle hr rfl rfl rfl hidle.1 hidle.2 rfl (by simp [Job.pathological])
    · rw [if_neg hqueued]
      exact hv.idle hr rfl rfl rfl hidle.1 hidle.2 hidle.1 hidle.2
  | @released _ r q e reason hr hq ha hone he =>
    intro r' hr'
    obtain rfl := Option.some.inj hr'
    by_cases hf : r.state = .failed
    · rw [if_pos hf]
      exact hv.idle hr rfl rfl rfl (by rw [hf]; rfl) (by rw [hf]; simp) rfl (by simp [Job.requeued])
    · rw [if_neg hf]
      exact hv r hr
  | requeued hr ha hs he =>
    intro r' hr'
    obtain rfl := Option.some.inj hr'
    exact hv.idle hr rfl rfl rfl (by rw [hs]; rfl) (by rw [hs]; simp) rfl (by simp [Job.requeued])

theorem reachable_mirrored {sha256 : String → String} {s : Ledger} (h : Reachable sha256 s) :
    s.WellFormed ∧ ∀ j, (s.view j).Mirrored :=
  reachable_invariant (fun _ hr => by cases hr) (fun _ _ _ _ _ hstep hv => hstep.mirrored hv) h

def attemptsOf (s : Ledger) (jobId : String) : List Attempt :=
  s.attempts.filter (fun a => decide (a.jobId = jobId))

/-- Over, with the time it ended. -/
def Attempt.Terminal (a : Attempt) : Prop :=
  (a.state = .complete ∨ a.state = .failed ∨ a.state = .expired) ∧ a.endedAt ≠ none

/-- The lease columns that a job and its live attempt share. -/
def Attempt.SharesLease (a : Attempt) (r : Job) : Prop :=
  r.leaseToken = some a.leaseToken ∧ r.leasedBy = some a.workerId ∧ r.leaseExpiresAt = some a.leaseExpiresAt

theorem Attempt.Spent.terminal {a : Attempt} (h : a.Spent) : a.Terminal :=
  ⟨.inr h.state, Option.isSome_iff_ne_none.mp h.ended⟩

/-- The two readings of the lease, from the job row and from its last attempt, agree. -/
theorem Mirror.live_iff {r : Job} {attempts : List Attempt} (h : Mirror r attempts) :
    (r.state = .leased ↔ ∃ a, attempts.getLast? = some a ∧ a.state = .leased ∧ a.SharesLease r) ∧
      (r.state = .running ↔ ∃ a, attempts.getLast? = some a ∧ a.state = .running ∧ a.SharesLease r) := by
  cases h with
  | idle hl hc h =>
    have hnot : ∀ a, attempts.getLast? = some a → a.state.live = false :=
      fun a ha => (h a (List.mem_of_getLast? ha)).not_live
    refine ⟨⟨fun hs => ?_, ?_⟩, ⟨fun hs => ?_, ?_⟩⟩
    · rw [hs] at hl; cases hl
    · rintro ⟨a, ha, hs, -⟩
      have hl := hnot a ha
      rw [hs] at hl; cases hl
    · rw [hs] at hl; cases hl
    · rintro ⟨a, ha, hs, -⟩
      have hl := hnot a ha
      rw [hs] at hl; cases hl
  | @live earlier a ha h =>
    have hshare : a.SharesLease r := ⟨ha.leaseToken, ha.worker, ha.leaseExpiresAt⟩
    simp only [List.getLast?_append, List.getLast?_singleton, Option.some_or, Option.some.injEq]
    rcases ha.state with ⟨hr, hs⟩ | ⟨hr, hs⟩
    · refine ⟨⟨fun _ => ⟨a, rfl, hs, hshare⟩, fun _ => hr⟩, ⟨fun hr' => ?_, ?_⟩⟩
      · rw [hr] at hr'; cases hr'
      · rintro ⟨_, rfl, hs', -⟩
        rw [hs] at hs'; cases hs'
    · refine ⟨⟨fun hr' => ?_, ?_⟩, ⟨fun _ => ⟨a, rfl, hs, hshare⟩, fun _ => hr⟩⟩
      · rw [hr] at hr'; cases hr'
      · rintro ⟨_, rfl, hs', -⟩
        rw [hs] at hs'; cases hs'
  | complete hc ha he h =>
    simp only [List.getLast?_append, List.getLast?_singleton, Option.some_or, Option.some.injEq]
    refine ⟨⟨fun hs => ?_, ?_⟩, ⟨fun hs => ?_, ?_⟩⟩
    · rw [hc] at hs; cases hs
    · rintro ⟨_, rfl, hs, -⟩
      rw [ha] at hs; cases hs
    · rw [hc] at hs; cases hs
    · rintro ⟨_, rfl, hs, -⟩
      rw [ha] at hs; cases hs

theorem Mirror.terminal {r : Job} {attempts : List Attempt} (h : Mirror r attempts) :
    (∀ a ∈ attempts.dropLast, a.Terminal) ∧
      (r.state.live = false → ∀ a, attempts.getLast? = some a → a.Terminal) := by
  cases h with
  | idle hl hc h =>
    exact ⟨fun a ha => (h a ((List.dropLast_sublist attempts).subset ha)).terminal,
      fun _ a ha => (h a (List.mem_of_getLast? ha)).terminal⟩
  | live ha h =>
    rw [List.dropLast_concat]
    exact ⟨fun a ha => (h a ha).terminal, fun hl => by rw [ha.job_live] at hl; cases hl⟩
  | complete hc ha he h =>
    rw [List.dropLast_concat]
    refine ⟨fun a ha => (h a ha).terminal, fun _ x hx => ?_⟩
    simp only [List.getLast?_append, List.getLast?_singleton, Option.some_or, Option.some.injEq] at hx
    exact hx ▸ ⟨.inl ha, Option.isSome_iff_ne_none.mp he⟩

theorem Mirror.complete_unique {r : Job} {attempts : List Attempt} (h : Mirror r attempts) {a a' : Attempt}
    (ha : a ∈ attempts) (ha' : a' ∈ attempts) (hc : a.state = .complete) (hc' : a'.state = .complete) :
    a = a' ∧ r.state = .complete := by
  cases h with
  | idle hl hn h => exact ((h a ha).not_complete hc).elim
  | @live earlier b hb h =>
    rcases List.mem_append.mp ha with ha | ha
    · exact ((h a ha).not_complete hc).elim
    · have hl := hb.live
      rw [← List.mem_singleton.mp ha, hc] at hl
      cases hl
  | @complete earlier b hr hb he h =>
    have hlast : ∀ x ∈ earlier ++ [b], x.state = .complete → x = b := by
      intro x hx hxc
      rcases List.mem_append.mp hx with hx | hx
      · exact ((h x hx).not_complete hxc).elim
      · exact List.mem_singleton.mp hx
    exact ⟨(hlast a ha hc).trans (hlast a' ha' hc').symm, hr⟩

theorem Mirror.complete_iff {r : Job} {attempts : List Attempt} (h : Mirror r attempts) :
    r.state = .complete ↔ ∃ a, attempts.getLast? = some a ∧ a.state = .complete := by
  cases h with
  | idle hl hc h =>
    refine ⟨fun hs => (hc hs).elim, ?_⟩
    rintro ⟨a, ha, hs⟩
    exact ((h a (List.mem_of_getLast? ha)).not_complete hs).elim
  | live ha h =>
    simp only [List.getLast?_append, List.getLast?_singleton, Option.some_or, Option.some.injEq]
    refine ⟨fun hs => ?_, ?_⟩
    · have hl := ha.job_live
      rw [hs] at hl; cases hl
    · rintro ⟨_, rfl, hs⟩
      have hl := ha.live
      rw [hs] at hl; cases hl
  | @complete earlier a hc ha he h =>
    simp only [List.getLast?_append, List.getLast?_singleton, Option.some_or, Option.some.injEq]
    exact ⟨fun _ => ⟨a, rfl, ha⟩, fun _ => hc⟩

/-- In every reachable ledger each job row and its attempts mirror each other. -/
theorem job_mirrors_attempts (sha256 : String → String) {s : Ledger} (h : Reachable sha256 s) {r : Job}
    (hr : r ∈ s.jobs) :
    r.leaseGeneration = r.attemptCount ∧
    (attemptsOf s r.jobId).length = r.attemptCount ∧
    (attemptsOf s r.jobId).map (·.attemptNumber) = List.range' 1 r.attemptCount ∧
    (attemptsOf s r.jobId).map (·.leaseGeneration) = List.range' 1 r.attemptCount ∧
    (r.state = .leased ↔
      ∃ a, (attemptsOf s r.jobId).getLast? = some a ∧ a.state = .leased ∧ a.SharesLease r) ∧
    (r.state = .running ↔
      ∃ a, (attemptsOf s r.jobId).getLast? = some a ∧ a.state = .running ∧ a.SharesLease r) ∧
    (∀ a ∈ (attemptsOf s r.jobId).dropLast, a.Terminal) ∧
    (r.state.live = false → ∀ a, (attemptsOf s r.jobId).getLast? = some a → a.Terminal) ∧
    (r.state = .complete ↔ ∃ a, (attemptsOf s r.jobId).getLast? = some a ∧ a.state = .complete) := by
  obtain ⟨hs, hv⟩ := reachable_mirrored h
  obtain ⟨hn, hm⟩ := hv r.jobId r (Ledger.job?_of_mem hs hr)
  exact ⟨hn.generation, hn.length, hn.numbers, hn.generations, hm.live_iff.1, hm.live_iff.2, hm.terminal.1,
    hm.terminal.2, hm.complete_iff⟩

/-- A job that failed once and is leased again. -/
def Sample.retried : List Op :=
  [.syncQueue Sample.queueA (Sample.resolve "1") "coordinator" 0,
    .claim "worker" "first" none none none 1,
    .fail (Sample.jobId "a" "1") "first" 1 "broken" true none false 2,
    .claim "worker" "second" none none none 3]

theorem job_mirrors_attempts_retried :
    ∃ r ∈ (after id freshLedger Sample.retried).jobs, r.state = .leased ∧ r.leaseToken = some "second" ∧
      (attemptsOf (after id freshLedger Sample.retried) r.jobId).length = 2 ∧ r.leaseGeneration = 2 := by
  obtain ⟨r, hr, hs, ht, hc⟩ : ∃ r ∈ (after id freshLedger Sample.retried).jobs, r.state = .leased ∧
      r.leaseToken = some "second" ∧ r.attemptCount = 2 := by decide +kernel
  obtain ⟨hgen, hlen, -⟩ := job_mirrors_attempts id (reachable_after id Sample.retried) hr
  exact ⟨r, hr, hs, ht, hlen.trans hc, hgen.trans hc⟩

end FidbPoc.Coordinator
