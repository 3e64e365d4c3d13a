import FidbPoc.Coordinator.Mirror

namespace FidbPoc.Coordinator

open FidbPoc.Lib FidbPoc.Lib.Table

theorem maxOf_append (xs ys : List Nat) : maxOf (xs ++ ys) = max (maxOf xs) (maxOf ys) := by
  induction xs with
  | nil => simp [maxOf]
  | cons x xs ih =>
    simp only [maxOf, List.cons_append, List.foldr_cons] at ih ⊢
    rw [ih, Nat.max_assoc]

theorem maxOf_range' (n : Nat) : maxOf (List.range' 1 n) = n := by
  induction n with
  | zero => rfl
  | succ n ih =>
    rw [List.range'_1_concat, maxOf_append, ih]
    simp only [maxOf, List.foldr_cons, List.foldr_nil]
    omega

/-- Spans of one attempt are numbered in order, and so are the tries of each stage;
only the last span may be open. -/
structure Sequenced (spans : List StageAttempt) : Prop where
  sequences : spans.map (·.sequence) = List.range' 1 spans.length
  tries : ∀ stage, (spans.filter (fun x => decide (x.stage = stage))).map (·.stageAttempt) =
    List.range' 1 (spans.filter (fun x => decide (x.stage = stage))).length
  earlier : ∀ x ∈ spans.dropLast, x.state ≠ .started

namespace Sequenced

variable {spans : List StageAttempt}

theorem nil : Sequenced [] := ⟨rfl, fun _ => rfl, fun _ h => (List.not_mem_nil h).elim⟩

theorem nextSequence_eq (h : Sequenced spans) : nextSequence spans = spans.length + 1 := by
  rw [nextSequence, h.sequences, maxOf_range']

theorem nextStageAttempt_eq (h : Sequenced spans) (stage : String) :
    nextStageAttempt spans stage = (spans.filter (fun x => decide (x.stage = stage))).length + 1 := by
  rw [nextStageAttempt, h.tries, maxOf_range']

theorem append (h : Sequenced spans) {x : StageAttempt} (hopen : ∀ y ∈ spans, y.state ≠ .started)
    (hseq : x.sequence = nextSequence spans) (htry : x.stageAttempt = nextStageAttempt spans x.stage) :
    Sequenced (spans ++ [x]) where
  sequences := by
    rw [List.map_append, h.sequences, List.length_append, List.length_singleton, List.range'_1_concat]
    simp only [List.map_cons, List.map_nil, hseq, h.nextSequence_eq, Nat.add_comm]
  tries := by
    intro stage
    by_cases hst : x.stage = stage
    · have hlast : [x].filter (fun y => decide (y.stage = stage)) = [x] := by simp [hst]
      rw [List.filter_append, hlast, List.map_append, h.tries, List.length_append, List.length_singleton,
        List.range'_1_concat]
      simp only [List.map_cons, List.map_nil, htry, h.nextStageAttempt_eq, hst, Nat.add_comm]
    · have hlast : [x].filter (fun y => decide (y.stage = stage)) = [] := by simp [hst]
      rw [List.filter_append, hlast, List.append_nil]
      exact h.tries stage
  earlier := by
    rw [List.dropLast_concat]
    exact hopen

/-- Closing spans renumbers nothing and opens nothing. -/
theorem updateWhere (h : Sequenced spans) {p : StageAttempt → Bool} {f : StageAttempt → StageAttempt}
    (hf : ∀ x, (f x).sequence = x.sequence ∧ (f x).stage = x.stage ∧ (f x).stageAttempt = x.stageAttempt)
    (hclosed : ∀ x, (f x).state ≠ .started) : Sequenced (updateWhere p f spans) where
  sequences := by
    rw [map_updateWhere _ (fun x _ => (hf x).1), length_updateWhere]
    exact h.sequences
  tries := by
    intro stage
    rw [filter_updateWhere (fun x _ => by rw [(hf x).2.1]), map_updateWhere _ (fun x _ => (hf x).2.2),
      length_updateWhere]
    exact h.tries stage
  earlier := by
    intro x hx
    rw [FidbPoc.Lib.Table.updateWhere, ← List.map_dropLast] at hx
    obtain ⟨y, hy, rfl⟩ := List.mem_map.mp hx
    by_cases hp : p y = true
    · rw [if_pos hp]; exact hclosed y
    · rw [if_neg hp]; exact h.earlier y hy

/-- An open span is the last one. -/
theorem open_last (h : Sequenced spans) {x : StageAttempt} (hx : x ∈ spans) (ho : x.state = .started) :
    spans.getLast? = some x := by
  have hne : spans ≠ [] := List.ne_nil_of_mem hx
  rw [← List.dropLast_append_getLast hne] at hx
  rcases List.mem_append.mp hx with hx | hx
  · exact (h.earlier x hx ho).elim
  · rw [List.mem_singleton.mp hx, List.getLast?_eq_some_getLast hne]

theorem open_unique (h : Sequenced spans) {x y : StageAttempt} (hx : x ∈ spans) (hy : y ∈ spans)
    (hxo : x.state = .started) (hyo : y.state = .started) : x = y :=
  Option.some.inj ((h.open_last hx hxo).symm.trans (h.open_last hy hyo))

theorem sequence_le (h : Sequenced spans) {x : StageAttempt} (hx : x ∈ spans) (ho : x.state = .started) :
    ∀ y ∈ spans, y.sequence ≤ x.sequence := by
  intro y hy
  have hlast : (spans.map (·.sequence)).getLast? = some x.sequence := by
    rw [List.getLast?_map, h.open_last hx ho]
    rfl
  have hmem : y.sequence ∈ List.range' 1 spans.length := h.sequences ▸ List.mem_map_of_mem hy
  rw [h.sequences] at hlast
  have hpos : 0 < spans.length := List.length_pos_of_mem hx
  obtain ⟨n, hn⟩ : ∃ n, spans.length = n + 1 := ⟨spans.length - 1, by omega⟩
  rw [hn, List.range'_1_concat, List.getLast?_append, List.getLast?_singleton, Option.some_or,
    Option.some.injEq] at hlast
  rw [List.mem_range'_1] at hmem
  omega

theorem countP_le_one (h : Sequenced spans) : spans.countP (fun x => decide (x.state = .started)) ≤ 1 := by
  rcases spans.eq_nil_or_concat with rfl | ⟨init, x, rfl⟩
  · exact Nat.zero_le _
  · rw [List.concat_eq_append] at h ⊢
    have hearlier := h.earlier
    rw [List.dropLast_concat] at hearlier
    have hnone : init.countP (fun x => decide (x.state = .started)) = 0 := by
      rw [List.countP_eq_zero]
      intro y hy
      simpa using hearlier y hy
    rw [List.countP_append, hnone, List.countP_singleton]
    split <;> omega

end Sequenced

/-- The spans of a job by its attempts; only a live job has one open, of the attempt
it is leased for, and that span is its current stage. -/
structure Spanned (r : Job) (attempts : List Attempt) (spans : List StageAttempt) : Prop where
  attempt : ∀ x ∈ spans, ∃ a ∈ attempts, a.attemptId = x.attemptId ∧ a.leaseGeneration = x.leaseGeneration
  owner : ∀ x ∈ spans, x.jobId = r.jobId
  sequenced : ∀ id, Sequenced (spans.filter (fun x => decide (x.attemptId = id)))
  opened : ∀ x ∈ spans, x.state = .started →
    r.state.live = true ∧ x.leaseGeneration = r.leaseGeneration ∧ r.currentStage = some x.stage
  current : r.currentStage ≠ none → ∃ x ∈ spans, x.state = .started

def JobView.Spanned (v : JobView) : Prop :=
  ∀ r, v.job = some r → FidbPoc.Coordinator.Spanned r v.attempts v.spans

namespace Spanned

variable {r r' : Job} {attempts attempts' : List Attempt} {spans : List StageAttempt}

theorem congr (h : Spanned r attempts spans) (hj : r'.jobId = r.jobId) (hs : r'.state = r.state)
    (hg : r'.leaseGeneration = r.leaseGeneration) (hc : r'.currentStage = r.currentStage) :
    Spanned r' attempts spans where
  attempt := h.attempt
  owner := by rw [hj]; exact h.owner
  sequenced := h.sequenced
  opened := by rw [hs, hg, hc]; exact h.opened
  current := by rw [hc]; exact h.current

theorem of_attempts (h : Spanned r attempts spans)
    (ha : ∀ a ∈ attempts, ∃ a' ∈ attempts', a'.attemptId = a.attemptId ∧ a'.leaseGeneration = a.leaseGeneration) :
    Spanned r attempts' spans :=
  { h with
    attempt := by
      intro x hx
      obtain ⟨a, hm, hid, hgen⟩ := h.attempt x hx
      obtain ⟨a', hm', hid', hgen'⟩ := ha a hm
      exact ⟨a', hm', hid'.trans hid, hgen'.trans hgen⟩ }

theorem updateAttempts (h : Spanned r attempts spans) {p : Attempt → Bool} {f : Attempt → Attempt}
    (hf : ∀ a, (f a).attemptId = a.attemptId ∧ (f a).leaseGeneration = a.leaseGeneration) :
    Spanned r (updateWhere p f attempts) spans := by
  refine h.of_attempts fun a ha => ⟨_, mem_updateWhere.mpr ⟨a, ha, rfl⟩, ?_⟩
  split
  · exact hf a
  · exact ⟨rfl, rfl⟩

/-- Without a lease nothing is open. -/
theorem none_open (h : Spanned r attempts spans) (hl : r.state.live = false) : ∀ x ∈ spans, x.state ≠ .started := by
  intro x hx hs
  have hlive := (h.opened x hx hs).1
  rw [hl] at hlive
  cases hlive

theorem currentStage_eq (h : Spanned r attempts spans) (ho : ∀ x ∈ spans, x.state ≠ .started) :
    r.currentStage = none := by
  by_contra hc
  obtain ⟨x, hx, hs⟩ := h.current hc
  exact ho x hx hs

/-- Once every span is closed, the job may go on to any state with no current stage. -/
theorem settled (h : Spanned r attempts spans) (ho : ∀ x ∈ spans, x.state ≠ .started) (hj : r'.jobId = r.jobId)
    (hc : r'.currentStage = none) : Spanned r' attempts spans where
  attempt := h.attempt
  owner := by rw [hj]; exact h.owner
  sequenced := h.sequenced
  opened := fun x hx hs => (ho x hx hs).elim
  current := fun hne => (hne hc).elim

/-- Closing spans, the open ones among them, leaves a job without a current stage. -/
theorem close (h : Spanned r attempts spans) {p : StageAttempt → Bool} {f : StageAttempt → StageAttempt}
    (hf : ∀ x, (f x).sequence = x.sequence ∧ (f x).stage = x.stage ∧ (f x).stageAttempt = x.stageAttempt)
    (hkey : ∀ x, (f x).attemptId = x.attemptId ∧ (f x).jobId = x.jobId ∧ (f x).leaseGeneration = x.leaseGeneration)
    (hclosed : ∀ x, (f x).state ≠ .started) (hp : ∀ x ∈ spans, x.state = .started → p x = true)
    (hj : r'.jobId = r.jobId) (hc : r'.currentStage = none) : Spanned r' attempts (updateWhere p f spans) := by
  have hmem : ∀ y ∈ updateWhere p f spans, ∃ x ∈ spans, y.attemptId = x.attemptId ∧ y.jobId = x.jobId ∧
      y.leaseGeneration = x.leaseGeneration ∧ y.state ≠ .started := by
    intro y hy
    obtain ⟨x, hx, rfl⟩ := mem_updateWhere.mp hy
    refine ⟨x, hx, ?_⟩
    by_cases hpx : p x = true
    · rw [if_pos hpx]
      exact ⟨(hkey x).1, (hkey x).2.1, (hkey x).2.2, hclosed x⟩
    · rw [if_neg hpx]
      exact ⟨rfl, rfl, rfl, fun hs => hpx (hp x hx hs)⟩
  refine ⟨?_, ?_, ?_, ?_, fun hne => (hne hc).elim⟩
  · intro y hy
    obtain ⟨x, hx, hid, -, hgen, -⟩ := hmem y hy
    rw [hid, hgen]
    exact h.attempt x hx
  · intro y hy
    obtain ⟨x, hx, -, hjob, -⟩ := hmem y hy
    rw [hjob, hj]
    exact h.owner x hx
  · intro id
    rw [filter_updateWhere (fun x _ => by rw [(hkey x).1])]
    exact (h.sequenced id).updateWhere hf hclosed
  · intro y hy hs
    obtain ⟨x, -, -, -, -, hopen⟩ := hmem y hy
    exact (hopen hs).elim

/-- The attempt a lease writes is the one its open span belongs to. -/
theorem opened_attempt (h : Spanned r attempts spans) (hn : Numbered r attempts) {a : Attempt} (ha : a ∈ attempts)
    (hg : a.leaseGeneration = r.leaseGeneration) {x : StageAttempt} (hx : x ∈ spans) (hs : x.state = .started) :
    x.attemptId = a.attemptId := by
  obtain ⟨b, hb, hid, hgen⟩ := h.attempt x hx
  have hnodup : (attempts.map (·.leaseGeneration)).Nodup := by
    rw [hn.generations]
    exact List.nodup_range'
  have hba : b = a := key_injective hnodup hb ha (hgen.trans ((h.opened x hx hs).2.1.trans hg.symm))
  rw [← hid, hba]

/-- A span appended for the leased attempt, when none was open. -/
theorem follow (h : Spanned r attempts spans) {a : Attempt} (ha : a ∈ attempts) (haj : a.jobId = r.jobId)
    (hg : a.leaseGeneration = r.leaseGeneration) {x : StageAttempt} (hx : x.Follows a spans)
    (ho : ∀ y ∈ spans, y.state ≠ .started) (hj : r'.jobId = r.jobId)
    (hr : x.state = .started ∧ r'.state.live = true ∧ r'.leaseGeneration = r.leaseGeneration ∧
      r'.currentStage = some x.stage ∨ x.state ≠ .started ∧ r'.currentStage = none) :
    Spanned r' attempts (spans ++ [x]) where
  attempt := by
    intro y hy
    rcases List.mem_append.mp hy with hy | hy
    · exact h.attempt y hy
    · rw [List.mem_singleton.mp hy]
      exact ⟨a, ha, hx.attemptId.symm, hx.leaseGeneration.symm⟩
  owner := by
    intro y hy
    rw [hj]
    rcases List.mem_append.mp hy with hy | hy
    · exact h.owner y hy
    · rw [List.mem_singleton.mp hy]
      exact hx.jobId.trans haj
  sequenced := by
    intro id
    rw [List.filter_append]
    by_cases hid : x.attemptId = id
    · have hlast : [x].filter (fun y => decide (y.attemptId = id)) = [x] := by simp [hid]
      have hid' : a.attemptId = id := hx.attemptId.symm.trans hid
      rw [hlast]
      refine (h.sequenced id).append ?_ (hid' ▸ hx.sequence) (hid' ▸ hx.stageAttempt)
      exact fun y hy => ho y (List.mem_of_mem_filter hy)
    · have hlast : [x].filter (fun y => decide (y.attemptId = id)) = [] := by simp [hid]
      rw [hlast, List.append_nil]
      exact h.sequenced id
  opened := by
    intro y hy hs
    rcases List.mem_append.mp hy with hy | hy
    · exact (ho y hy hs).elim
    · rw [List.mem_singleton.mp hy] at hs ⊢
      rcases hr with ⟨-, hl, hg', hc⟩ | ⟨hns, -⟩
      · exact ⟨hl, hx.leaseGeneration.trans (hg.trans hg'.symm), hc⟩
      · exact (hns hs).elim
  current := by
    intro hne
    rcases hr with ⟨hs, -⟩ | ⟨-, hc⟩
    · exact ⟨x, by simp, hs⟩
    · exact (hne hc).elim

/-- What a stage report does keeps the spans in order. -/
theorem report (h : Spanned r attempts spans) (hn : Numbered r attempts) {a : Attempt} (ha : a ∈ attempts)
    (hlive : a.liveFor r.jobId r.leaseGeneration = true) {stage : Option String} {spans' : List StageAttempt}
    (hs : SpanStep a spans stage spans') (hj : r'.jobId = r.jobId) (hl : r'.state.live = true)
    (hg : r'.leaseGeneration = r.leaseGeneration) (hc : r'.currentStage = stage) : Spanned r' attempts spans' := by
  have hgen : a.leaseGeneration = r.leaseGeneration := by
    simp only [Attempt.liveFor, Bool.and_eq_true, decide_eq_true_eq] at hlive
    exact hlive.1.2
  have hnone : (∀ y ∈ spans, y.attemptId = a.attemptId → y.state ≠ .started) → ∀ y ∈ spans, y.state ≠ .started :=
    fun ho y hy hs => ho y hy (h.opened_attempt hn ha hgen hy hs) hs
  cases hs with
  | opened hopen hx hs => exact h.follow ha (hn.owner a ha) hgen hx (hnone hopen) hj (.inl ⟨hs, hl, hg, hc⟩)
  | skipped hopen hx hs =>
    exact h.follow ha (hn.owner a ha) hgen hx (hnone hopen) hj (.inr ⟨by rw [hs]; simp, hc⟩)
  | @closed x report hx hid hs hstatus =>
    refine h.close ?_ ?_ ?_ ?_ hj hc
    · exact fun _ => ⟨rfl, rfl, rfl⟩
    · exact fun _ => ⟨rfl, rfl, rfl⟩
    · intro y
      simp only [StageAttempt.closed]
      rcases hstatus with hstatus | hstatus <;> rw [hstatus] <;> simp [StageStatus.span]
    · -- the open span of the attempt is the only one
      intro y hy hyo
      have hx' : x ∈ spans.filter (fun z => decide (z.attemptId = a.attemptId)) := by simp [hx, hid]
      have hy' : y ∈ spans.filter (fun z => decide (z.attemptId = a.attemptId)) := by
        simp [hy, h.opened_attempt hn ha hgen hy hyo]
      exact decide_eq_true ((h.sequenced _).open_unique hy' hx' hyo hs)

end Spanned

theorem JobView.Spanned.endLease {v : JobView} (hv : v.Spanned) {now : Time} {r : Job} {o : LeaseOutcome}
    (notes : List Event) (e : Event) (hr : v.job = some r) : (v.endLease now r o notes e).Spanned := by
  intro r' hr'
  obtain rfl := Option.some.inj hr'
  have h := hv r hr
  refine Spanned.close (h.updateAttempts ?_) ?_ ?_ ?_ ?_ rfl rfl
  · exact fun _ => ⟨rfl, rfl⟩
  · exact fun _ => ⟨rfl, rfl, rfl⟩
  · exact fun _ => ⟨rfl, rfl, rfl⟩
  · intro x
    simp [StageAttempt.interrupted]
  · intro x hx hs
    simp [StageAttempt.openFor, h.owner x hx, (h.opened x hx hs).2.1, hs]

/-- Every move keeps the spans of a job in step with its lease. -/
theorem JobStep.spanned {now : Time} {n : Nat} {m : Move} {v v' : JobView} (h : JobStep now n m v v')
    (hm : v.Mirrored) (hv : v.Spanned) : v'.Spanned := by
  cases h with
  | created he =>
    intro r hr
    obtain rfl := Option.some.inj hr
    exact ⟨fun _ h => (List.not_mem_nil h).elim, fun _ h => (List.not_mem_nil h).elim, fun _ => .nil,
      fun _ h => (List.not_mem_nil h).elim, fun h => (h rfl).elim⟩
  | deselected hr | placed hr _ =>
    intro r' hr'
    obtain rfl := Option.some.inj hr'
    exact (hv _ hr).congr rfl rfl rfl rfl
  | claimed hr hq ha hid hsp he =>
    intro r' hr'
    obtain rfl := Option.some.inj hr'
    have ho := (hv _ hr).none_open (by rw [hq]; rfl)
    refine Spanned.settled ((hv _ hr).of_attempts ?_) ho rfl rfl
    exact fun a ha => ⟨a, List.mem_append_left _ ha, rfl, rfl⟩
  | renewed hr hh he =>
    intro r' hr'
    obtain rfl := Option.some.inj hr'
    refine Spanned.congr ((hv _ hr).updateAttempts ?_) rfl rfl rfl rfl
    exact fun _ => ⟨rfl, rfl⟩
  | @staged _ r token generation stageAttemptId stageAttempt a stage spans report startedAt e hr hh ha hlive hs he =>
    intro r' hr'
    obtain rfl := Option.some.inj hr'
    have hrep : Spanned { r with state := .running, currentStage := stage, updatedAt := now } v.attempts spans :=
      (hv r hr).report (hm r hr).1 ha hlive hs rfl rfl rfl rfl
    exact hrep.updateAttempts fun _ => ⟨rfl, rfl⟩
  | @completed _ r token result generation e hr hh hopen he =>
    intro r' hr'
    obtain rfl := Option.some.inj hr'
    have h := hv r hr
    have ho : ∀ x ∈ v.spans, x.state ≠ .started := by
      intro x hx hs
      have hx' := hopen x hx
      simp [StageAttempt.openFor, h.owner x hx, (h.opened x hx hs).2.1, hs] at hx'
    refine Spanned.settled (h.updateAttempts ?_) ho rfl rfl
    exact fun _ => ⟨rfl, rfl⟩
  | expired hr hx ho hn he => exact hv.endLease _ _ hr
  | failed hr hh ho hn he => exact hv.endLease _ _ hr
  | @failedPathological _ _ _ _ _ _ notes e _ _ _ _ hr hh ho hn hs he hno hq he' => exact hv.endLease notes e hr
  | interrupted hr hl ho hn hs he => exact hv.endLease _ _ hr
  | @quarantined _ r q e reason cause hr ha hs hno hq he =>
    intro r' hr'
    obtain rfl := Option.some.inj hr'
    have h := hv r hr
    have ho := h.none_open (by rcases hs with hs | hs <;> rw [hs] <;> rfl)
    by_cases hqueued : r.state = .queued
    · rw [if_pos hqueued]
      exact h.settled ho rfl (h.currentStage_eq ho)
    · rw [if_neg hqueued]
      exact h
  | @released _ r q e reason hr hq ha hone he =>
    intro r' hr'
    obtain rfl := Option.some.inj hr'
    have h := hv r hr
    by_cases hf : r.state = .failed
    · have ho := h.none_open (by rw [hf]; rfl)
      rw [if_pos hf]
      exact h.settled ho rfl (h.currentStage_eq ho)
    · rw [if_neg hf]
      exact h
  | requeued hr ha hs he =>
    intro r' hr'
    obtain rfl := Option.some.inj hr'
    have h := hv _ hr
    have ho := h.none_open (by rw [hs]; rfl)
    exact h.settled ho rfl (h.currentStage_eq ho)

theorem reachable_spanned {sha256 : String → String} {s : Ledger} (h : Reachable sha256 s) :
    s.WellFormed ∧ ∀ j, (s.view j).Mirrored ∧ (s.view j).Spanned := by
  refine reachable_invariant (P := fun v => v.Mirrored ∧ v.Spanned)
    ⟨fun _ hr => (by cases hr), fun _ hr => (by cases hr)⟩ ?_ h
  rintro now n m v v' hstep ⟨hm, hv⟩
  exact ⟨hstep.mirrored hm, hstep.spanned hm hv⟩

/-- What the stage spans of one attempt look like. -/
structure Attempt.SpansInOrder (s : Ledger) (a : Attempt) : Prop where
  sequences : (spansOf s a.attemptId).map (·.sequence) = List.range' 1 (spansOf s a.attemptId).length
  tries : ∀ stage, ((spansOf s a.attemptId).filter (fun x => decide (x.stage = stage))).map (·.stageAttempt) =
    List.range' 1 ((spansOf s a.attemptId).filter (fun x => decide (x.stage = stage))).length
  one_open : (spansOf s a.attemptId).countP (fun x => decide (x.state = .started)) ≤ 1
  open_last : ∀ x ∈ spansOf s a.attemptId, x.state = .started → ∀ y ∈ spansOf s a.attemptId, y.sequence ≤ x.sequence

/-- In every reachable ledger the stage spans follow the attempts and the jobs. -/
theorem stageSpans_follow_lease (sha256 : String → String) {s : Ledger} (h : Reachable sha256 s) :
    (∀ a ∈ s.attempts, a.SpansInOrder s ∧
      ∀ x ∈ spansOf s a.attemptId, x.state = .started →
        a.state.live = true ∧ ∃ r ∈ s.jobs, r.jobId = a.jobId ∧ r.currentStage = some x.stage) ∧
    ∀ r ∈ s.jobs,
      ((∀ a, (attemptsOf s r.jobId).getLast? = some a → ∀ x ∈ spansOf s a.attemptId, x.state ≠ .started) →
        r.currentStage = none) ∧
      (r.state = .complete ∨ r.state = .queued ∨ r.state = .failed →
        ∀ a ∈ attemptsOf s r.jobId, ∀ x ∈ spansOf s a.attemptId, x.state ≠ .started) := by
  obtain ⟨hs, hv⟩ := reachable_spanned h
  have hspans : ∀ a ∈ s.attempts, ∀ x ∈ spansOf s a.attemptId, x ∈ (s.view a.jobId).spans := by
    intro a ha x hx
    rw [spansOf, Ledger.spans_of_view hs ha] at hx
    exact List.mem_of_mem_filter hx
  refine ⟨fun a ha => ?_, fun r hr => ⟨fun hlast => ?_, fun hstate a ha x hx => ?_⟩⟩
  · obtain ⟨r, hr, hrj⟩ := List.mem_map.mp (hs.attempt_job a ha)
    have hjob : (s.view a.jobId).job = some r := hrj ▸ Ledger.job?_of_mem hs hr
    obtain ⟨hn, hm⟩ := (hv a.jobId).1 r hjob
    have hsp := (hv a.jobId).2 r hjob
    have hseq : Sequenced (spansOf s a.attemptId) := by
      rw [spansOf, Ledger.spans_of_view hs ha]
      exact hsp.sequenced a.attemptId
    refine ⟨⟨hseq.sequences, hseq.tries, hseq.countP_le_one, fun x hx ho => hseq.sequence_le hx ho⟩, ?_⟩
    intro x hx ho
    obtain ⟨hl, hg, hc⟩ := hsp.opened x (hspans a ha x hx) ho
    have ham : a ∈ (s.view a.jobId).attempts := by simp [Ledger.view, ha]
    obtain ⟨b, hb, hid, hgen⟩ := hsp.attempt x (hspans a ha x hx)
    have hxa : x.attemptId = a.attemptId := by simpa using List.of_mem_filter hx
    have hba : b = a := key_injective hs.attempts_serial.nodup (List.mem_of_mem_filter hb) ha (hid.trans hxa)
    have hag : a.leaseGeneration = r.leaseGeneration := by rw [← hg, ← hgen, hba]
    exact ⟨(hm.last_generation hn hl ham hag).2.live, r, hr, hrj, hc⟩
  · obtain ⟨hn, hm⟩ := (hv r.jobId).1 r (Ledger.job?_of_mem hs hr)
    have hsp := (hv r.jobId).2 r (Ledger.job?_of_mem hs hr)
    by_contra hc
    obtain ⟨x, hx, ho⟩ := hsp.current hc
    obtain ⟨hl, hg, -⟩ := hsp.opened x hx ho
    obtain ⟨a, ha, hid, hgen⟩ := hsp.attempt x hx
    refine hlast a (hm.last_generation hn hl ha (hgen.trans hg)).1 x ?_ ho
    simp [spansOf, hid, List.mem_of_mem_filter hx]
  · have haj : a.jobId = r.jobId := by simpa using List.of_mem_filter ha
    have hx' := hspans a (List.mem_of_mem_filter ha) x hx
    rw [haj] at hx'
    refine ((hv r.jobId).2 r (Ledger.job?_of_mem hs hr)).none_open ?_ x hx'
    rcases hstate with hst | hst | hst <;> rw [hst] <;> rfl

/-- A worker that runs one stage to its end and starts it again. -/
def Sample.staged : List Op :=
  [.syncQueue Sample.queueA (Sample.resolve "1") "coordinator" 0,
    .claim "worker" "first" none none none 1,
    .recordStage (Sample.jobId "a" "1") "first" 1 "build" "started" none none 2,
    .recordStage (Sample.jobId "a" "1") "first" 1 "build" "completed" (some 5) none 3,
    .recordStage (Sample.jobId "a" "1") "first" 1 "build" "started" none none 4]

theorem stageSpans_follow_lease_staged :
    ∃ a ∈ (after id freshLedger Sample.staged).attempts, a.SpansInOrder (after id freshLedger Sample.staged) ∧
      (spansOf (after id freshLedger Sample.staged) a.attemptId).length = 2 ∧ a.state.live = true ∧
      ∃ r ∈ (after id freshLedger Sample.staged).jobs, r.jobId = a.jobId ∧ r.currentStage = some "build" := by
  obtain ⟨a, ha, hlen, x, hx, ho, hst⟩ : ∃ a ∈ (after id freshLedger Sample.staged).attempts,
      (spansOf (after id freshLedger Sample.staged) a.attemptId).length = 2 ∧
        ∃ x ∈ spansOf (after id freshLedger Sample.staged) a.attemptId, x.state = .started ∧ x.stage = "build" := by
    decide +kernel
  obtain ⟨horder, hopen⟩ := (stageSpans_follow_lease id (reachable_after id Sample.staged)).1 a ha
  obtain ⟨hl, r, hr, hj, hc⟩ := hopen x hx ho
  exact ⟨a, ha, horder, hlen, hl, r, hr, hj, hst ▸ hc⟩

end FidbPoc.Coordinator
