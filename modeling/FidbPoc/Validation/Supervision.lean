import FidbPoc.Validation.Cover

namespace FidbPoc.Validation

open Lib

section Supervising

variable {execution : Execution} {s s' : State} {op : Op}

/-- What holds of every state of a run whose steps are attended. -/
structure Watched (execution : Execution) (s : State) : Prop where
  locals : ∀ pid w, s.workers pid = some w → Local w
  fresh : ∀ pid, s.nextPid ≤ pid → s.workers pid = none
  starting : ∀ sup, s.supervisor = some sup → sup.act = .starting →
    sup.slots = [] ∧ ∀ p ∈ execution.positions, s.files.results p = none → p ∈ sup.pending
  supervised : ∀ sup, s.supervisor = some sup → sup.act ≠ .starting → Supervised execution s.files s.workers sup

section Steps

variable {sup : Supervisor} {i p : Nat}

theorem supervisorFailure_starting {files : RunFiles} {cause : Cause} : supervisorFailure files p cause ≠ .starting := by
  unfold supervisorFailure Cause.next
  split
  · cases cause <;> simp
  · simp

/-- A step of the supervisor that leaves the processes alone. -/
theorem Watched.supervise (h : Watched execution s) {files : RunFiles} {sup' : Supervisor} (hact : sup'.act ≠ .starting)
    (hsup' : Supervised execution files s.workers sup') :
    Watched execution { s with files, supervisor := some sup' } := by
  refine ⟨h.locals, h.fresh, fun sup hsup hstarting => ?_, fun sup hsup _ => ?_⟩
  · obtain rfl := Option.some.inj hsup
    exact absurd hstarting hact
  · obtain rfl := Option.some.inj hsup
    exact hsup'

theorem Watched.absent (h : Watched execution s) {files : RunFiles} {workers : Nat → Option Worker}
    (hworkers : ∀ pid w, workers pid = some w → ∃ w₀, s.workers pid = some w₀ ∧ (w = w₀ ∨ w = { w₀ with alive := false })) :
    Watched execution { s with files, workers, supervisor := none } := by
  refine ⟨fun pid w hw => ?_, fun pid hpid => ?_, fun _ hsup => (by cases hsup), fun _ hsup => (by cases hsup)⟩
  · obtain ⟨w₀, hw₀, rfl | rfl⟩ := hworkers pid w hw
    · exact h.locals pid w hw₀
    · exact (h.locals pid w₀ hw₀).die
  · by_contra hne
    obtain ⟨w, hw⟩ := Option.ne_none_iff_exists'.mp hne
    obtain ⟨w₀, hw₀, -⟩ := hworkers pid w hw
    rw [h.fresh pid hpid] at hw₀
    cases hw₀

theorem Watched.work (h : Watched execution s) (hcontinue : execution.continueAfterCellFailure = true) {pid : Nat}
    {w w' : Worker} {files : RunFiles} (hw : s.workers pid = some w) (halive : w.alive = true)
    (hadvanced : Advanced execution pid s.files w files w') :
    Watched execution { s with files, workers := Function.update s.workers pid (some w') } := by
  refine ⟨fun pid' v hv => ?_, fun pid' hpid => ?_, fun sup hsup hstarting => ?_, fun sup hsup hact => ?_⟩
  · obtain ⟨rfl, rfl⟩ | ⟨-, hv⟩ := of_update hv
    · exact hadvanced.local hcontinue (h.locals pid' w hw)
    · exact h.locals pid' v hv
  · have hne : pid' ≠ pid := by
      rintro rfl
      rw [h.fresh pid' hpid] at hw
      cases hw
    exact (Function.update_of_ne hne _ _).trans (h.fresh pid' hpid)
  · obtain ⟨hslots, hleft⟩ := h.starting sup hsup hstarting
    exact ⟨hslots, fun p hp hnone => hleft p hp (hadvanced.none_of_none hnone)⟩
  · exact (h.supervised sup hsup hact).work h.locals hw halive hadvanced

theorem Watched.terminate (h : Watched execution s) {pid : Nat} (hphase : ∀ w, s.workers pid = some w → w.phase ≠ .writing) :
    Watched execution (terminate s pid) := by
  have hdeaths := deaths_terminate hphase
  refine ⟨fun pid' w hw => ?_, fun pid' hpid => ?_, h.starting, fun sup hsup hact => ?_⟩
  · unfold Validation.terminate at hw
    simp only at hw
    split at hw
    · obtain ⟨w₀, hw₀, rfl⟩ := Option.map_eq_some_iff.mp hw
      exact (h.locals pid' w₀ hw₀).die
    · exact h.locals pid' w hw
  · unfold Validation.terminate
    simp [h.fresh pid' hpid]
  · exact (h.supervised sup hsup hact).deaths h.locals hdeaths

theorem Watched.spawn (h : Watched execution s) {pending : List Nat} {sup' : Supervisor} (hact : sup'.act ≠ .starting)
    (hsup' : Supervised execution s.files (Function.update s.workers s.nextPid (some ⟨pending, .looking, .idle, true⟩)) sup') :
    Watched execution { Validation.spawn s pending with supervisor := some sup' } := by
  refine ⟨fun pid w hw => ?_, fun pid hpid => ?_, fun sup hsup hstarting => ?_, fun sup hsup _ => ?_⟩
  · obtain ⟨-, rfl⟩ | ⟨-, hw⟩ := of_update hw
    · exact ⟨fun _ hp => (by cases hp), fun hp => (by cases hp), fun hp => (by cases hp)⟩
    · exact h.locals pid w hw
  · have hle : s.nextPid + 1 ≤ pid := hpid
    have hne : pid ≠ s.nextPid := by omega
    exact (Function.update_of_ne hne _ _).trans (h.fresh pid (Nat.le_of_succ_le hle))
  · obtain rfl := Option.some.inj hsup
    exact absurd hstarting hact
  · obtain rfl := Option.some.inj hsup
    exact hsup'

/-- The supervisor goes on to an act that asks for nothing more. -/
theorem Supervised.withAct {files : RunFiles} {workers : Nat → Option Worker} (h : Supervised execution files workers sup)
    {act : Act} (howed : ∀ p, files.results p = none → p ∈ sup.act.owed → p ∈ act.owed) (hskip : act.skip = sup.act.skip)
    (hspawning : sup.act.spawning = true → act.spawning = true) (htimed : act.timed = none ∨ act.timed = sup.act.timed)
    (hhandles : act.handles = none ∨ act.handles = sup.act.handles) (hended : act ≠ .ended) :
    Supervised execution files workers { sup with act } := by
  refine ⟨h.base, fun p hp hnone => ?_, fun i p stopped ht => ?_, fun i hi => ?_, fun he => absurd he hended⟩
  · obtain hmem | hcovered | hspawn := h.covered p hp hnone
    · exact .inl (howed p hnone hmem)
    · exact .inr (.inl (by rw [hskip]; exact hcovered))
    · exact .inr (.inr ⟨hspawning hspawn.1, hspawn.2⟩)
  · obtain hnone | hsame := htimed
    · rw [hnone] at ht
      cases ht
    · exact h.timed i p stopped (hsame ▸ ht)
  · obtain hnone | hsame := hhandles
    · rw [hnone] at hi
      cases hi
    · exact h.handled i (hsame ▸ hi)

theorem Supervised.failure {files : RunFiles} {workers : Nat → Option Worker} (h : Supervised execution files workers sup)
    {cause : Cause} (howed : ∀ q, q ∈ sup.act.owed → q = p ∨ q ∈ (cause.next p).owed)
    (hmem : ∀ q, q ∈ sup.act.owed → q ∈ (Act.failing p cause).owed)
    (hskip : (cause.next p).skip = sup.act.skip) (hspawning : (cause.next p).spawning = sup.act.spawning)
    (htimed : (cause.next p).timed = sup.act.timed) (hhandles : (cause.next p).handles = sup.act.handles) :
    Supervised execution files workers { sup with act := supervisorFailure files p cause } := by
  unfold supervisorFailure
  split
  · rename_i hresult
    refine h.withAct (fun q hnone hq => ?_) hskip (fun hs => hspawning.trans hs) (.inr htimed) (.inr hhandles) ?_
    · obtain rfl | hq := howed q hq
      · rw [hnone] at hresult
        cases hresult
      · exact hq
    · cases cause <;> simp [Cause.next]
  · refine h.withAct (fun q _ hq => hmem q hq) (.trans ?_ hskip) (fun hs => .trans ?_ (hspawning.trans hs))
      (.inr (.trans ?_ htimed)) (.inr (.trans ?_ hhandles)) (by simp)
    all_goals cases cause <;> rfl

end Steps

theorem next_watched (h : Watched execution s) (hcontinue : execution.continueAfterCellFailure = true)
    (hattended : Attended s op) (hnext : Next execution s op s') : Watched execution s' := by
  cases hnext with
  | work hworker halive hadvance => exact h.work hcontinue hworker halive (advance_cases hadvance)
  | die => exact h.terminate hattended
  | begin habsent hpending =>
    refine ⟨h.locals, h.fresh, fun sup hsup _ => ?_, fun sup hsup hact => ?_⟩
    · obtain rfl := Option.some.inj hsup
      refine ⟨rfl, fun p hp hnone => hpending.mem_iff.mpr (List.mem_filter.mpr ⟨hp, ?_⟩)⟩
      simpa using hnone
    · obtain rfl := Option.some.inj hsup
      exact absurd rfl hact
  | @clear sup hsup hact =>
    obtain ⟨hslots, hleft⟩ := h.starting sup hsup hact
    have hdead {pid : Nat} {w : Worker} (hw : s.workers pid = some w) (halive : w.alive = true) : False := by
      rw [hattended pid w hw] at halive
      cases halive
    refine h.supervise (by simp) ⟨⟨hleft, fun p c hc => (by cases hc), fun i slot hslot => ?_,
      fun pid w hw halive => (hdead hw halive).elim, fun pid w hw halive => (hdead hw halive).elim,
      fun pid w p hw halive => (hdead hw halive).elim⟩, fun p hp hnone => ?_, fun _ _ _ ht => (by cases ht),
      fun _ hi => (by cases hi), fun he => (by cases he)⟩
    · rw [hslots] at hslot
      cases hslot
    · refine .inr (.inr ⟨rfl, ?_⟩)
      rw [hslots]
      exact Nat.lt_min.mpr ⟨execution.workers_pos, List.length_pos_of_mem (hleft p hp hnone)⟩
  | @preparationFailed sup position hsup hact hslots hposition =>
    have hs := h.supervised sup hsup (by rw [hact]; simp)
    refine h.supervise supervisorFailure_starting (hs.failure (fun q hq => ?_) (fun q hq => ?_) ?_ ?_ ?_ ?_)
    all_goals first
      | rw [hact]; rfl
      | rw [hact] at hq; cases hq
  | @spawn sup hsup hact hcount =>
    have hs := h.supervised sup hsup (by rw [hact]; simp)
    have hspawned : Spawned s.files s.workers sup.slots (sup.slots ++ [⟨s.nextPid, 0, false⟩]) ⟨s.nextPid, 0, false⟩ :=
      spawned_append _ rfl
    refine h.spawn (by simp [hact]) ⟨hs.base.spawn (h.fresh _ (Nat.le_refl _)) hspawned, fun p hp hnone => ?_,
      fun _ _ _ ht => ?_, fun _ hi => ?_, fun he => ?_⟩
    · exact .inr (.inl (by rw [hact]; exact coveredBut_spawn hspawned (hs.base.left p hp hnone)))
    · rw [hact] at ht
      cases ht
    · rw [hact] at hi
      cases hi
    · rw [hact] at he
      cases he
  | @watch sup hsup hact hcount =>
    have hs := h.supervised sup hsup (by rw [hact]; simp)
    refine h.supervise (by simp) ⟨hs.base, fun p hp hnone => ?_, fun _ _ _ ht => (by cases ht), fun _ hi => (by cases hi),
      fun he => (by cases he)⟩
    have hcovered := hs.covered p hp hnone
    rw [hact] at hcovered
    obtain howed | hcovered | ⟨-, hlt⟩ := hcovered
    · cases howed
    · exact .inr (.inl hcovered)
    · exact absurd hcount (Nat.ne_of_lt hlt)
  | @timeout sup i position slot w hsup hact hslot hworker halive hprogress =>
    have hs := h.supervised sup hsup (by rw [hact]; simp)
    refine h.supervise (by simp) ⟨hs.base, fun p hp hnone => ?_, fun j p stopped ht => ?_, fun _ hi => (by cases hi),
      fun he => (by cases he)⟩
    · have hcovered := hs.covered p hp hnone
      rwa [hact] at hcovered
    · obtain ⟨rfl, rfl, rfl⟩ : i = j ∧ position = p ∧ false = stopped := by simpa [Act.timed] using ht
      have hhead := ((h.locals _ w hworker).running position hprogress).1
      have hopen : slot.handled = false := by
        by_contra hne
        obtain ⟨v, hv, hhandled⟩ := hs.base.known i slot hslot
        obtain rfl := Option.some.inj (hworker.symm.trans hv)
        rw [hhandled (by simpa using hne)] at halive
        cases halive
      exact ⟨hs.base.within _ w hworker halive _ (List.mem_of_mem_head? hhead), slot, w, hslot, hopen, hworker, .inl hprogress,
        fun hstop => (by cases hstop)⟩
  | @stop sup i position slot hsup hact hslot =>
    have hs := (h.terminate hattended).supervised sup hsup (by rw [hact]; simp)
    refine (h.terminate hattended).supervise (by simp) ⟨hs.base, fun p hp hnone => ?_, fun j p stopped ht => ?_,
      fun _ hi => (by cases hi), fun he => (by cases he)⟩
    · have hcovered := hs.covered p hp hnone
      rwa [hact] at hcovered
    · obtain ⟨rfl, rfl, rfl⟩ : i = j ∧ position = p ∧ true = stopped := by simpa [Act.timed] using ht
      obtain ⟨hp, slot', w, hslot', hopen, hw, hprogress, -⟩ := hs.timed i position false (by rw [hact]; rfl)
      obtain rfl := Option.some.inj (hslot.symm.trans hslot')
      exact ⟨hp, slot, w, hslot, hopen, hw, hprogress, fun _ => terminate_dead hw⟩
  | @releaseTimedOut sup i position slot hsup hact hslot =>
    have hs := h.supervised sup hsup (by rw [hact]; simp)
    refine h.supervise (by simp) ⟨hs.base.releaseWorkerClaims _, fun p hp hnone => ?_, fun j p stopped ht => ?_,
      fun _ hi => (by cases hi), fun he => (by cases he)⟩
    · have hcovered := hs.covered p hp hnone
      rwa [hact] at hcovered
    · exact hs.timed j p stopped (by rw [hact]; exact ht)
  | @recordTimeout sup i position hsup hact =>
    have hs := h.supervised sup hsup (by rw [hact]; simp)
    refine h.supervise supervisorFailure_starting (hs.failure (fun q hq => ?_) (fun q hq => ?_) ?_ ?_ ?_ ?_)
    all_goals first
      | rw [hact]; rfl
      | rw [hact] at hq; cases hq
  | @retry sup i position hsup hact hretry =>
    have hs := h.supervised sup hsup (by rw [hact]; simp)
    refine h.supervise (by simp) (hs.withAct (fun q _ hq => ?_) ?_ ?_ (.inr ?_) (.inl rfl) (by simp))
    all_goals simp_all [Act.owed, Act.skip, Act.spawning, Act.timed]
  | @keep sup i position hsup hact hretry =>
    have hs := h.supervised sup hsup (by rw [hact]; simp)
    refine h.supervise (by simp) (hs.withAct (fun q _ hq => ?_) ?_ ?_ (.inl rfl) (.inl rfl) (by simp))
    all_goals simp_all [Act.owed, Act.skip, Act.spawning]
  | @archive sup i position hsup hact =>
    have hs := h.supervised sup hsup (by rw [hact]; simp)
    have hfailed : s.files.results position = some (.failed (some "cell-timeout")) := hattended
    have hfiles : (archiveFailedResult s.files position).results = Function.update s.files.results position none := by
      simp [archiveFailedResult, hfailed]
    have hclaims (p : Nat) : (archiveFailedResult s.files position).claims p = s.files.claims p := claims_archiveFailedResult
    obtain ⟨hp, slot, w, hslot, hopen, hw, hprogress, hstopped⟩ := hs.timed i position true (by rw [hact]; rfl)
    have hrunning : w.progress = .running position := by
      obtain hrunning | ⟨r, hr, hne⟩ := hprogress
      · exact hrunning
      · exact absurd (Option.some.inj (hr.symm.trans hfailed)) hne
    have hother (q : Nat) (hnone : (archiveFailedResult s.files position).results q = none) :
        q = position ∨ s.files.results q = none := by
      rw [hfiles, Function.update_apply] at hnone
      split at hnone
      · exact .inl ‹_›
      · exact .inr hnone
    refine h.supervise (by simp) ⟨⟨fun q hq hnone => ?_, fun q c hc => hs.base.owned q c (hclaims q ▸ hc), hs.base.known,
      hs.base.listed, hs.base.within, fun pid v q hv halive hhead hwrote => ?_⟩, fun q hq hnone => ?_,
      fun _ _ _ ht => (by cases ht), fun _ hi => (by cases hi), fun he => (by cases he)⟩
    · obtain rfl | hnone := hother q hnone
      · exact hp
      · exact hs.base.left q hq hnone
    · obtain ⟨r, hr, hne⟩ := hs.base.recorded pid v q hv halive hhead hwrote
      refine ⟨r, ?_, hne⟩
      rw [hfiles, Function.update_of_ne]
      · exact hr
      · rintro rfl
        exact hne (Option.some.inj (hr.symm.trans hfailed))
    · obtain rfl | hnone := hother q hnone
      · exact .inr (.inl ⟨i, slot, by simp [Act.skip], hslot, hopen, w, hw, .inr ⟨hstopped rfl, by simp [hrunning]⟩⟩)
      · have hcovered := hs.covered q hq hnone
        rwa [hact] at hcovered
  | @release sup i slot w hsup hact hslot hhandled hworker hdead =>
    have hs := h.supervised sup hsup (by rw [hact]; simp)
    refine h.supervise (by simp) ⟨hs.base.releaseWorkerClaims _, fun p hp hnone => ?_, fun _ _ _ ht => (by cases ht),
      fun j hi => ?_, fun he => (by cases he)⟩
    · have hcovered := hs.covered p hp hnone
      rwa [hact] at hcovered
    · obtain rfl : i = j := Option.some.inj hi
      exact ⟨slot, w, hslot, hhandled, hworker, hdead, fun p c hc => claims_releaseWorkerClaims hs.base hworker hdead hc⟩
  | @finish sup i released slot w hsup hact hslot hworker hfinished =>
    have hs := h.supervised sup hsup (by rw [hact]; simp)
    obtain ⟨slot', w', hslot', -, hw', hdead, hclaims⟩ := hs.handled i (by rw [hact]; rfl)
    obtain rfl := Option.some.inj (hslot.symm.trans hslot')
    obtain rfl := Option.some.inj (hworker.symm.trans hw')
    refine h.supervise (by simp) ⟨hs.base.markHandled hslot hworker hdead hclaims, fun p hp hnone => ?_,
      fun _ _ _ ht => (by cases ht), fun _ hi => (by cases hi), fun he => (by cases he)⟩
    have hcovered := hs.covered p hp hnone
    rw [hact] at hcovered
    obtain howed | hcovered | ⟨hspawning, -⟩ := hcovered
    · cases howed
    · exact .inr (.inl (hcovered.of_finished hslot hworker hdead hfinished).markHandled)
    · cases hspawning
  | @restart sup i released slot w hsup hact hslot hworker hfinished hrestart =>
    have hs := h.supervised sup hsup (by rw [hact]; simp)
    obtain ⟨slot', w', hslot', -, hw', hdead, hclaims⟩ := hs.handled i (by rw [hact]; rfl)
    obtain rfl := Option.some.inj (hslot.symm.trans hslot')
    have hspawned : Spawned s.files s.workers sup.slots _ ⟨s.nextPid, slot.restarts + 1, false⟩ :=
      spawned_set _ rfl hslot hw' hdead hclaims
    refine h.spawn (by simp) ⟨hs.base.spawn (h.fresh _ (Nat.le_refl _)) hspawned, fun p hp hnone => ?_,
      fun _ _ _ ht => (by cases ht), fun _ hi => (by cases hi), fun he => (by cases he)⟩
    exact .inr (.inl (coveredBut_spawn hspawned (hs.base.left p hp hnone)))
  | @giveUp sup i released slot w hsup hact hslot hworker hfinished hrestart =>
    have hs := h.supervised sup hsup (by rw [hact]; simp)
    refine h.supervise (by simp) ⟨hs.base, fun p hp hnone => ?_, fun _ _ _ ht => (by cases ht),
      fun j hi => hs.handled j (by rw [hact]; exact hi), fun he => (by cases he)⟩
    obtain hmem | hcovered := hattended sup released hsup hact p (hs.base.left p hp hnone) hnone
    · exact .inl hmem
    · exact .inr (.inl hcovered)
  | @recordExhausted sup i position released hsup hact =>
    have hs := h.supervised sup hsup (by rw [hact]; simp)
    refine h.supervise supervisorFailure_starting (hs.failure (fun q hq => ?_) (fun q hq => ?_) ?_ ?_ ?_ ?_)
    · rw [hact] at hq
      exact List.mem_cons.mp hq
    · rwa [hact] at hq
    all_goals rw [hact]; rfl
  | @givenUp sup i hsup hact =>
    have hs := h.supervised sup hsup (by rw [hact]; simp)
    obtain ⟨slot, w, hslot, -, hw, hdead, hclaims⟩ := hs.handled i (by rw [hact]; rfl)
    refine h.supervise (by simp) ⟨hs.base.markHandled hslot hw hdead hclaims, fun p hp hnone => ?_,
      fun _ _ _ ht => (by cases ht), fun _ hi => (by cases hi), fun he => (by cases he)⟩
    have hcovered := hs.covered p hp hnone
    rw [hact] at hcovered
    obtain howed | hcovered | ⟨hspawning, -⟩ := hcovered
    · cases howed
    · exact .inr (.inl hcovered.markHandled)
    · cases hspawning
  | @writeFailure sup position cause hsup hact =>
    have hs := h.supervised sup hsup (by rw [hact]; simp)
    have hnone : s.files.results position = none := hattended
    have hother (q : Nat) (hq : (setResult s.files position (.failed (some cause.reasonCode))).results q = none) :
        q ≠ position ∧ s.files.results q = none := by
      simp only [setResult, Function.update_apply] at hq
      split at hq
      · cases hq
      · exact ⟨‹_›, hq⟩
    have hkept (q : Nat) (hq : NotTimedOut (s.files.results q)) :
        NotTimedOut ((setResult s.files position (.failed (some cause.reasonCode))).results q) := by
      obtain ⟨r, hr, hne⟩ := hq
      refine ⟨r, (Function.update_of_ne ?_ _ _).trans hr, hne⟩
      rintro rfl
      rw [hnone] at hr
      cases hr
    refine h.supervise (by cases cause <;> simp [Cause.next]) ⟨⟨fun q hq hq' => hs.base.left q hq (hother q hq').2, hs.base.owned,
      hs.base.known, hs.base.listed, hs.base.within, fun pid w q hw halive hhead hwrote => ?_⟩, fun q hq hq' => ?_,
      fun j q stopped ht => ?_, fun j hi => ?_, fun he => ?_⟩
    · exact hkept q (hs.base.recorded pid w q hw halive hhead hwrote)
    · obtain ⟨hne, hq'⟩ := hother q hq'
      have hcovered := hs.covered q hq hq'
      rw [hact] at hcovered
      cases cause with
      | preparation | timeout => exact hcovered
      | exhausted i released =>
        obtain howed | hcovered := hcovered
        · exact .inl ((List.mem_cons.mp howed).resolve_left hne)
        · exact .inr hcovered
    · have htimed := hs.timed j q stopped
      rw [hact] at htimed
      cases cause with
      | preparation | exhausted => cases ht
      | timeout i =>
        obtain ⟨hp, slot, w, hslot, hopen, hw, hprogress, hstopped⟩ := htimed ht
        exact ⟨hp, slot, w, hslot, hopen, hw, hprogress.imp_right (hkept q), hstopped⟩
    · have hhandled := hs.handled j
      rw [hact] at hhandled
      cases cause with
      | preparation | timeout => cases hi
      | exhausted => exact hhandled hi
    · cases cause <;> cases he
  | @endLoop sup hsup hact hhandled =>
    have hs := h.supervised sup hsup (by rw [hact]; simp)
    refine h.supervise (by simp) ⟨hs.base, fun p hp hnone => ?_, fun _ _ _ ht => (by cases ht), fun _ hi => (by cases hi),
      fun _ => hhandled⟩
    have hcovered := hs.covered p hp hnone
    rwa [hact] at hcovered
  | pause =>
    refine h.absent fun pid w hw => ?_
    unfold terminateAll at hw
    simp only at hw
    split at hw
    · obtain ⟨w₀, hw₀, rfl⟩ := Option.map_eq_some_iff.mp hw
      exact ⟨w₀, hw₀, .inr rfl⟩
    · exact ⟨w, hw, .inl rfl⟩
  | kill => exact h.absent fun pid w hw => ⟨w, hw, .inl rfl⟩
  | requeue habsent =>
    exact ⟨h.locals, h.fresh, fun sup hsup => (by rw [habsent] at hsup; cases hsup),
      fun sup hsup => (by rw [habsent] at hsup; cases hsup)⟩

theorem watched_initial : Watched execution initial :=
  ⟨fun _ _ h => (by cases h), fun _ _ => rfl, fun _ h => (by cases h), fun _ h => (by cases h)⟩

end Supervising

namespace Abandoned

/-- One worker without restarts; a cell that timed out is tried twice. -/
def execution : Execution := ⟨[1], 1, true, 0, 2, Nat.one_pos⟩

end Abandoned

end FidbPoc.Validation
