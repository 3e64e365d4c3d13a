import FidbPoc.Validation.Lifecycle

namespace FidbPoc.Validation.Lifecycle

open Lib

section States

variable {site : Site} {s t : Session}

/-- A status that a resumption may go on from, whatever became of its process. -/
def Recoverable (document : Status) : Prop :=
  document.state = .complete ∨ document.state = .postprocessFailed ∨
    document.completeWorkUnits < document.expectedWorkUnits

/-- A status that does not refuse both a resumption and another run. -/
def Open (document : Status) : Prop := document.state = .failed ∨ Recoverable document

/-- The process of the run has still a status to write. -/
def Writes (s : Session) : Prop := ∃ process, s.process = some process ∧ process.stage ≠ .leaving

/-- What a step must not do: end the process, or write a status over its last one, where nothing is left to resume; pause a
run that has no unit left; replace a complete result. -/
def Attended (site : Site) (s : Session) : Op → Prop
  | .kill => Recoverable s.status
  | .refuse => Open s.status
  | .paused => ¬ Measured site s.results
  | .write => ∀ document, s.call = some (.writing document) → Open document ∨ Writes s
  | .record position result => s.results position = some .complete → result = some .complete
  | _ => True

theorem processActive_eq_false (hprocess : s.process = none) (pid : Option Nat) : processActive s pid = false := by
  simp [processActive, hprocess]

theorem runtimeStatus_of_not_active (h : active s.status.state = false) : runtimeStatus s = s.status.state := by
  simp [runtimeStatus, h]

theorem runtimeStatus_eq_complete (hcomplete : runtimeStatus s = .complete) : s.status.state = .complete := by
  unfold runtimeStatus at hcomplete
  split at hcomplete
  · cases hcomplete
  · exact hcomplete

theorem runtimeStatus_eq_postprocessFailed (hfailed : runtimeStatus s = .postprocessFailed) :
    s.status.state = .postprocessFailed := by
  unfold runtimeStatus at hfailed
  split at hfailed
  · cases hfailed
  · exact hfailed

/-- Without a process, a run is seen at rest. -/
theorem runtimeStatus_at_rest (hprocess : s.process = none) :
    (runtimeStatus s ∈ [.paused, .interrupted, .failed]) ∨ s.status.state = .complete ∨
      s.status.state = .postprocessFailed := by
  cases hstate : s.status.state <;>
    simp [runtimeStatus, hstate, active, processActive_eq_false hprocess]

theorem completeCount_le (results : Nat → Option Result) : completeCount site results ≤ site.positions.length :=
  List.countP_le_length

theorem completeCount_eq_iff {results : Nat → Option Result} :
    completeCount site results = site.positions.length ↔ Measured site results := by
  unfold completeCount Measured
  rw [List.countP_eq_length]
  simp

theorem completeCount_lt {results : Nat → Option Result} (h : ¬ Measured site results) :
    completeCount site results < site.positions.length :=
  Nat.lt_of_le_of_ne (completeCount_le results) fun he => h (completeCount_eq_iff.mp he)

theorem Measured.failedCount_eq_zero {results : Nat → Option Result} (h : Measured site results) :
    failedCount site results = 0 := by
  unfold failedCount
  rw [List.countP_eq_zero]
  intro p hp
  simp [h p hp]

/-- A run that stands without a process is complete or resumed exactly where its status can be recovered. -/
theorem resumed_iff (hsite : site.Satisfied) (hprocess : s.process = none)
    (hpostprocess : s.status.state = .postprocessFailed →
      site.mode = .full ∧ Measured site s.results ∧ s.status.expectedWorkUnits = site.positions.length) :
    (runtimeStatus s = .complete ∨ (resumeValidation site s).isSome = true) ↔ Recoverable s.status := by
  obtain ⟨hpreflight, hadmission, hgate⟩ := hsite
  have hgated : (decide (site.mode = .canary) || site.canaryGate) = true := by
    cases hmode : site.mode with
    | canary => rfl
    | full => simp [hgate hmode]
  have haccepted : (resumeValidation site s).isSome = true ↔
      if runtimeStatus s = .complete then consistent site s = true else (resumable site s).isSome = true := by
    unfold resumeValidation
    simp only [processActive_eq_false hprocess, hpreflight, hadmission, hgated, Bool.and_self, if_true]
    by_cases hcomplete : runtimeStatus s = .complete
    · simp only [hcomplete, if_true]
      split <;> simp_all
    · simp only [hcomplete, if_false]
      cases resumable site s <;> simp
  rw [haccepted]
  obtain hseen | hcomplete | hfailed := runtimeStatus_at_rest hprocess
  · have hstate : s.status.state ≠ .complete ∧ s.status.state ≠ .postprocessFailed := by
      constructor <;> intro hstate <;> simp [runtimeStatus, hstate, active] at hseen
    have hne : runtimeStatus s ≠ .complete ∧ runtimeStatus s ≠ .postprocessFailed :=
      ⟨fun h => hstate.1 (runtimeStatus_eq_complete h), fun h => hstate.2 (runtimeStatus_eq_postprocessFailed h)⟩
    simp only [hne.1, if_false, false_or, resumable, hne.2, hseen, if_true, Recoverable, hstate.1, hstate.2]
    split <;> simp_all
  · have hseen : runtimeStatus s = .complete := by
      rw [runtimeStatus_of_not_active (by simp [hcomplete, active]), hcomplete]
    simp [hseen, Recoverable, hcomplete]
  · have hseen : runtimeStatus s = .postprocessFailed := by
      rw [runtimeStatus_of_not_active (by simp [hfailed, active]), hfailed]
    obtain ⟨hfull, hmeasured, hexpected⟩ := hpostprocess hfailed
    have hcount := completeCount_eq_iff.mpr hmeasured
    simp [hseen, Recoverable, hfailed, resumable, hfull, hcount, hexpected, hmeasured.failedCount_eq_zero]

/-- Another run is started over one that has ended, complete or failed. -/
theorem started_iff (hsite : site.Satisfied) (hprocess : s.process = none) :
    startValidation site s = true ↔ s.status.state = .complete ∨ s.status.state = .failed := by
  obtain ⟨hpreflight, hadmission, hgate⟩ := hsite
  have hgated : (decide (site.mode = .canary) || site.canaryGate) = true := by
    cases hmode : site.mode with
    | canary => rfl
    | full => simp [hgate hmode]
  unfold startValidation
  rw [hpreflight, hadmission, hgated]
  cases hstate : s.status.state <;>
    simp [runtimeStatus, hstate, active, processActive_eq_false hprocess]

end States

section Running

variable {site : Site} {s t : Session} {op : Op}

/-- What is written of a run: as many work units as there are, or none yet; it is only seen interrupted. -/
def Counted (site : Site) (document : Status) : Prop :=
  document.state ≠ .interrupted ∧
    (document.expectedWorkUnits = site.positions.length ∨
      document.expectedWorkUnits = 0 ∧ document.state ≠ .failed ∧ document.state ≠ .postprocessFailed)

/-- What a document may say of post-processing. -/
def Postprocessed (site : Site) (results : Nat → Option Result) (document : Status) : Prop :=
  document.state = .postprocessFailed → site.mode = .full ∧ Measured site results

/-- What holds of a process by its stage. -/
def Staged (site : Site) (s : Session) (pid : Nat) : Stage → Prop
  | .entered | .locked => True
  | .working | .pausing => s.status.pid = some pid
  | .postprocessing | .published => s.status.pid = some pid ∧ site.mode = .full ∧ Measured site s.results
  | .analysing document =>
    s.status.pid = some pid ∧ site.mode = .full ∧ Measured site s.results ∧ document.pid = some pid ∧ Counted site document
  | .finishing document | .retaining document =>
    s.status.pid = some pid ∧ Measured site s.results ∧ document.pid = some pid ∧ Counted site document
  | .leaving => s.status.pid = some pid ∧ Open s.status

/-- What holds of what a call has still to write. -/
def Called (site : Site) (s : Session) : Call → Prop
  | .reading pid => ∀ process, s.process = some process → process.pid = pid
  | .writing document =>
    (∀ process, s.process = some process → document.pid = some process.pid) ∧ Counted site document ∧
      Postprocessed site s.results document

/-- What holds of every state of an attended run. -/
structure Sound (site : Site) (s : Session) : Prop where
  counted : Counted site s.status
  postprocessed : Postprocessed site s.results s.status
  staged : ∀ process, s.process = some process → Staged site s process.pid process.stage
  owned : s.call = none → ∀ process, s.process = some process → s.status.pid = some process.pid
  called : ∀ call, s.call = some call → Called site s call
  atRest : s.process = none → Open s.status

theorem Counted.update {document : Status} (h : Counted site document) {state : RunState} {pid : Option Nat}
    {complete failed : Nat} (hinterrupted : state ≠ .interrupted) (hfailed : state ≠ .failed)
    (hpostprocess : state ≠ .postprocessFailed) :
    Counted site ⟨state, pid, document.expectedWorkUnits, complete, failed⟩ := by
  obtain ⟨-, h | ⟨h, -, -⟩⟩ := h
  · exact ⟨hinterrupted, .inl h⟩
  · exact ⟨hinterrupted, .inr ⟨h, hfailed, hpostprocess⟩⟩

/-- Where work is left, all the work units were counted. -/
theorem Counted.expected_eq {document : Status} (h : Counted site document) (hopen : Open document)
    (hstate : document.state ≠ .complete) (hpostprocess : document.state ≠ .postprocessFailed) :
    document.expectedWorkUnits = site.positions.length := by
  obtain ⟨-, h | ⟨h, hfailed, -⟩⟩ := h
  · exact h
  · obtain hopen | hopen | hopen | hopen := hopen
    · exact absurd hopen hfailed
    · exact absurd hopen hstate
    · exact absurd hopen hpostprocess
    · omega

theorem Postprocessed.of_ne {results : Nat → Option Result} {document : Status} (h : document.state ≠ .postprocessFailed) :
    Postprocessed site results document := fun he => absurd he h

/-- Measured results stay measured where a complete result is not replaced. -/
theorem Measured.record {results : Nat → Option Result} (h : Measured site results) {position : Nat} {result : Option Result}
    (hkept : results position = some .complete → result = some .complete) :
    Measured site (Function.update results position result) := by
  intro p hp
  by_cases hpp : p = position
  · subst hpp
    rw [Function.update_self]
    exact hkept (h p hp)
  · rw [Function.update_of_ne hpp]
    exact h p hp

theorem sound_started (staleLock : Bool) : Sound site (started staleLock) := by
  refine ⟨⟨by simp [started], .inr ⟨rfl, by simp [started], by simp [started]⟩⟩, .of_ne (by simp [started]), ?_, ?_, ?_, ?_⟩
  · rintro _ ⟨⟩
    trivial
  · intro hcall
    cases hcall
  · rintro _ ⟨⟩ _ ⟨⟩
    rfl
  · intro hprocess
    cases hprocess

section Steps

variable {pid : Nat} {stage stage' : Stage} {document : Status}

/-- A step of the process, from one stage to another. -/
theorem Sound.supervise (h : Sound site s) (lock : Option Nat) (terminalEvidence : Bool)
    (hprocess : s.process = some ⟨pid, stage⟩)
    (hpid : s.call = none → document.pid = some pid) (hcounted : Counted site document)
    (hpostprocessed : Postprocessed site s.results document)
    (hstaged : Staged site { s with lock, status := document, process := some ⟨pid, stage'⟩, terminalEvidence } pid stage') :
    Sound site { s with lock, status := document, process := some ⟨pid, stage'⟩, terminalEvidence } := by
  refine ⟨hcounted, hpostprocessed, ?_, ?_, ?_, ?_⟩
  · rintro _ ⟨⟩
    exact hstaged
  · rintro hcall _ ⟨⟩
    exact hpid hcall
  · intro call hcall
    have hcalled := h.called call hcall
    cases call with
    | reading =>
      rintro _ ⟨⟩
      exact hcalled ⟨pid, stage⟩ hprocess
    | writing document' =>
      obtain ⟨howner, hrest⟩ := hcalled
      refine ⟨?_, hrest⟩
      rintro _ ⟨⟩
      exact howner ⟨pid, stage⟩ hprocess
  · intro hnone
    cases hnone

/-- The process ends over a status that is open. -/
theorem Sound.leave (h : Sound site s) (lock : Option Nat) (hopen : Open s.status) : Sound site { s with lock, process := none } := by
  refine ⟨h.counted, h.postprocessed, ?_, ?_, ?_, fun _ => hopen⟩
  · intro _ hprocess
    cases hprocess
  · intro _ _ hprocess
    cases hprocess
  · intro call hcall
    have hcalled := h.called call hcall
    cases call with
    | reading =>
      intro _ hprocess
      cases hprocess
    | writing document' =>
      obtain ⟨-, hrest⟩ := hcalled
      refine ⟨?_, hrest⟩
      intro _ hprocess
      cases hprocess

theorem Sound.record (h : Sound site s) {position : Nat} {result : Option Result}
    (hkept : s.results position = some .complete → result = some .complete) :
    Sound site { s with results := Function.update s.results position result } := by
  refine ⟨h.counted, fun he => ?_, fun process hprocess => ?_, h.owned, fun call hcall => ?_, h.atRest⟩
  · obtain ⟨hfull, hmeasured⟩ := h.postprocessed he
    exact ⟨hfull, hmeasured.record hkept⟩
  · have hstaged := h.staged process hprocess
    cases hstage : process.stage with
    | entered | locked => trivial
    | working | pausing | leaving =>
      rw [hstage] at hstaged
      exact hstaged
    | postprocessing | published =>
      rw [hstage] at hstaged
      exact ⟨hstaged.1, hstaged.2.1, hstaged.2.2.record hkept⟩
    | analysing document =>
      rw [hstage] at hstaged
      exact ⟨hstaged.1, hstaged.2.1, hstaged.2.2.1.record hkept, hstaged.2.2.2⟩
    | finishing document | retaining document =>
      rw [hstage] at hstaged
      exact ⟨hstaged.1, hstaged.2.1.record hkept, hstaged.2.2⟩
  · have hcalled := h.called call hcall
    cases call with
    | reading => exact hcalled
    | writing document =>
      obtain ⟨howner, hcounted, hpostprocessed⟩ := hcalled
      refine ⟨howner, hcounted, fun he => ?_⟩
      obtain ⟨hfull, hmeasured⟩ := hpostprocessed he
      exact ⟨hfull, hmeasured.record hkept⟩

/-- The status of a failure leaves the run open. -/
theorem Sound.fail (h : Sound site s) {process : Process} (hprocess : s.process = some process) :
    Sound site { s with status := failedStatus site s process, process := some ⟨process.pid, .leaving⟩ } := by
  have hstaged := h.staged process hprocess
  refine h.supervise s.lock s.terminalEvidence hprocess ?_ ?_ ?_ ⟨?_, ?_⟩
  · intro _
    unfold failedStatus
    split <;> rfl
  · unfold failedStatus
    split <;> exact ⟨by simp [countedStatus], .inl rfl⟩
  · unfold failedStatus
    split
    · rename_i hpostprocess
      intro _
      cases hstage : process.stage <;> simp only [hstage, postprocessStarted, Bool.false_eq_true] at hpostprocess <;>
        rw [hstage] at hstaged
      · exact hstaged.2
      · exact ⟨hstaged.2.1, hstaged.2.2.1⟩
      · exact hstaged.2
      · exact ⟨of_decide_eq_true hpostprocess, hstaged.2.1⟩
      · exact ⟨of_decide_eq_true hpostprocess, hstaged.2.1⟩
    · exact .of_ne (by simp [countedStatus])
  · simp only [failedStatus]
    split <;> rfl
  · simp only [failedStatus]
    split
    · exact .inr (.inr (.inl rfl))
    · exact .inl rfl

theorem reportedState_ne : reportedState site s ≠ .interrupted ∧ reportedState site s ≠ .postprocessFailed := by
  unfold reportedState
  split
  · split <;> simp
  · simp

theorem Sound.report (h : Sound site s) (hprocess : s.process = some ⟨pid, .working⟩) :
    Sound site { s with
      status := countedStatus site s (reportedState site s) pid
      process := some ⟨pid, reportedStage site s (countedStatus site s (reportedState site s) pid)⟩ } := by
  refine h.supervise s.lock s.terminalEvidence hprocess (fun _ => rfl) ⟨reportedState_ne.1, .inl rfl⟩
    (.of_ne reportedState_ne.2) ?_
  · unfold reportedStage
    split
    · rename_i hmeasured
      split
      · rename_i hfull
        exact ⟨rfl, hfull, hmeasured⟩
      · exact ⟨rfl, hmeasured, rfl, reportedState_ne.1, .inl rfl⟩
    · rename_i hmeasured
      refine ⟨rfl, .inl ?_⟩
      simp [countedStatus, reportedState, hmeasured]

/-- Between two calls, a run that is not seen with its process has none. -/
theorem Sound.process_eq_none (h : Sound site s) (hcall : s.call = none) (hinactive : processActive s s.status.pid = false) :
    s.process = none := by
  by_contra hne
  obtain ⟨process, hprocess⟩ := Option.ne_none_iff_exists'.mp hne
  simp [processActive, hprocess, h.owned hcall process hprocess] at hinactive

/-- A call puts the status of a run to rest that it found without a process. -/
theorem sound_put (hprocess : s.process = none) (hcall : s.call = none) {results : Nat → Option Result}
    (hcounted : Counted site document) (hstate : document.state ≠ .postprocessFailed) (hopen : Open document) :
    Sound site { s with results, status := document } := by
  refine ⟨hcounted, .of_ne hstate, ?_, ?_, ?_, fun _ => hopen⟩
  · intro process hsome
    rw [hprocess] at hsome
    cases hsome
  · intro _ process hsome
    rw [hprocess] at hsome
    cases hsome
  · intro call hsome
    rw [hcall] at hsome
    cases hsome

theorem Sound.of_interrupted (h : Sound site s) (hcall : s.call = none) (hseen : runtimeStatus s = .interrupted) :
    s.process = none ∧ active s.status.state = true := by
  unfold runtimeStatus at hseen
  split at hseen
  · rename_i hactive
    rw [Bool.and_eq_true, Bool.not_eq_true'] at hactive
    exact ⟨h.process_eq_none hcall hactive.2, hactive.1⟩
  · exact absurd hseen h.counted.1

theorem Sound.pause (h : Sound site s) (hcall : s.call = none) (hpause : pauseValidation s = some t) : Sound site t := by
  unfold pauseValidation at hpause
  split at hpause
  · cases hpause
    exact h
  split at hpause
  · rename_i hstopped
    cases hpause
    obtain ⟨hprocess, hleft⟩ : s.process = none ∧ s.status.completeWorkUnits < s.status.expectedWorkUnits := by
      obtain hseen | ⟨-, hleft, hinactive⟩ := hstopped
      · obtain ⟨hprocess, hactive⟩ := h.of_interrupted hcall hseen
        refine ⟨hprocess, ?_⟩
        obtain hstate | hstate | hstate | hleft := h.atRest hprocess
        · simp [hstate, active] at hactive
        · simp [hstate, active] at hactive
        · simp [hstate, active] at hactive
        · exact hleft
      · exact ⟨h.process_eq_none hcall hinactive, hleft⟩
    exact sound_put hprocess hcall (h.counted.update (by simp) (by simp) (by simp)) (by simp) (.inr (.inr (.inr hleft)))
  split at hpause
  · cases hpause
    refine ⟨h.counted, h.postprocessed, h.staged, ?_, ?_, h.atRest⟩
    · intro hnone
      cases hnone
    · rintro _ ⟨⟩
      exact ⟨h.owned hcall, h.counted.update (by simp) (by simp) (by simp), .of_ne (by simp)⟩
  · cases hpause

theorem Sound.requeue (h : Sound site s) {positions : List Nat} (hcall : s.call = none)
    (hrequeue : requeueFailedValidation site s positions = some t) : Sound site t := by
  unfold requeueFailedValidation at hrequeue
  split at hrequeue
  · cases hrequeue
  split at hrequeue
  · cases hrequeue
  split at hrequeue
  · cases hrequeue
  split at hrequeue
  · rename_i hseen hinactive hpositions hfailed
    cases hrequeue
    rw [not_not] at hseen
    have hprocess : s.process = none := h.process_eq_none hcall (by simpa using hinactive)
    have hstates : s.status.state ≠ .complete ∧ s.status.state ≠ .postprocessFailed := by
      constructor <;> intro hstate <;> simp [runtimeStatus, hstate, active] at hseen
    have hexpected := h.counted.expected_eq (h.atRest hprocess) hstates.1 hstates.2
    have hleft : ¬ Measured site (archived s.results positions) := by
      intro hmeasured
      obtain ⟨p, hp⟩ := List.exists_mem_of_ne_nil positions fun he => hpositions (.inl he)
      have hcomplete := hmeasured p (hfailed p hp).1
      simp [archived, hp] at hcomplete
    refine sound_put hprocess hcall (h.counted.update (by simp) (by simp) (by simp)) (by simp) (.inr (.inr (.inr ?_)))
    simp only [hexpected]
    exact completeCount_lt hleft
  · cases hrequeue

theorem Sound.resume (h : Sound site s) (hresume : resumeValidation site s = some t) : Sound site t := by
  unfold resumeValidation at hresume
  split at hresume
  · split at hresume
    · cases hresume
      exact h
    · cases hresume
  · split at hresume
    · cases hresume
    split at hresume
    · cases hresume
    split at hresume
    · split at hresume
      · cases hresume
      · cases hresume
        refine ⟨h.counted.update (by simp) (by simp) (by simp), .of_ne (by simp), ?_, ?_, ?_, ?_⟩
        · rintro _ ⟨⟩
          trivial
        · intro hnone
          cases hnone
        · rintro _ ⟨⟩
          refine ⟨?_, h.counted.update (by simp) (by simp) (by simp), .of_ne (by simp)⟩
          rintro _ ⟨⟩
          rfl
        · intro hnone
          cases hnone
    · cases hresume

theorem Sound.write (h : Sound site s) (hcall : s.call = some (.writing document)) (hopen : Open document ∨ Writes s) :
    Sound site { s with status := document, call := none } := by
  obtain ⟨howner, hcounted, hpostprocessed⟩ := h.called _ hcall
  refine ⟨hcounted, hpostprocessed, fun process hprocess => ?_, fun _ => howner, ?_, fun hprocess => ?_⟩
  · have hpid := howner process hprocess
    have hstaged := h.staged process hprocess
    cases hstage : process.stage with
    | entered | locked => trivial
    | working | pausing => exact hpid
    | leaving =>
      refine ⟨hpid, ?_⟩
      obtain hopen | ⟨process', hprocess', hwrites⟩ := hopen
      · exact hopen
      · cases hprocess.symm.trans hprocess'
        exact absurd hstage hwrites
    | postprocessing | published | analysing _ | finishing _ | retaining _ =>
      rw [hstage] at hstaged
      exact ⟨hpid, hstaged.2⟩
  · intro call hnone
    cases hnone
  · obtain hopen | ⟨process, hprocess', -⟩ := hopen
    · exact hopen
    · cases hprocess.symm.trans hprocess'

end Steps

/-- The process writes the counts again and stays where it is. -/
theorem Sound.poll (h : Sound site s) (hprocess : s.process = some ⟨pid, .working⟩) {state : RunState}
    (hstate : state ≠ .interrupted ∧ state ≠ .postprocessFailed) :
    Sound site { s with status := countedStatus site s state pid } := by
  have hsame : { s with status := countedStatus site s state pid } =
      { s with status := countedStatus site s state pid, process := some ⟨pid, .working⟩ } := by
    rw [← hprocess]
  rw [hsame]
  exact h.supervise _ _ hprocess (fun _ => rfl) ⟨hstate.1, .inl rfl⟩ (.of_ne hstate.2) rfl

/-- Every attended step keeps what holds of a run. -/
theorem Sound.step (h : Sound site s) (hn : Next site s op t) (hattended : Attended site s op) : Sound site t := by
  cases hn with
  | lock hprocess =>
    exact h.supervise _ _ hprocess (fun hcall => h.owned hcall _ hprocess) h.counted h.postprocessed trivial
  | refuse => exact h.leave _ hattended
  | begin hprocess =>
    exact h.supervise _ _ hprocess (fun _ => rfl) ⟨by simp [countedStatus], .inl rfl⟩ (.of_ne (by simp [countedStatus])) rfl
  | prepare hprocess => exact h.poll hprocess (by simp)
  | poll hprocess => exact h.poll hprocess (by simp)
  | notice hprocess =>
    exact h.supervise _ _ hprocess (fun _ => rfl) ⟨by simp [countedStatus], .inl rfl⟩ (.of_ne (by simp [countedStatus])) rfl
  | paused hprocess =>
    refine h.supervise _ _ hprocess (fun _ => rfl) ⟨by simp [countedStatus], .inl rfl⟩ (.of_ne (by simp [countedStatus])) ?_
    exact ⟨rfl, .inr (.inr (.inr (completeCount_lt hattended)))⟩
  | report hprocess => exact h.report hprocess
  | analyse hprocess =>
    obtain ⟨hpid, hfull, hmeasured⟩ := h.staged _ hprocess
    exact h.supervise _ _ hprocess (fun _ => hpid) h.counted h.postprocessed ⟨hpid, hfull, hmeasured, hpid, h.counted⟩
  | publish hprocess =>
    obtain ⟨-, hfull, hmeasured, hpid, hcounted⟩ := h.staged _ hprocess
    exact h.supervise _ _ hprocess (fun _ => hpid) hcounted (fun _ => ⟨hfull, hmeasured⟩) ⟨hpid, hfull, hmeasured⟩
  | readBack hprocess =>
    obtain ⟨hpid, -, hmeasured⟩ := h.staged _ hprocess
    exact h.supervise _ _ hprocess (fun _ => hpid) h.counted h.postprocessed ⟨hpid, hmeasured, hpid, h.counted⟩
  | @retain _ document hprocess =>
    obtain ⟨-, hmeasured, hpid, hcounted⟩ := h.staged _ hprocess
    have hcounted' : Counted site { document with state := .retaining } := hcounted.update (by simp) (by simp) (by simp)
    exact h.supervise _ _ hprocess (fun _ => hpid) hcounted' (.of_ne (by simp)) ⟨hpid, hmeasured, hpid, hcounted'⟩
  | complete hprocess =>
    obtain ⟨-, -, hpid, hcounted⟩ := h.staged _ hprocess
    exact h.supervise _ _ hprocess (fun _ => hpid) (hcounted.update (by simp) (by simp) (by simp)) (.of_ne (by simp))
      ⟨hpid, .inr (.inl rfl)⟩
  | fail hprocess => exact h.fail hprocess
  | exit hprocess => exact h.leave _ (h.staged _ hprocess).2
  | kill => exact h.leave _ (.inr hattended)
  | record => exact h.record hattended
  | pause hcall hpause => exact h.pause hcall hpause
  | requeue hcall hrequeue => exact h.requeue hcall hrequeue
  | resume _ hresume => exact h.resume hresume
  | read hcall =>
    have howner := h.called _ hcall
    refine ⟨h.counted, h.postprocessed, h.staged, ?_, ?_, h.atRest⟩
    · intro hnone
      cases hnone
    · rintro _ ⟨⟩
      refine ⟨fun process hprocess => ?_, h.counted, h.postprocessed⟩
      rw [howner process hprocess]
  | write hcall => exact h.write hcall (hattended _ hcall)

theorem sound_run {trace : List (Step Session Op)} {staleLock : Bool} (h : Run (Next site) (started staleLock) trace s)
    (hattended : ∀ st ∈ trace, Attended site st.before st.op) : Sound site s :=
  h.invariant (sound_started staleLock) fun st hst hn hsound => hsound.step hn (hattended st hst)

/-- At rest, a recoverable run is complete or is resumed. -/
theorem Sound.resumed_iff (h : Sound site s) (hsite : site.Satisfied) (hprocess : s.process = none) :
    (runtimeStatus s = .complete ∨ (resumeValidation site s).isSome = true) ↔ Recoverable s.status := by
  refine Lifecycle.resumed_iff hsite hprocess fun hstate => ?_
  obtain ⟨hfull, hmeasured⟩ := h.postprocessed hstate
  refine ⟨hfull, hmeasured, ?_⟩
  obtain ⟨-, hexpected | ⟨-, -, hne⟩⟩ := h.counted
  · exact hexpected
  · exact absurd hstate hne

/-- At rest, a resumption or another run is accepted exactly where the status is open. -/
theorem Sound.accepted_iff (h : Sound site s) (hsite : site.Satisfied) (hprocess : s.process = none) :
    ((resumeValidation site s).isSome = true ∨ startValidation site s = true) ↔ Open s.status := by
  rw [started_iff hsite hprocess]
  have hresumed := h.resumed_iff hsite hprocess
  constructor
  · rintro (haccepted | hcomplete | hfailed)
    · exact .inr (hresumed.mp (.inr haccepted))
    · exact .inr (.inl hcomplete)
    · exact .inl hfailed
  · rintro (hfailed | hrecoverable)
    · exact .inr (.inr hfailed)
    · obtain hcomplete | haccepted := hresumed.mpr hrecoverable
      · exact .inr (.inl (runtimeStatus_eq_complete hcomplete))
      · exact .inl haccepted

/-- In an attended run, what is left after a kill is complete or is resumed; and wherever no process is left, a resumption or
another run is accepted. -/
theorem run_resumable (hsite : site.Satisfied) {trace : List (Step Session Op)} {staleLock : Bool}
    (h : Run (Next site) (started staleLock) trace s) (hattended : ∀ st ∈ trace, Attended site st.before st.op) :
    (∀ st ∈ trace, st.op = .kill →
      runtimeStatus st.after = .complete ∨ (resumeValidation site st.after).isSome = true) ∧
    (s.process = none → (resumeValidation site s).isSome = true ∨ startValidation site s = true) := by
  constructor
  · rintro ⟨before, op, after⟩ hst hkill
    subst hkill
    have hrecoverable : Recoverable before.status := hattended _ hst
    obtain ⟨hn, hsound⟩ := h.invariant_before (sound_started staleLock)
      (fun st hm hn hsound => hsound.step hn (hattended st hm)) _ hst
    have hsound' := hsound.step hn hrecoverable
    have hn : Next site before .kill after := hn
    cases hn with
    | kill => exact (hsound'.resumed_iff hsite rfl).mpr hrecoverable
  · intro hprocess
    have hsound := sound_run h hattended
    exact (hsound.accepted_iff hsite hprocess).mpr (hsound.atRest hprocess)

def Op.isCall : Op → Bool
  | .pause | .requeue _ | .resume => true
  | _ => false

/-- A run without a process that has no unit left, but is not complete. -/
structure Stranded (site : Site) (s : Session) : Prop where
  process : s.process = none
  call : s.call = none
  measured : Measured site s.results
  seen : runtimeStatus s = .paused ∨ runtimeStatus s = .interrupted
  nothing_left : ¬ s.status.completeWorkUnits < s.status.expectedWorkUnits

theorem Stranded.refused (h : Stranded site s) :
    runtimeStatus s ≠ .complete ∧ resumeValidation site s = none ∧ startValidation site s = false := by
  obtain hseen | hseen := h.seen <;>
    simp [hseen, resumeValidation, resumable, h.nothing_left, startValidation, active]

theorem Stranded.step (h : Stranded site s) (hn : Next site s op t) (hcall : op.isCall = true) : Stranded site t := by
  cases hn with
  | pause _ hpause =>
    unfold pauseValidation at hpause
    split at hpause
    · cases hpause
      exact h
    split at hpause
    · cases hpause
      exact ⟨h.process, h.call, h.measured, .inl rfl, h.nothing_left⟩
    · rename_i hpaused hstopped
      obtain hseen | hseen := h.seen
      · exact absurd hseen hpaused
      · exact absurd (.inl hseen) hstopped
  | @requeue positions _ _ hrequeue =>
    unfold requeueFailedValidation at hrequeue
    split at hrequeue
    · cases hrequeue
    split at hrequeue
    · cases hrequeue
    split at hrequeue
    · cases hrequeue
    split at hrequeue
    · rename_i _ _ hpositions hfailed
      obtain ⟨p, hp⟩ := List.exists_mem_of_ne_nil positions fun he => hpositions (.inl he)
      exact absurd (h.measured p (hfailed p hp).1) (hfailed p hp).2.2
    · cases hrequeue
  | resume _ hresume => simp [h.refused.2.1] at hresume
  | _ => cases hcall

/-- No call helps a stranded run. -/
theorem Stranded.run (h : Stranded site s) {trace : List (Step Session Op)} (hrun : Run (Next site) s trace t)
    (hcalls : ∀ st ∈ trace, st.op.isCall = true) : Stranded site t :=
  hrun.invariant h fun st hst hn hstranded => hstranded.step hn (hcalls st hst)

end Running

namespace Killed

def site : Site := ⟨.full, [1, 2], true, true, true⟩

theorem satisfied : site.Satisfied := ⟨rfl, rfl, fun _ => rfl⟩

/-- The process is killed after the first of two units. -/
theorem run_resumable_running : ∃ trace s, Run (Next site) (started false) trace s ∧
    trace.map Step.op = [.read, .write, .lock, .begin, .record 1 (some .complete), .poll, .kill] ∧
    ((resumeValidation site s).isSome = true ∨ startValidation site s = true) := by
  have h : Run (Next site) (started false) [] (started false) ∧
      ∀ st ∈ ([] : List (Step Session Op)), Attended site st.before st.op :=
    ⟨.nil, fun _ hst => (List.not_mem_nil hst).elim⟩
  have h := Run.snoc_all h (show Next site _ .read _ from .read rfl) trivial
  have h := Run.snoc_all h (show Next site _ .write _ from .write rfl) fun _ _ => .inr ⟨_, rfl, by simp⟩
  have h := Run.snoc_all h (show Next site _ .lock _ from .lock rfl rfl rfl) trivial
  have h := Run.snoc_all h (show Next site _ .begin _ from .begin rfl) trivial
  have h := Run.snoc_all h (show Next site _ (.record 1 (some .complete)) _ from .record) fun _ => rfl
  have h := Run.snoc_all h (show Next site _ .poll _ from .poll rfl) trivial
  have h := Run.snoc_all h (show Next site _ .kill _ from .kill rfl) (.inr (.inr (by decide)))
  exact ⟨_, _, h.1, rfl, (run_resumable satisfied h.1 h.2).2 rfl⟩

/-- The process is killed while the hashes are analysed: after any calls, the run is not complete, is not resumed, and keeps
another run from starting. -/
theorem killed_postprocessing : ∃ trace s, Run (Next site) (started false) trace s ∧
    trace.map Step.op = [.read, .write, .lock, .begin, .record 1 (some .complete), .record 2 (some .complete), .report,
      .analyse, .kill] ∧
    ∀ calls t, Run (Next site) s calls t → (∀ st ∈ calls, st.op.isCall = true) →
      runtimeStatus t ≠ .complete ∧ resumeValidation site t = none ∧ startValidation site t = false := by
  have h : Run (Next site) (started false) [] (started false) := .nil
  have h := h.snoc (show Next site _ .read _ from .read rfl)
  have h := h.snoc (show Next site _ .write _ from .write rfl)
  have h := h.snoc (show Next site _ .lock _ from .lock rfl rfl rfl)
  have h := h.snoc (show Next site _ .begin _ from .begin rfl)
  have h := h.snoc (show Next site _ (.record 1 (some .complete)) _ from .record)
  have h := h.snoc (show Next site _ (.record 2 (some .complete)) _ from .record)
  have h := h.snoc (show Next site _ .report _ from .report rfl)
  have h := h.snoc (show Next site _ .analyse _ from .analyse rfl (by decide))
  have h := h.snoc (show Next site _ .kill _ from .kill rfl)
  refine ⟨_, _, h, rfl, fun calls t hrun hcalls => ?_⟩
  refine (Stranded.run ?_ hrun hcalls).refused
  exact ⟨rfl, rfl, by decide, .inr (by decide), by decide⟩

end Killed

end FidbPoc.Validation.Lifecycle
