import FidbPoc.Lib.Run
import FidbPoc.Validation.Claims
import Mathlib.Tactic.Common

namespace FidbPoc.Validation

open Lib

section Advancing

variable {execution : Execution} {pid : Nat} {failed : Bool} {files files' : RunFiles} {worker worker' : Worker}

/-- The steps of a worker, one by one. -/
inductive Advanced (execution : Execution) (pid : Nat) (files : RunFiles) (worker : Worker) : RunFiles → Worker → Prop
  | finish (hphase : worker.phase = .looking) (hpositions : worker.positions = []) :
      Advanced execution pid files worker files { worker with phase := .finished, progress := .finished }
  | skip {p : Nat} {rest : List Nat} (hphase : worker.phase = .looking) (hpositions : worker.positions = p :: rest)
      (hresult : files.results p ≠ none) : Advanced execution pid files worker files { worker with positions := rest }
  | look {p : Nat} {rest : List Nat} (hphase : worker.phase = .looking) (hpositions : worker.positions = p :: rest)
      (hresult : files.results p = none) : Advanced execution pid files worker files { worker with phase := .claiming }
  | taken {p : Nat} {rest : List Nat} {claim : Claim} (hphase : worker.phase = .claiming)
      (hpositions : worker.positions = p :: rest) (hclaim : files.claims p = some claim) :
      Advanced execution pid files worker files { worker with positions := rest, phase := .looking }
  | create {p : Nat} {rest : List Nat} (hphase : worker.phase = .claiming) (hpositions : worker.positions = p :: rest)
      (hclaim : files.claims p = none) :
      Advanced execution pid files worker (setClaim files p (some ⟨pid, false⟩)) { worker with phase := .writing }
  | write {p : Nat} {rest : List Nat} (hphase : worker.phase = .writing) (hpositions : worker.positions = p :: rest) :
      Advanced execution pid files worker (writeClaim files p pid) { worker with phase := .checking }
  | settled {p : Nat} {rest : List Nat} (hphase : worker.phase = .checking) (hpositions : worker.positions = p :: rest)
      (hresult : files.results p ≠ none) :
      Advanced execution pid files worker (releasePositionClaim files p pid)
        { worker with positions := rest, phase := .looking }
  | start {p : Nat} {rest : List Nat} (hphase : worker.phase = .checking) (hpositions : worker.positions = p :: rest)
      (hresult : files.results p = none) : Advanced execution pid files worker files { worker with phase := .starting }
  | run {p : Nat} {rest : List Nat} (hphase : worker.phase = .starting) (hpositions : worker.positions = p :: rest) :
      Advanced execution pid files worker files { worker with phase := .running, progress := .running p }
  | record {p : Nat} {rest : List Nat} {failed : Bool} (hphase : worker.phase = .running)
      (hpositions : worker.positions = p :: rest) :
      Advanced execution pid files worker (setResult files p (if failed then .failed none else .complete))
        { worker with phase := .recorded failed }
  | idle {failed : Bool} (hphase : worker.phase = .recorded failed) :
      Advanced execution pid files worker files { worker with phase := .releasing failed, progress := .idle }
  | abandon {p : Nat} {rest : List Nat} (hphase : worker.phase = .releasing true) (hpositions : worker.positions = p :: rest)
      (hcontinue : execution.continueAfterCellFailure = false) :
      Advanced execution pid files worker (releasePositionClaim files p pid)
        { worker with positions := rest, phase := .finished, progress := .finished }
  | release {p : Nat} {rest : List Nat} {failed : Bool} (hphase : worker.phase = .releasing failed)
      (hpositions : worker.positions = p :: rest) :
      Advanced execution pid files worker (releasePositionClaim files p pid)
        { worker with positions := rest, phase := .looking }

theorem advance_cases (h : advance execution pid failed files worker = some (files', worker')) :
    Advanced execution pid files worker files' worker' := by
  unfold advance at h
  split at h
  · cases h
    exact .finish ‹_› ‹_›
  · split at h
    · cases h
      exact .skip ‹_› ‹_› (Option.isSome_iff_ne_none.mp ‹_›)
    · cases h
      exact .look ‹_› ‹_› (Option.not_isSome_iff_eq_none.mp ‹_›)
  · split at h
    · cases h
      obtain ⟨claim, hclaim⟩ := Option.isSome_iff_exists.mp ‹_›
      exact .taken ‹_› ‹_› hclaim
    · cases h
      exact .create ‹_› ‹_› (Option.not_isSome_iff_eq_none.mp ‹_›)
  · cases h
    exact .write ‹_› ‹_›
  · split at h
    · cases h
      exact .settled ‹_› ‹_› (Option.isSome_iff_ne_none.mp ‹_›)
    · cases h
      exact .start ‹_› ‹_› (Option.not_isSome_iff_eq_none.mp ‹_›)
  · cases h
    exact .run ‹_› ‹_›
  · cases h
    exact .record ‹_› ‹_›
  · cases h
    exact .idle ‹_›
  · rename_i failed position rest hphase hpositions
    split at h
    · rename_i habandon
      simp only [Bool.and_eq_true, Bool.not_eq_true'] at habandon
      cases h
      exact .abandon (habandon.1 ▸ hphase) hpositions habandon.2
    · cases h
      exact .release ‹_› ‹_›
  · cases h

def Phase.holds : Phase → Bool
  | .writing => true
  | .checking => true
  | .starting => true
  | .running => true
  | _ => false

def Phase.executes : Phase → Bool
  | .starting => true
  | .running => true
  | _ => false

/-- A live worker created the claim file of a position, and has not written its result. -/
def Holds (worker : Worker) (p : Nat) : Prop :=
  worker.alive = true ∧ worker.positions.head? = some p ∧ worker.phase.holds = true

/-- A live worker is past its second look at the result, and has not written its own. -/
def Executes (worker : Worker) (p : Nat) : Prop :=
  worker.alive = true ∧ worker.positions.head? = some p ∧ worker.phase.executes = true

/-- The claim file that is a worker's own. -/
def Worker.claim (worker : Worker) (pid : Nat) : Claim := ⟨pid, worker.phase ≠ .writing⟩

theorem Executes.holds {p : Nat} (h : Executes worker p) : Holds worker p := by
  refine ⟨h.1, h.2.1, ?_⟩
  have hphase := h.2.2
  cases hcase : worker.phase <;> simp_all [Phase.executes, Phase.holds]

theorem claims_releasePositionClaim {p q : Nat} {c : Claim} (hc : files.claims q = some c) (hpid : c.pid ≠ pid) :
    (releasePositionClaim files p pid).claims q = some c := by
  unfold releasePositionClaim
  split
  · rename_i hclaim
    have hne : q ≠ p := by
      rintro rfl
      obtain rfl := Option.some.inj (hc.symm.trans hclaim)
      exact hpid rfl
    exact (Function.update_of_ne hne _ _).trans hc
  · exact hc

theorem claims_writeClaim {p q : Nat} {c : Claim} (hc : files.claims q = some c) (hpid : c.pid ≠ pid) :
    (writeClaim files p pid).claims q = some c := by
  unfold writeClaim
  split
  · rename_i hclaim
    have hne : q ≠ p := by
      rintro rfl
      obtain rfl := Option.some.inj (hc.symm.trans hclaim)
      exact hpid rfl
    exact (Function.update_of_ne hne _ _).trans hc
  · exact hc

/-- A worker leaves the claims of all others alone. -/
theorem Advanced.claims_other {q : Nat} {c : Claim} (h : Advanced execution pid files worker files' worker')
    (hc : files.claims q = some c) (hpid : c.pid ≠ pid) : files'.claims q = some c := by
  cases h with
  | create _ _ hclaim =>
    refine (Function.update_of_ne (fun hqp => ?_) _ _).trans hc
    rw [← hqp, hc] at hclaim
    cases hclaim
  | write => exact claims_writeClaim hc hpid
  | settled | abandon | release => exact claims_releasePositionClaim hc hpid
  | _ => exact hc

/-- The claim of a worker follows it through its steps. -/
theorem Advanced.claims_own {q : Nat} (h : Advanced execution pid files worker files' worker')
    (hown : ∀ p, Holds worker p → files.claims p = some (worker.claim pid)) (hholds : Holds worker' q) :
    files'.claims q = some (worker'.claim pid) := by
  obtain ⟨halive, hhead, hphase'⟩ := hholds
  cases h with
  | create _ hpositions =>
    rw [hpositions] at hhead
    obtain rfl := Option.some.inj hhead
    exact Function.update_self _ _ _
  | write hphase hpositions =>
    have hclaim := hown q ⟨halive, hhead, by rw [hphase]; rfl⟩
    rw [hpositions] at hhead
    obtain rfl := Option.some.inj hhead
    simp only [Worker.claim, hphase, ne_eq, not_true_eq_false, decide_false] at hclaim
    unfold writeClaim
    rw [if_pos hclaim]
    exact Function.update_self _ _ _
  | start hphase | run hphase =>
    have hclaim := hown q ⟨halive, hhead, by rw [hphase]; rfl⟩
    simpa [Worker.claim, hphase] using hclaim
  | finish | skip | look | taken | settled | record | idle | abandon | release => simp_all [Phase.holds]

theorem Advanced.alive (h : Advanced execution pid files worker files' worker') : worker'.alive = worker.alive := by
  cases h <;> rfl

/-- A worker writes the result of a position that it executes, and none else. -/
theorem Advanced.results (h : Advanced execution pid files worker files' worker') : files'.results = files.results ∨
    ∃ p failed, worker.positions.head? = some p ∧ worker.phase = .running ∧ worker'.phase = .recorded failed ∧
      files'.results = Function.update files.results p (some (if failed then .failed none else .complete)) := by
  cases h with
  | @record p rest failed hphase hpositions => exact .inr ⟨p, failed, by rw [hpositions]; rfl, hphase, rfl, rfl⟩
  | write =>
    left
    unfold writeClaim
    split <;> rfl
  | settled | abandon | release =>
    left
    unfold releasePositionClaim
    split <;> rfl
  | _ => exact .inl rfl

theorem Advanced.attempts (h : Advanced execution pid files worker files' worker') : files'.attempts = files.attempts := by
  cases h with
  | write =>
    unfold writeClaim
    split <;> rfl
  | settled | abandon | release =>
    unfold releasePositionClaim
    split <;> rfl
  | _ => rfl

/-- A worker starts on a position only where it found no result. -/
theorem Advanced.executes {q : Nat} (h : Advanced execution pid files worker files' worker') (hexecutes : Executes worker' q) :
    files'.results = files.results ∧ (Executes worker q ∨ files.results q = none) := by
  obtain ⟨halive, hhead, hphase'⟩ := hexecutes
  cases h with
  | start hphase hpositions hresult =>
    rw [hpositions] at hhead
    obtain rfl := Option.some.inj hhead
    exact ⟨rfl, .inr hresult⟩
  | run hphase => exact ⟨rfl, .inl ⟨halive, hhead, by rw [hphase]; rfl⟩⟩
  | _ => simp_all [Phase.executes]

end Advancing

section Histories

variable {execution : Execution} {s s' : State} {op : Op}

/-- What a live worker holds is its own claim, what it executes has no result, and no
process has the next number. -/
structure Claimed (s : State) : Prop where
  owned : ∀ pid w p, s.workers pid = some w → Holds w p → s.files.claims p = some (w.claim pid)
  unrecorded : ∀ pid w p, s.workers pid = some w → Executes w p → s.files.results p = none
  fresh : ∀ pid, s.nextPid ≤ pid → s.workers pid = none

/-- No two live workers execute the same position. -/
def Exclusive (s : State) : Prop :=
  ∀ p pid pid' w w', s.workers pid = some w → s.workers pid' = some w' → Executes w p → Executes w' p → pid = pid'

/-- A result stays, or is found among the attempts. -/
def Kept (s s' : State) : Prop :=
  ∀ p r, s.files.results p = some r → s'.files.results p = some r ∨ s'.files.results p = none ∧ r ∈ s'.files.attempts p

/-- The claims are cleared only when no live worker holds one, and a failure is written
only for a position without result that no live worker executes. -/
def Undisturbed (s : State) : Op → Prop
  | .clear => ∀ pid w p, s.workers pid = some w → ¬Holds w p
  | .writeFailure p => s.files.results p = none ∧ ∀ pid w, s.workers pid = some w → ¬Executes w p
  | _ => True

theorem Claimed.exclusive (h : Claimed s) : Exclusive s := by
  intro p pid pid' w w' hw hw' hexecutes hexecutes'
  have hclaim := h.owned pid w p hw hexecutes.holds
  have hclaim' := h.owned pid' w' p hw' hexecutes'.holds
  exact congrArg Claim.pid (Option.some.inj (hclaim.symm.trans hclaim'))

theorem claimed_initial : Claimed initial :=
  ⟨fun _ _ _ h => (by cases h), fun _ _ _ h => (by cases h), fun _ _ => rfl⟩

/-- A step that starts no process, keeps the claims of live workers and writes no result of
a position that is executed. -/
theorem Claimed.of_workers (h : Claimed s) (hnext : s'.nextPid = s.nextPid)
    (hworkers : ∀ pid w, s'.workers pid = some w → ∃ w₀, s.workers pid = some w₀ ∧ (w.alive = true → w = w₀))
    (hclaims : ∀ pid w p, s.workers pid = some w → Holds w p → s'.files.claims p = s.files.claims p)
    (hresults : ∀ pid w p, s.workers pid = some w → Executes w p → s'.files.results p = none) : Claimed s' := by
  refine ⟨fun pid w p hw hholds => ?_, fun pid w p hw hexecutes => ?_, fun pid hpid => ?_⟩
  · obtain ⟨w₀, hw₀, hsame⟩ := hworkers pid w hw
    obtain rfl := hsame hholds.1
    rw [hclaims pid w p hw₀ hholds, h.owned pid w p hw₀ hholds]
  · obtain ⟨w₀, hw₀, hsame⟩ := hworkers pid w hw
    obtain rfl := hsame hexecutes.1
    exact hresults pid w p hw₀ hexecutes
  · by_contra hne
    obtain ⟨w, hw⟩ := Option.ne_none_iff_exists'.mp hne
    obtain ⟨w₀, hw₀, -⟩ := hworkers pid w hw
    rw [h.fresh pid (hnext ▸ hpid)] at hw₀
    cases hw₀

/-- A step of the supervisor that touches neither a process nor a file. -/
theorem Claimed.same (h : Claimed s) (hnext : s'.nextPid = s.nextPid) (hworkers : s'.workers = s.workers)
    (hfiles : s'.files = s.files) : Claimed s' :=
  h.of_workers hnext (fun pid w hw => ⟨w, hworkers ▸ hw, fun _ => rfl⟩) (fun _ _ _ _ _ => by rw [hfiles])
    (fun pid w p hw hexecutes => by rw [hfiles]; exact h.unrecorded pid w p hw hexecutes)

theorem workers_terminate {pid pid' : Nat} {w : Worker} (hw : (terminate s pid).workers pid' = some w) :
    ∃ w₀, s.workers pid' = some w₀ ∧ (w.alive = true → w = w₀) := by
  unfold terminate at hw
  simp only at hw
  split at hw
  · obtain ⟨w₀, hw₀, rfl⟩ := Option.map_eq_some_iff.mp hw
    exact ⟨w₀, hw₀, fun halive => by cases halive⟩
  · exact ⟨w, hw, fun _ => rfl⟩

theorem terminate_dead {pid : Nat} {w : Worker} (hw : (terminate s pid).workers pid = some w) : w.alive = false := by
  unfold terminate at hw
  simp only [if_true] at hw
  obtain ⟨w₀, -, rfl⟩ := Option.map_eq_some_iff.mp hw
  rfl

theorem workers_terminateAll {slots : List Slot} {pid : Nat} {w : Worker} (hw : (terminateAll s slots).workers pid = some w) :
    ∃ w₀, s.workers pid = some w₀ ∧ (w.alive = true → w = w₀) := by
  unfold terminateAll at hw
  simp only at hw
  split at hw
  · obtain ⟨w₀, hw₀, rfl⟩ := Option.map_eq_some_iff.mp hw
    exact ⟨w₀, hw₀, fun halive => by cases halive⟩
  · exact ⟨w, hw, fun _ => rfl⟩

theorem of_update {workers : Nat → Option Worker} {pid pid' : Nat} {w v : Worker}
    (h : Function.update workers pid (some w) pid' = some v) : pid' = pid ∧ v = w ∨ pid' ≠ pid ∧ workers pid' = some v := by
  by_cases hpid : pid' = pid
  · subst hpid
    rw [Function.update_self] at h
    exact .inl ⟨rfl, (Option.some.inj h).symm⟩
  · rw [Function.update_of_ne hpid] at h
    exact .inr ⟨hpid, h⟩

theorem Claimed.work (h : Claimed s) {pid : Nat} {w w' : Worker} {files : RunFiles} (hw : s.workers pid = some w)
    (halive : w.alive = true) (hadvanced : Advanced execution pid s.files w files w') :
    Claimed { s with files, workers := Function.update s.workers pid (some w') } := by
  refine ⟨fun pid' v q hv hholds => ?_, fun pid' v q hv hexecutes => ?_, fun pid' hpid => ?_⟩
  · obtain ⟨rfl, rfl⟩ | ⟨hpid, hv⟩ := of_update hv
    · exact hadvanced.claims_own (fun p => h.owned pid' w p hw) hholds
    · exact hadvanced.claims_other (h.owned pid' v q hv hholds) hpid
  · obtain ⟨rfl, rfl⟩ | ⟨hpid, hv⟩ := of_update hv
    · obtain ⟨hresults, hexecutes | hnone⟩ := hadvanced.executes hexecutes
      · exact (congrFun hresults q).trans (h.unrecorded pid' w q hw hexecutes)
      · exact (congrFun hresults q).trans hnone
    · have hnone := h.unrecorded pid' v q hv hexecutes
      obtain hresults | ⟨p, failed, hhead, hphase, -, hresults⟩ := hadvanced.results
      · exact (congrFun hresults q).trans hnone
      · have hne : q ≠ p := by
          rintro rfl
          exact hpid (h.exclusive q pid' pid v w hv hw hexecutes ⟨halive, hhead, by rw [hphase]; rfl⟩)
        exact (congrFun hresults q).trans ((Function.update_of_ne hne _ _).trans hnone)
  · have hne : pid' ≠ pid := by
      rintro rfl
      rw [h.fresh pid' hpid] at hw
      cases hw
    exact (Function.update_of_ne hne _ _).trans (h.fresh pid' hpid)

theorem Claimed.spawn (h : Claimed s) (pending : List Nat) (supervisor : Option Supervisor) :
    Claimed { Validation.spawn s pending with supervisor } := by
  refine ⟨fun pid w p hw hholds => ?_, fun pid w p hw hexecutes => ?_, fun pid hpid => ?_⟩
  · obtain ⟨-, rfl⟩ | ⟨-, hw⟩ := of_update hw
    · cases hholds.2.2
    · exact h.owned pid w p hw hholds
  · obtain ⟨-, rfl⟩ | ⟨-, hw⟩ := of_update hw
    · cases hexecutes.2.2
    · exact h.unrecorded pid w p hw hexecutes
  · have hle : s.nextPid + 1 ≤ pid := hpid
    have hne : pid ≠ s.nextPid := by omega
    exact (Function.update_of_ne hne _ _).trans (h.fresh pid (Nat.le_of_succ_le hle))

/-- The claims of a dead process are released, and none of a live one. -/
theorem Claimed.releaseWorkerClaims (h : Claimed s) {dead : Nat} (hdead : ∀ w, s.workers dead = some w → w.alive = false)
    (supervisor : Option Supervisor) :
    Claimed { s with files := Validation.releaseWorkerClaims s.files dead, supervisor } := by
  refine h.of_workers rfl (fun pid w hw => ⟨w, hw, fun _ => rfl⟩) (fun pid w p hw hholds => ?_) h.unrecorded
  have hclaim := h.owned pid w p hw hholds
  refine if_neg fun hreleased => ?_
  obtain rfl : pid = dead := congrArg Claim.pid (Option.some.inj (hclaim.symm.trans hreleased))
  exact absurd hholds.1 (by simp [hdead w hw])

/-- A timed-out worker is dead before its claims are released. -/
def Stopped (s : State) : Prop := ∀ sup i p slot, s.supervisor = some sup → sup.act = .releasing i p →
  sup.slots[i]? = some slot → ∀ w, s.workers slot.pid = some w → w.alive = false

theorem supervisorFailure_ne {files : RunFiles} {p q i : Nat} {cause : Cause} :
    supervisorFailure files p cause ≠ .releasing i q := by
  unfold supervisorFailure Cause.next
  split
  · cases cause <;> simp
  · simp

theorem next_stopped (hstopped : Stopped s) (hnext : Next execution s op s') : Stopped s' := by
  intro sup' i p slot hsup' hact' hslot' w hw
  cases hnext with
  | work hworker halive hadvance =>
    have hdead := hstopped sup' i p slot hsup' hact' hslot'
    obtain ⟨hpid, -⟩ | ⟨-, hw⟩ := of_update hw
    · rw [hdead _ (hpid ▸ hworker)] at halive
      cases halive
    · exact hdead w hw
  | die hworker halive =>
    have hdead := hstopped sup' i p slot hsup' hact' hslot'
    obtain ⟨w₀, hw₀, hsame⟩ := workers_terminate hw
    cases hlive : w.alive with
    | false => rfl
    | true => rw [← hlive, hsame hlive, hdead w₀ hw₀]
  | stop hsup hact hslot =>
    obtain rfl := Option.some.inj hsup'
    cases hact'
    obtain rfl := Option.some.inj (hslot.symm.trans hslot')
    exact terminate_dead hw
  | preparationFailed | recordTimeout | recordExhausted =>
    obtain rfl := Option.some.inj hsup'
    exact absurd hact' supervisorFailure_ne
  | writeFailure hsup hact =>
    obtain rfl := Option.some.inj hsup'
    rename_i cause
    cases cause <;> cases hact'
  | requeue => exact hstopped sup' i p slot hsup' hact' hslot' w hw
  | pause | kill => cases hsup'
  | _ =>
    obtain rfl := Option.some.inj hsup'
    first
    | cases hact'
    | simp_all

theorem claims_archiveFailedResult {files : RunFiles} {p q : Nat} : (archiveFailedResult files p).claims q = files.claims q := by
  unfold archiveFailedResult
  split <;> rfl

theorem archiveFailedResult_cases (files : RunFiles) (p : Nat) : archiveFailedResult files p = files ∨
    ∃ r, files.results p = some r ∧ (archiveFailedResult files p).results = Function.update files.results p none ∧
      (archiveFailedResult files p).attempts = Function.update files.attempts p (files.attempts p ++ [r]) := by
  unfold archiveFailedResult
  split
  · exact .inr ⟨_, ‹_›, rfl, rfl⟩
  · exact .inl rfl

theorem results_archiveFailedResult {files : RunFiles} {p q : Nat} (h : files.results q = none) :
    (archiveFailedResult files p).results q = none := by
  obtain heq | ⟨_, -, hresults, -⟩ := archiveFailedResult_cases files p
  · rw [heq, h]
  · rw [hresults, Function.update_apply]
    split
    · rfl
    · exact h

/-- The claims stay exclusive in a step that is not disturbed. -/
theorem next_claimed (h : Claimed s) (hstopped : Stopped s) (hundisturbed : Undisturbed s op)
    (hnext : Next execution s op s') : Claimed s' := by
  cases hnext with
  | work hworker halive hadvance => exact h.work hworker halive (advance_cases hadvance)
  | die =>
    exact h.of_workers rfl (fun _ _ => workers_terminate) (fun _ _ _ _ _ => rfl) h.unrecorded
  | stop => exact h.of_workers rfl (fun _ _ => workers_terminate) (fun _ _ _ _ _ => rfl) h.unrecorded
  | pause => exact h.of_workers rfl (fun _ _ => workers_terminateAll) (fun _ _ _ _ _ => rfl) h.unrecorded
  | clear =>
    refine h.of_workers rfl (fun pid w hw => ⟨w, hw, fun _ => rfl⟩) (fun pid w p hw hholds => ?_) h.unrecorded
    exact absurd hholds (hundisturbed pid w p hw)
  | spawn | restart => exact h.spawn _ _
  | releaseTimedOut hsup hact hslot => exact h.releaseWorkerClaims (hstopped _ _ _ _ hsup hact hslot) _
  | release hsup hact hslot hhandled hworker hdead =>
    exact h.releaseWorkerClaims (fun w hw => Option.some.inj (hworker.symm.trans hw) ▸ hdead) _
  | writeFailure hsup hact =>
    rename_i sup position cause
    refine h.of_workers rfl (fun pid w hw => ⟨w, hw, fun _ => rfl⟩) (fun _ _ _ _ _ => rfl) fun pid w p hw hexecutes => ?_
    have hne : p ≠ position := by
      rintro rfl
      exact hundisturbed.2 pid w hw hexecutes
    exact (Function.update_of_ne hne _ _).trans (h.unrecorded pid w p hw hexecutes)
  | archive =>
    exact h.of_workers rfl (fun pid w hw => ⟨w, hw, fun _ => rfl⟩) (fun _ _ _ _ _ => claims_archiveFailedResult)
      fun pid w p hw hexecutes => results_archiveFailedResult (h.unrecorded pid w p hw hexecutes)
  | requeue =>
    exact h.of_workers rfl (fun pid w hw => ⟨w, hw, fun _ => rfl⟩) (fun _ _ _ _ _ => claims_archiveFailedResult)
      fun pid w p hw hexecutes => results_archiveFailedResult (h.unrecorded pid w p hw hexecutes)
  | _ => exact h.same rfl rfl rfl

theorem kept_of_results (h : s'.files.results = s.files.results) : Kept s s' :=
  fun p _ hr => .inl ((congrFun h p).trans hr)

theorem kept_archive {s s' : State} {p : Nat} (hresults : s'.files.results = (archiveFailedResult s.files p).results)
    (hattempts : s'.files.attempts = (archiveFailedResult s.files p).attempts) : Kept s s' := by
  intro q _ hr
  rw [hresults, hattempts]
  obtain heq | ⟨r', hr', hres, hatt⟩ := archiveFailedResult_cases s.files p
  · rw [heq]
    exact .inl hr
  · rw [hres, hatt]
    by_cases hq : q = p
    · subst hq
      obtain rfl := Option.some.inj (hr.symm.trans hr')
      exact .inr ⟨Function.update_self _ _ _, by simp⟩
    · exact .inl ((Function.update_of_ne hq _ _).trans hr)

/-- No result is replaced in a step that is not disturbed. -/
theorem next_kept (h : Claimed s) (hundisturbed : Undisturbed s op) (hnext : Next execution s op s') : Kept s s' := by
  cases hnext with
  | @work pid w w' failed files hworker halive hadvance =>
    have hadvanced := advance_cases hadvance
    obtain hresults | ⟨p, failed, hhead, hphase, -, hresults⟩ := hadvanced.results
    · exact kept_of_results hresults
    · have hnone := h.unrecorded pid w p hworker ⟨halive, hhead, by rw [hphase]; rfl⟩
      intro q r hr
      have hne : q ≠ p := by
        rintro rfl
        rw [hnone] at hr
        cases hr
      exact .inl ((congrFun hresults q).trans ((Function.update_of_ne hne _ _).trans hr))
  | writeFailure hsup hact =>
    intro q r hr
    refine .inl ((Function.update_of_ne ?_ _ _).trans hr)
    rintro rfl
    rw [hundisturbed.1] at hr
    cases hr
  | archive => exact kept_archive rfl rfl
  | requeue => exact kept_archive rfl rfl
  | _ => exact kept_of_results rfl

theorem run_claimed {trace : List (Step State Op)} (hrun : Run (Next execution) initial trace s)
    (hundisturbed : ∀ st ∈ trace, Undisturbed st.before st.op) :
    Claimed s ∧ Stopped s ∧ ∀ st ∈ trace, Kept st.before st.after := by
  induction hrun with
  | nil => exact ⟨claimed_initial, fun _ _ _ _ h => (by cases h), fun _ h => (List.not_mem_nil h).elim⟩
  | snoc _ hnext ih =>
    obtain ⟨hclaimed, hstopped, hkept⟩ := ih fun st hst => hundisturbed st (List.mem_append_left _ hst)
    have hlast := hundisturbed _ (List.mem_append_right _ (List.mem_singleton_self _))
    refine ⟨next_claimed hclaimed hstopped hlast hnext, next_stopped hstopped hnext, fun st hst => ?_⟩
    obtain hst | hst := List.mem_append.mp hst
    · exact hkept st hst
    · rw [List.mem_singleton.mp hst]
      exact next_kept hclaimed hlast hnext

end Histories

namespace Orphaned

/-- One position and one worker. -/
def execution : Execution := ⟨[1], 1, true, 1, 1, Nat.one_pos⟩

end Orphaned

end FidbPoc.Validation
