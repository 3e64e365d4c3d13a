import FidbPoc.Retention.Plan

namespace FidbPoc.Retention

open FidbPoc.Lib FidbPoc.Lib.Checked

def Note.names (jobId : String) (number : Nat) (note : Note) : Bool :=
  decide (note.jobId = some jobId) && decide (note.attemptNumber = some number)

def Attempt.is (jobId : String) (number : Nat) (attempt : Attempt) : Bool :=
  decide (attempt.jobId = jobId) && decide (attempt.attemptNumber = number)

def Bundle.stands (jobId : String) (number : Nat) (bundle : Bundle) : Nat :=
  if bundle.jobId = jobId then bundle.collapsedAttempts.count number else 0

namespace Collected

def bundles (collected : Collected) : List Bundle := collected.actions.filterMap Action.bundle?

/-- How often an attempt of a job is accounted for: by a bundle, or by a note. -/
def accounts (collected : Collected) (jobId : String) (number : Nat) : Nat :=
  (collected.bundles.map (Bundle.stands jobId number)).sum + collected.preserved.countP (Note.names jobId number) +
    collected.quarantined.countP (Note.names jobId number)

/-- Neither a bundle nor a note about a numbered attempt. -/
structure Silent (collected : Collected) : Prop where
  bundles : collected.bundles = []
  preserved : ∀ note ∈ collected.preserved, note.attemptNumber = none
  quarantined : ∀ note ∈ collected.quarantined, note.attemptNumber = none

variable {a b c : Collected} {passes : List Collected} {jobId : String} {number : Nat}

@[simp] theorem bundles_append : (a.append b).bundles = a.bundles ++ b.bundles := List.filterMap_append ..

@[simp] theorem bundles_concat : (concat passes).bundles = passes.flatMap bundles := by
  induction passes with
  | nil => rfl
  | cons pass passes ih => exact bundles_append.trans (congrArg (pass.bundles ++ ·) ih)

@[simp] theorem accounts_empty : accounts {} jobId number = 0 := rfl

@[simp] theorem accounts_append : (a.append b).accounts jobId number = a.accounts jobId number + b.accounts jobId number := by
  simp only [accounts, bundles_append, preserved_append, quarantined_append, List.map_append, List.sum_append,
    List.countP_append]
  omega

@[simp] theorem accounts_concat :
    (concat passes).accounts jobId number = (passes.map fun pass => pass.accounts jobId number).sum := by
  induction passes with
  | nil => rfl
  | cons pass passes ih => exact accounts_append.trans (congrArg (pass.accounts jobId number + ·) ih)

@[simp] theorem accounts_preserve {note : Note} :
    (preserve note).accounts jobId number = if note.names jobId number then 1 else 0 := by
  simp [accounts, preserve, bundles, List.countP_cons]

@[simp] theorem accounts_quarantine {note : Note} :
    (quarantine note).accounts jobId number = if note.names jobId number then 1 else 0 := by
  simp [accounts, quarantine, bundles, List.countP_cons]

@[simp] theorem accounts_bundle {bundle : Bundle} :
    (act (.bundleFailedAttempts bundle)).accounts jobId number = bundle.stands jobId number := by
  simp [accounts, act, bundles, Action.bundle?]

theorem names_of_attemptNumber {note : Note} (h : note.attemptNumber = none) : note.names jobId number = false := by
  simp [Note.names, h]

namespace Silent

theorem empty : Silent {} := ⟨rfl, fun _ h => (List.not_mem_nil h).elim, fun _ h => (List.not_mem_nil h).elim⟩

theorem append (ha : Silent a) (hb : Silent b) : Silent (a.append b) := by
  refine ⟨?_, ?_, ?_⟩
  · rw [bundles_append, ha.bundles, hb.bundles]
    rfl
  · exact fun note h => (List.mem_append.mp h).elim (ha.preserved note) (hb.preserved note)
  · exact fun note h => (List.mem_append.mp h).elim (ha.quarantined note) (hb.quarantined note)

theorem concat (h : ∀ pass ∈ passes, Silent pass) : Silent (Collected.concat passes) := by
  induction passes with
  | nil => exact empty
  | cons pass passes ih =>
    obtain ⟨hpass, hpasses⟩ := List.forall_mem_cons.mp h
    exact hpass.append (ih hpasses)

theorem preserve {note : Note} (h : note.attemptNumber = none) : Silent (Collected.preserve note) :=
  ⟨rfl, fun _ hn => List.mem_singleton.mp hn ▸ h, fun _ hn => (List.not_mem_nil hn).elim⟩

theorem quarantine {note : Note} (h : note.attemptNumber = none) : Silent (Collected.quarantine note) :=
  ⟨rfl, fun _ hn => (List.not_mem_nil hn).elim, fun _ hn => List.mem_singleton.mp hn ▸ h⟩

theorem act {action : Action} (h : action.bundle? = none) : Silent (Collected.act action) :=
  ⟨by simp [Collected.bundles, Collected.act, h], fun _ hn => (List.not_mem_nil hn).elim,
    fun _ hn => (List.not_mem_nil hn).elim⟩

theorem mapM {α : Type} {f : α → Result Collected} {rows : List α} (h : rows.mapM f = .ok passes)
    (hf : ∀ row pass, f row = .ok pass → Silent pass) : Silent (Collected.concat passes) :=
  concat fun pass hp => (mem_mapM h pass hp).elim fun row hrow => hf row pass hrow.2

theorem accounts (h : Silent c) : c.accounts jobId number = 0 := by
  have hpreserved : c.preserved.countP (Note.names jobId number) = 0 :=
    List.countP_eq_zero.mpr fun note hn => by simp [names_of_attemptNumber (h.preserved note hn)]
  have hquarantined : c.quarantined.countP (Note.names jobId number) = 0 :=
    List.countP_eq_zero.mpr fun note hn => by simp [names_of_attemptNumber (h.quarantined note hn)]
  rw [Collected.accounts, h.bundles, hpreserved, hquarantined]
  rfl

end Silent

end Collected

section Passes

open Collected

variable {t : Files} {policy : RetentionPolicy} {collected : Collected}

theorem silent_successScratch {jobId item : String} {attemptRoot : Path} {receiptVerified : Bool}
    (h : successScratch t policy jobId attemptRoot receiptVerified item = .ok collected) : Silent collected := by
  unfold successScratch at h
  obtain ⟨target, -, h⟩ := bind_eq_ok.mp h
  split at h
  · simp only [bind_eq_ok] at h
    obtain ⟨scanned, -, path, -, h⟩ := h
    cases scanned with
    | error reason => exact pure_eq_ok.mp h ▸ .quarantine rfl
    | ok stats => exact pure_eq_ok.mp h ▸ .act rfl
  · exact pure_eq_ok.mp h ▸ .empty

/-- A verified attempt brings its quarantined receipt, if it has one, and then a note or what its scratch comes to. -/
theorem collectSuccess_eq_ok {jobId : String} {verification : Verification}
    (h : collectSuccess t policy jobId verification = .ok collected) : ∃ refused rest : Collected,
      collected = refused.append rest ∧
      (refused = {} ∨ ∃ note : Note, note.attemptNumber = none ∧ refused = .quarantine note) ∧
      ((∃ note : Note, note.attemptNumber = none ∧ rest = .preserve note) ∨ ∃ valid targets,
        policy.pruneAfterReceipt.mapM (successScratch t policy jobId verification.attemptRoot valid) = .ok targets ∧
          rest = .concat targets) := by
  unfold collectSuccess at h
  obtain ⟨receipt, -, h⟩ := bind_eq_ok.mp h
  cases herror : receipt.error
  all_goals
    simp only [herror] at h
    split at h
    · obtain ⟨path, -, h⟩ := bind_eq_ok.mp h
      exact ⟨_, _, (pure_eq_ok.mp h).symm, by first | exact .inl rfl | exact .inr ⟨_, rfl, rfl⟩, .inl ⟨_, rfl, rfl⟩⟩
    · obtain ⟨targets, htargets, h⟩ := bind_eq_ok.mp h
      exact ⟨_, _, (pure_eq_ok.mp h).symm, by first | exact .inl rfl | exact .inr ⟨_, rfl, rfl⟩, .inr ⟨_, _, htargets, rfl⟩⟩

theorem silent_collectSuccess {jobId : String} {verification : Verification}
    (h : collectSuccess t policy jobId verification = .ok collected) : Silent collected := by
  obtain ⟨refused, rest, rfl, hrefused, hrest⟩ := collectSuccess_eq_ok h
  refine Silent.append ?_ ?_
  · rcases hrefused with rfl | ⟨note, hnote, rfl⟩
    · exact .empty
    · exact .quarantine hnote
  · rcases hrest with ⟨note, hnote, rfl⟩ | ⟨valid, targets, htargets, rfl⟩
    · exact .preserve hnote
    · exact .mapM htargets fun _ _ => silent_successScratch

theorem Collected.Silent.verified {c : Collected} (h : Silent c) : Silent c.verified :=
  ⟨h.bundles, h.preserved, h.quarantined⟩

theorem silent_completedJob {holds : List RetentionHold} {job : Job}
    (h : completedJob t policy holds job = .ok collected) : Silent collected := by
  unfold completedJob at h
  split at h
  · obtain ⟨verified, -, h⟩ := bind_eq_ok.mp h
    cases verified with
    | error reason => exact pure_eq_ok.mp h ▸ .quarantine rfl
    | ok verification =>
      simp only at h
      split at h
      · obtain ⟨path, -, h⟩ := bind_eq_ok.mp h
        exact pure_eq_ok.mp h ▸ (Silent.preserve rfl).verified
      · obtain ⟨kept, hkept, h⟩ := bind_eq_ok.mp h
        exact pure_eq_ok.mp h ▸ (silent_collectSuccess hkept).verified
  · exact pure_eq_ok.mp h ▸ .empty

theorem silent_unknownStaging {known : List Path} {name : String}
    (h : unknownStaging t policy known name = .ok collected) : Silent collected := by
  unfold unknownStaging at h
  simp only at h
  split at h
  · obtain ⟨place, -, h⟩ := bind_eq_ok.mp h
    exact pure_eq_ok.mp h ▸ .quarantine rfl
  · obtain ⟨resolved, -, h⟩ := bind_eq_ok.mp h
    split at h
    · exact pure_eq_ok.mp h ▸ .empty
    · obtain ⟨place, -, h⟩ := bind_eq_ok.mp h
      exact pure_eq_ok.mp h ▸ .quarantine rfl

theorem silent_pruneCandidate {runRoot : Path} {kind : String} {action : List Path → Stats → Action} {paths : List Path}
    (haction : ∀ paths stats, (action paths stats).bundle? = none)
    (h : pruneCandidate t policy runRoot kind action paths = .ok collected) : Silent collected := by
  unfold pruneCandidate at h
  split at h
  · exact pure_eq_ok.mp h ▸ .empty
  · obtain ⟨scanned, -, h⟩ := bind_eq_ok.mp h
    cases scanned with
    | error reason =>
      obtain ⟨path, -, h⟩ := bind_eq_ok.mp h
      exact pure_eq_ok.mp h ▸ .quarantine rfl
    | ok stats =>
      obtain ⟨places, -, h⟩ := bind_eq_ok.mp h
      exact pure_eq_ok.mp h ▸ .act (haction _ _)

theorem silent_collectRecord {runRoot : Path} {record : ValidationRecord}
    (h : collectRecord t policy runRoot record = .ok collected) : Silent collected := by
  unfold collectRecord at h
  obtain ⟨units, -, h⟩ := bind_eq_ok.mp h
  simp only at h
  obtain ⟨scratch, -, h⟩ := bind_eq_ok.mp h
  cases scratch with
  | refused path =>
    obtain ⟨place, -, h⟩ := bind_eq_ok.mp h
    refine pure_eq_ok.mp h ▸ Silent.append ⟨rfl, ?_, fun _ hn => (List.not_mem_nil hn).elim⟩ (.quarantine rfl)
    exact fun note hn => by rw [List.mem_singleton.mp hn]
  | selected paths seen =>
    simp only [bind_eq_ok, pure_eq_ok] at h
    obtain ⟨composites, -, pruned, hpruned, binaries, hbinaries, rfl⟩ := h
    refine Silent.append ⟨rfl, ?_, fun _ hn => (List.not_mem_nil hn).elim⟩ (.append ?_ ?_)
    · exact fun note hn => by rw [List.mem_singleton.mp hn]
    · exact silent_pruneCandidate (fun _ _ => rfl) hpruned
    · exact silent_pruneCandidate (fun _ _ => rfl) hbinaries

variable {hashing : Hashing}

theorem silent_validationRun {runRoot : Path} (h : validationRun t hashing policy runRoot = .ok collected) :
    Silent collected := by
  unfold validationRun at h
  split at h
  · exact pure_eq_ok.mp h ▸ .empty
  · obtain ⟨verified, -, h⟩ := bind_eq_ok.mp h
    cases verified with
    | error reason =>
      obtain ⟨path, -, h⟩ := bind_eq_ok.mp h
      exact pure_eq_ok.mp h ▸ .quarantine rfl
    | ok record => exact silent_collectRecord h

theorem silent_validationCohort {cohort : Path} (h : validationCohort t hashing policy cohort = .ok collected) :
    Silent collected := by
  unfold validationCohort at h
  split at h
  · obtain ⟨path, -, h⟩ := bind_eq_ok.mp h
    exact pure_eq_ok.mp h ▸ .quarantine rfl
  · obtain ⟨runs, hruns, h⟩ := bind_eq_ok.mp h
    exact pure_eq_ok.mp h ▸ .mapM hruns fun _ _ => silent_validationRun

theorem silent_validationRetentionRecords (h : validationRetentionRecords t hashing policy = .ok collected) :
    Silent collected := by
  unfold validationRetentionRecords at h
  split at h
  · exact pure_eq_ok.mp h ▸ .empty
  · simp only [bind_eq_ok, pure_eq_ok] at h
    obtain ⟨-, -, cohorts, hcohorts, rfl⟩ := h
    exact .mapM hcohorts fun _ _ => silent_validationCohort

theorem silent_collectValidation {w : World} {request : Request}
    (h : collectValidation w hashing policy request = .ok collected) : Silent collected := by
  unfold collectValidation at h
  split at h
  · exact silent_validationRetentionRecords h
  · exact pure_eq_ok.mp h ▸ .empty

theorem silent_collectSuccesses {w : World} {request : Request}
    (h : collectSuccesses w policy request = .ok collected) : Silent collected := by
  unfold collectSuccesses at h
  simp only [bind_eq_ok, pure_eq_ok] at h
  obtain ⟨-, -, completed, hcompleted, rfl⟩ := h
  exact .mapM hcompleted fun _ _ => silent_completedJob

end Passes

end FidbPoc.Retention
