import FidbPoc.Campaigns.Evidence
import FidbPoc.Campaigns.Sessions
import Mathlib.Data.List.Flatten

namespace FidbPoc.Campaigns.Sessions

open FidbPoc.Lib

section Keeping

def CaseFiles.current (files : CaseFiles) : Kind → Option Record
  | .summary => files.summary.map .summary
  | .failure => files.failure.map .failure

/-- The record is in its place or archived. -/
def CaseFiles.Holds (files : CaseFiles) (record : Record) : Prop :=
  (∃ kind, files.current kind = some record) ∨ ∃ name, files.attempts.get? name = some record

/-- An archived record stays, and a record that leaves its place is archived under a name that no attempt had. -/
def CaseFiles.Keeps (before after : CaseFiles) : Prop :=
  (∀ name record, before.attempts.get? name = some record → after.attempts.get? name = some record) ∧
  ∀ kind record, before.current kind = some record → after.current kind = some record ∨
    ∃ ordinal, before.attempts.get? (attemptName ordinal kind) = none ∧
      after.attempts.get? (attemptName ordinal kind) = some record

variable {before after files : CaseFiles} {record : Record}

theorem CaseFiles.Keeps.refl (files : CaseFiles) : files.Keeps files :=
  ⟨fun _ _ h => h, fun _ _ h => .inl h⟩

theorem CaseFiles.Keeps.holds (h : before.Keeps after) (hrecord : before.Holds record) : after.Holds record := by
  obtain ⟨kind, hrecord⟩ | ⟨name, hrecord⟩ := hrecord
  · obtain hstays | ⟨ordinal, -, hmoved⟩ := h.2 kind record hrecord
    · exact .inl ⟨kind, hstays⟩
    · exact .inr ⟨_, hmoved⟩
  · exact .inr ⟨name, h.1 name record hrecord⟩

/-- Writing a record where there is none. -/
theorem CaseFiles.keeps_of_none (hattempts : after.attempts = before.attempts)
    (h : ∀ kind, before.current kind = none ∨ after.current kind = before.current kind) : before.Keeps after := by
  refine ⟨fun name record hrecord => hattempts ▸ hrecord, fun kind record hrecord => .inl ?_⟩
  obtain hnone | heq := h kind
  · rw [hnone] at hrecord
    cases hrecord
  · exact heq.trans hrecord

theorem get?_set_of_free {attempts : Dict String Record} {name name' : String} (hfree : attempts.get? name = none)
    {record' : Record} (h : attempts.get? name' = some record') : (attempts.set name record).get? name' = some record' := by
  have hne : name' ≠ name := by
    rintro rfl
    rw [hfree] at h
    cases h
  rw [Dict.get?_set, if_neg hne]
  exact h

/-- Moving the record of one kind to a free name. -/
theorem CaseFiles.keeps_of_moved {ordinal : Nat} {kind : Kind} (hfree : before.attempts.get? (attemptName ordinal kind) = none)
    (hrecord : before.current kind = some record) (hattempts : after.attempts = before.attempts.set (attemptName ordinal kind) record)
    (hother : ∀ kind', kind' ≠ kind → after.current kind' = before.current kind') : before.Keeps after := by
  refine ⟨fun name record' h => ?_, fun kind' record' h => ?_⟩
  · rw [hattempts]
    exact get?_set_of_free hfree h
  · by_cases hkind : kind' = kind
    · subst hkind
      obtain rfl : record = record' := Option.some.inj (hrecord.symm.trans h)
      refine .inr ⟨ordinal, hfree, ?_⟩
      rw [hattempts, Dict.get?_set_self]
    · exact .inl ((hother kind' hkind).trans h)

end Keeping

section Soundness

/-- What a worker at its first case knows of the files of that case. -/
def Phase.Sound (files : CaseFiles) : Phase → Prop
  | .found summary failure => (summary = false → files.summary = none) ∧ (failure = false → files.failure = none)
  | .archiving ordinal summary failure =>
    (summary = false → files.summary = none) ∧ (failure = false → files.failure = none) ∧
      (summary = true → files.attempts.get? (attemptName ordinal .summary) = none) ∧
      (failure = true → files.attempts.get? (attemptName ordinal .failure) = none)
  | .matching => files.summary = none ∧ files.failure = none
  | _ => True

def Worker.Sound (w : Worker) (root : Root) : Prop := ∀ c, w.executing = some c → w.phase.Sound (root.files c)

variable {a : Authorities} {root root' : Root} {w : Worker} {w' : Option Worker} {act : WorkerAct} {c : Case}

theorem setFiles_self (root : Root) (c : Case) (files : CaseFiles) : (root.setFiles c files).files c = files :=
  Function.update_self ..

theorem setFiles_of_ne (root : Root) {c c' : Case} (files : CaseFiles) (h : c' ≠ c) :
    (root.setFiles c files).files c' = root.files c' :=
  Function.update_of_ne h ..

/-- A worker changes the files of the case that it executes only. -/
theorem WorkerStep.frame (h : WorkerStep a root w act root' w') (hc : w.executing ≠ some c) :
    root'.files c = root.files c := by
  cases h with
  | archiveSummary | archiveFailure | finish | fail =>
    exact setFiles_of_ne root _ fun heq => hc (congrArg some heq.symm)
  | prepare | skip | look | scan | start | tidy | exit | crash => rfl

theorem WorkerStep.cases_sublist (h : WorkerStep a root w act root' w') :
    (w'.toList.flatMap Worker.cases).Sublist w.cases := by
  cases h with
  | prepare | look | scan | archiveSummary | archiveFailure | start | finish =>
    rw [Option.toList_some, List.flatMap_singleton]
  | skip | tidy | fail =>
    rw [Option.toList_some, List.flatMap_singleton]
    exact List.sublist_cons_self ..
  | exit | crash => exact List.nil_sublist _

/-- A worker that knows the files of its case keeps what they hold. -/
theorem WorkerStep.keeps (h : WorkerStep a root w act root' w') (hw : w.Sound root) (c : Case) :
    (root.files c).Keeps (root'.files c) := by
  by_cases hc : w.executing = some c
  · have hsound := hw c hc
    cases h with
    | prepare | skip | look | scan | start | tidy | exit | crash => exact .refl _
    | archiveSummary hsummary =>
      cases hc
      rw [setFiles_self]
      refine CaseFiles.keeps_of_moved (hsound.2.2.1 rfl) (by rw [CaseFiles.current, hsummary]; rfl) rfl fun kind hkind => ?_
      cases kind with
      | summary => exact absurd rfl hkind
      | failure => rfl
    | archiveFailure hfailure =>
      cases hc
      rw [setFiles_self]
      refine CaseFiles.keeps_of_moved (hsound.2.2.2 rfl) (by rw [CaseFiles.current, hfailure]; rfl) rfl fun kind hkind => ?_
      cases kind with
      | summary => rfl
      | failure => exact absurd rfl hkind
    | finish =>
      cases hc
      rw [setFiles_self]
      refine CaseFiles.keeps_of_none rfl fun kind => ?_
      cases kind with
      | summary => exact .inl (by rw [CaseFiles.current, hsound.1]; rfl)
      | failure => exact .inr rfl
    | fail =>
      cases hc
      rw [setFiles_self]
      refine CaseFiles.keeps_of_none rfl fun kind => ?_
      cases kind with
      | summary => exact .inr rfl
      | failure => exact .inl (by rw [CaseFiles.current, hsound.2]; rfl)
  · rw [h.frame hc]
    exact .refl _

/-- A worker goes on to know them. -/
theorem WorkerStep.sound (h : WorkerStep a root w act root' w') (hw : w.Sound root) {v : Worker} (hv : v ∈ w'.toList) :
    v.Sound root' := by
  intro c hc
  cases h with
  | exit | crash => cases hv
  | prepare | skip | tidy | fail =>
    cases List.mem_singleton.mp hv
    cases hc
  | look =>
    cases List.mem_singleton.mp hv
    cases hc
    exact ⟨fun h => by simpa using h, fun h => by simpa using h⟩
  | scan =>
    cases List.mem_singleton.mp hv
    cases hc
    have hsound := hw c rfl
    exact ⟨hsound.1, hsound.2, fun _ => get?_nextOrdinal _ _, fun _ => get?_nextOrdinal _ _⟩
  | @archiveSummary _ ordinal _ _ _ failure summary hsummary =>
    cases List.mem_singleton.mp hv
    cases hc
    have hsound := hw c rfl
    rw [setFiles_self]
    refine ⟨fun _ => rfl, hsound.2.1, fun h => absurd h Bool.false_ne_true, fun h => ?_⟩
    have hne : attemptName ordinal .failure ≠ attemptName ordinal .summary := fun heq => nomatch (attemptName_inj heq).2
    rw [Dict.get?_set, if_neg hne]
    exact hsound.2.2.2 h
  | archiveFailure hfailure =>
    cases List.mem_singleton.mp hv
    cases hc
    rw [setFiles_self]
    exact ⟨(hw c rfl).1, fun _ => rfl, fun h => absurd h Bool.false_ne_true, fun h => absurd h Bool.false_ne_true⟩
  | start =>
    cases List.mem_singleton.mp hv
    cases hc
    have hsound := hw c rfl
    exact ⟨hsound.1 rfl, hsound.2.1 rfl⟩
  | finish =>
    cases List.mem_singleton.mp hv
    exact trivial

end Soundness

section Exclusion

/-- The cases of the chunks that no process has yet. -/
def Site.unstarted (site : Site) : List Case :=
  match site.run with
  | some ⟨_, .starting chunks⟩ => chunks.flatten
  | _ => []

/-- Two live workers do not execute one case. -/
def SingleExecutor (site : Site) : Prop :=
  site.live.Pairwise fun v w => ∀ c, ¬(v.executing = some c ∧ w.executing = some c)

/-- A cleanup leaves the scratch of the live workers. -/
def Harmless (st : Step Site Op) : Prop :=
  st.op = .clean ∨ st.op = .retain →
    ∀ w ∈ st.before.live, ∀ scratch ∈ st.before.root.scratch, w.Owns scratch → scratch ∈ st.after.root.scratch

def Preserves (st : Step Site Op) : Prop := ∀ c, (st.before.root.files c).Keeps (st.after.root.files c)

/-- A call cleans up when the workers of the calls before it have exited, and no case is listed twice. -/
def Attended (a : Authorities) (site : Site) : Op → Prop
  | .clean => site.orphans = []
  | .schedule _ => ∀ run ∈ site.run, (expectedCases a.campaign run.mode).Nodup
  | _ => True

/-- No case is given to two of the live workers and the chunks to come, and every worker knows the files of its case. -/
structure Exclusive (site : Site) : Prop where
  nodup : (site.live.flatMap Worker.cases ++ site.unstarted).Nodup
  sound : ∀ w ∈ site.live, w.Sound site.root
  workers : (∀ mode chunks, site.run ≠ some ⟨mode, .starting chunks⟩) → site.workers = []
  orphans : site.run ≠ none → (∀ mode, site.run ≠ some ⟨mode, .locked⟩) → site.orphans = []

variable {a : Authorities} {root root' : Root} {site site' : Site} {op : Op} {w : Worker} {w' : Option Worker} {act : WorkerAct}
  {xs ys : List Worker} {v : Worker} {c : Case}

theorem Worker.mem_cases (h : w.executing = some c) : c ∈ w.cases := by
  unfold Worker.executing at h
  split at h
  · cases h
  · cases h
  · exact List.mem_of_mem_head? h

theorem Exclusive.singleExecutor (h : Exclusive site) : SingleExecutor site := by
  have hdisjoint := (List.nodup_flatMap.mp (List.nodup_append.mp h.nodup).1).2
  refine hdisjoint.imp fun hdisjoint c hc => ?_
  exact hdisjoint (Worker.mem_cases hc.1) (Worker.mem_cases hc.2)

/-- The other workers of a list in which no case is given twice execute other cases. -/
theorem executing_ne (hnodup : ((xs ++ w :: ys).flatMap Worker.cases).Nodup) (hv : v ∈ xs ++ ys) (hc : v.executing = some c) :
    w.executing ≠ some c := by
  intro hw
  have hperm : (xs ++ w :: ys).Perm (w :: (xs ++ ys)) := List.perm_middle
  have hnodup := (List.nodup_flatMap.mp ((hperm.flatMap_right _).nodup_iff.mp hnodup)).2
  exact List.rel_of_pairwise_cons hnodup hv (Worker.mem_cases hw) (Worker.mem_cases hc)

theorem WorkerStep.sound_all (h : WorkerStep a root w act root' w') (hnodup : ((xs ++ w :: ys).flatMap Worker.cases).Nodup)
    (hsound : ∀ v ∈ xs ++ w :: ys, v.Sound root) : ∀ v ∈ xs ++ w'.toList ++ ys, v.Sound root' := by
  have hother : ∀ v ∈ xs ++ ys, v.Sound root' := by
    intro v hv c hc
    rw [h.frame (executing_ne hnodup hv hc)]
    have hmem : v ∈ xs ++ w :: ys := List.perm_middle.mem_iff.mpr (List.mem_cons_of_mem _ hv)
    exact hsound v hmem c hc
  intro v hv
  obtain hv | hv := List.mem_append.mp hv
  · obtain hv | hv := List.mem_append.mp hv
    · exact hother v (List.mem_append_left _ hv)
    · exact h.sound (hsound w (List.mem_append_right _ List.mem_cons_self)) hv
  · exact hother v (List.mem_append_right _ hv)

theorem WorkerStep.sublist_all (h : WorkerStep a root w act root' w') :
    ((xs ++ w'.toList ++ ys).flatMap Worker.cases).Sublist ((xs ++ w :: ys).flatMap Worker.cases) := by
  rw [List.append_assoc, List.flatMap_append, List.flatMap_append, List.flatMap_append, List.flatMap_cons]
  exact (h.cases_sublist.append_right _).append_left _

theorem nodup_scheduled {dir : Directory} {mode : Mode} {functionsHashed : Case → Nat}
    (h : (expectedCases a.campaign mode).Nodup) :
    ((scheduledCaseChunks a dir mode functionsHashed).map Chunk.cases).flatten.Nodup := by
  have hworkers : 0 < modeWorkers a mode := modeWorkers_pos
  have hperm := balancedCaseChunks_cases (pendingCases a dir mode functionsHashed) hworkers
  rw [← List.flatMap_def]
  refine hperm.nodup_iff.mpr ?_
  rw [pendingCases, List.map_map]
  exact (List.map_id _).symm ▸ h.filter _

theorem Exclusive.initial (root : Root) : Exclusive (idle root) where
  nodup := List.nodup_nil
  sound _ hw := absurd hw List.not_mem_nil
  workers _ := rfl
  orphans h := absurd rfl h

/-- A step of one of the live workers. -/
theorem Exclusive.moved (h : Exclusive site) (hlive : site.live = xs ++ w :: ys) (hstep : WorkerStep a site.root w act root w') :
    ((xs ++ w'.toList ++ ys).flatMap Worker.cases ++ site.unstarted).Nodup ∧ ∀ v ∈ xs ++ w'.toList ++ ys, v.Sound root := by
  have hnodup := h.nodup
  have hsound := h.sound
  rw [hlive] at hnodup hsound
  refine ⟨hnodup.sublist (hstep.sublist_all.append_right _), ?_⟩
  exact hstep.sound_all (List.nodup_append.mp hnodup).1 hsound

theorem Exclusive.workers_eq_nil (h : Exclusive site) {run : CampaignRun} (hrun : site.run = some run)
    (hphase : ∀ chunks, run.phase ≠ .starting chunks) : site.workers = [] := by
  refine h.workers fun mode chunks hstarting => ?_
  rw [hrun] at hstarting
  exact hphase chunks (congrArg CampaignRun.phase (Option.some.inj hstarting))

theorem Exclusive.orphans_eq_nil (h : Exclusive site) {run : CampaignRun} (hrun : site.run = some run)
    (hphase : run.phase ≠ .locked) : site.orphans = [] := by
  refine h.orphans (fun hnone => nomatch hrun.symm.trans hnone) fun mode hlocked => ?_
  rw [hrun] at hlocked
  exact hphase (congrArg CampaignRun.phase (Option.some.inj hlocked))

theorem Exclusive.next (h : Exclusive site) (hnext : Next a site op site') (hattended : Attended a site op) : Exclusive site' := by
  cases hnext with
  | acquire hrun =>
    have hnodup := h.nodup
    rw [Site.unstarted, hrun] at hnodup
    refine ⟨hnodup, h.sound, fun _ => h.workers ?_, fun _ hlocked => absurd rfl (hlocked _)⟩
    rw [hrun]
    exact fun _ _ heq => nomatch heq
  | clean hrun =>
    have hnodup := h.nodup
    rw [Site.unstarted, hrun] at hnodup
    have hworkers := h.workers_eq_nil hrun fun _ heq => nomatch heq
    exact ⟨hnodup, h.sound, fun _ => hworkers, fun _ _ => hattended⟩
  | @schedule mode functionsHashed hrun hhashed =>
    have hworkers := h.workers_eq_nil hrun fun _ heq => nomatch heq
    have horphans := h.orphans_eq_nil hrun fun heq => nomatch heq
    have hcases := hattended _ hrun
    refine ⟨?_, h.sound, fun hstarting => absurd rfl (hstarting _ _), fun _ _ => horphans⟩
    rw [Site.live, hworkers, horphans]
    exact nodup_scheduled hcases
  | @spawn mode pid chunk chunks hrun hpid =>
    have horphans := h.orphans_eq_nil hrun fun heq => nomatch heq
    have hnodup := h.nodup
    have hsound := h.sound
    rw [Site.live, horphans, List.append_nil] at hnodup hsound
    rw [Site.unstarted, hrun] at hnodup
    refine ⟨?_, ?_, fun hstarting => absurd rfl (hstarting _ _), fun _ _ => horphans⟩
    · rw [Site.live, horphans, List.append_nil, List.flatMap_append, List.flatMap_singleton, List.append_assoc]
      exact hnodup
    · rw [Site.live, horphans, List.append_nil]
      intro v hv
      obtain hv | hv := List.mem_append.mp hv
      · exact hsound v hv
      · cases List.mem_singleton.mp hv
        intro c hc
        cases hc
  | @worker w w' act root xs ys hworkers hstep =>
    have hlive : site.live = xs ++ w :: (ys ++ site.orphans) := by
      rw [Site.live, hworkers, List.append_assoc, List.cons_append]
    obtain ⟨hnodup, hsound⟩ := h.moved hlive hstep
    have hlive' : Site.live { site with root, workers := xs ++ w'.toList ++ ys } = xs ++ w'.toList ++ (ys ++ site.orphans) :=
      List.append_assoc ..
    refine ⟨hlive' ▸ hnodup, hlive' ▸ hsound, fun hstarting => ?_, h.orphans⟩
    have hnone := h.workers hstarting
    rw [hworkers] at hnone
    exact absurd hnone (List.append_ne_nil_of_right_ne_nil _ (List.cons_ne_nil _ _))
  | @orphan w w' act root xs ys horphans hstep =>
    have hlive : site.live = site.workers ++ xs ++ w :: ys := by
      rw [Site.live, horphans, List.append_assoc]
    obtain ⟨hnodup, hsound⟩ := h.moved hlive hstep
    have hlive' : Site.live { site with root, orphans := xs ++ w'.toList ++ ys } = site.workers ++ xs ++ w'.toList ++ ys := by
      rw [Site.live, List.append_assoc, List.append_assoc, List.append_assoc]
    refine ⟨hlive' ▸ hnodup, hlive' ▸ hsound, h.workers, fun hsome hlocked => ?_⟩
    have hnone := h.orphans hsome hlocked
    rw [horphans] at hnone
    exact absurd hnone (List.append_ne_nil_of_right_ne_nil _ (List.cons_ne_nil _ _))
  | retain hrun hworkers =>
    have hnodup := h.nodup
    rw [Site.unstarted, hrun] at hnodup
    have horphans := h.orphans_eq_nil hrun fun heq => nomatch heq
    exact ⟨hnodup, h.sound, fun _ => hworkers, fun _ _ => horphans⟩
  | release hrun =>
    have hnodup := h.nodup
    rw [Site.unstarted, hrun] at hnodup
    have hworkers := h.workers_eq_nil hrun fun _ heq => nomatch heq
    exact ⟨hnodup, h.sound, fun _ => hworkers, fun hnone => absurd rfl hnone⟩
  | stop hrun =>
    have hperm : (site.orphans ++ site.workers).Perm site.live := List.perm_append_comm
    refine ⟨?_, fun v hv => h.sound v (hperm.mem_iff.mp hv), fun _ => rfl, fun hnone => absurd rfl hnone⟩
    have hnodup := (List.nodup_append.mp h.nodup).1
    exact (List.append_nil _).symm ▸ (hperm.flatMap_right _).nodup_iff.mpr hnodup

/-- A cleanup without live workers takes nothing from them. -/
theorem Exclusive.harmless (h : Exclusive site) (hnext : Next a site op site') (hattended : Attended a site op) :
    Harmless ⟨site, op, site'⟩ := by
  intro hop w hw
  have hlive : site.live = [] := by
    cases hnext with
    | clean hrun =>
      have hworkers := h.workers_eq_nil hrun fun _ heq => nomatch heq
      exact List.append_eq_nil_iff.mpr ⟨hworkers, hattended⟩
    | retain hrun hworkers => exact List.append_eq_nil_iff.mpr ⟨hworkers, h.orphans_eq_nil hrun fun heq => nomatch heq⟩
    | acquire | schedule | spawn | worker | orphan | release | stop =>
      obtain heq | heq := hop
      · cases heq
      · cases heq
  have hmem : w ∈ site.live := hw
  rw [hlive] at hmem
  cases hmem

theorem Exclusive.preserves (h : Exclusive site) (hnext : Next a site op site') : Preserves ⟨site, op, site'⟩ := by
  intro c
  cases hnext with
  | acquire | clean | schedule | spawn | retain | release | stop => exact .refl _
  | worker hworkers hstep =>
    refine hstep.keeps (h.sound _ (List.mem_append_left _ ?_)) c
    rw [hworkers]
    exact List.mem_append_right _ List.mem_cons_self
  | orphan horphans hstep =>
    refine hstep.keeps (h.sound _ (List.mem_append_right _ ?_)) c
    rw [horphans]
    exact List.mem_append_right _ List.mem_cons_self

variable {trace : List (Step Site Op)}

theorem Exclusive.run (h : Run (Next a) (idle root) trace site) (hattended : ∀ st ∈ trace, Attended a st.before st.op) :
    Exclusive site ∧ ∀ st ∈ trace, Next a st.before st.op st.after ∧ Exclusive st.before := by
  have hstep : ∀ st ∈ trace, Next a st.before st.op st.after → Exclusive st.before → Exclusive st.after :=
    fun st hst hnext hexclusive => hexclusive.next hnext (hattended st hst)
  exact ⟨h.invariant (.initial root) hstep, h.invariant_before (.initial root) hstep⟩

/-- When every call cleans up after the workers of the calls before it, and lists no case twice, a case has one executor, the
scratch of a live worker stays, and no record is lost. -/
theorem cases_executed_once (h : Run (Next a) (idle root) trace site) (hattended : ∀ st ∈ trace, Attended a st.before st.op) :
    SingleExecutor site ∧ (∀ st ∈ trace, Harmless st ∧ Preserves st) ∧
      ∀ c record, (root.files c).Holds record → (site.root.files c).Holds record := by
  obtain ⟨hexclusive, hsteps⟩ := Exclusive.run h hattended
  refine ⟨hexclusive.singleExecutor, fun st hst => ?_, fun c record hrecord => ?_⟩
  · obtain ⟨hnext, hbefore⟩ := hsteps st hst
    exact ⟨hbefore.harmless hnext (hattended st hst), hbefore.preserves hnext⟩
  · refine h.invariant (P := fun site => (site.root.files c).Holds record) hrecord fun st hst hnext hbefore => ?_
    exact ((hsteps st hst).2.preserves hnext c).holds hbefore

end Exclusion

namespace Killed

open Rerun (unit authorities)

def failed : Root := ⟨fun _ => ⟨none, some "error", .empty⟩, ∅⟩

/-- The files after the failure of the case was archived. -/
def retried : Case → CaseFiles :=
  Function.update failed.files unit ⟨none, none, Dict.empty.set (attemptName 1 .failure) (.failure "error")⟩

def matching (pid : Nat) : Worker := ⟨pid, .canary, [unit], .matching⟩

/-- A call whose one worker is at the match. -/
def called : Site :=
  ⟨⟨retried, insert (.work unit) (insert (.worker 1) ∅)⟩, some ⟨.canary, .starting []⟩, [matching 1], []⟩

/-- The worker of a killed call and the one of the next call. -/
def doubled (files : Case → CaseFiles) : Site :=
  ⟨⟨files, insert (.work unit) (insert (.worker 2) ∅)⟩, some ⟨.canary, .starting []⟩, [matching 2], [matching 1]⟩

theorem unreached {root : Root} (h : (root.files unit).summary = none) : ¬reusableCase (authorities "first") root unit := by
  rintro ⟨previous, hprevious, -⟩
  rw [h] at hprevious
  cases hprevious

theorem schedule {root : Root} {orphans : List Worker} (h : (root.files unit).summary = none) :
    Next (authorities "first") ⟨root, some ⟨.canary, .cleaned⟩, [], orphans⟩ (.schedule fun _ => 1)
      ⟨root, some ⟨.canary, .starting [[unit]]⟩, [], orphans⟩ := by
  have hpending : pendingCases (authorities "first") root.directory .canary (fun _ => 1) = [(unit, 1)] := by
    have hsummary : root.directory.summaries "run" unit = none := h
    unfold pendingCases
    rw [show expectedCases (authorities "first").campaign .canary = [unit] from rfl, List.filter_cons_of_pos]
    · rfl
    · rw [show (authorities "first").campaign.sourceRunId = "run" from rfl, hsummary]
      rfl
  have hnext : Next (authorities "first") ⟨root, some ⟨.canary, .cleaned⟩, [], orphans⟩ (.schedule fun _ => 1) _ :=
    .schedule rfl fun row hrow => by
      rw [hpending, List.mem_singleton] at hrow
      rw [hrow]
      exact Nat.one_pos
  rw [scheduledCaseChunks, hpending] at hnext
  exact hnext

theorem called_attended : ∃ trace, Run (Next (authorities "first")) (idle failed) trace called ∧
    ∀ st ∈ trace, Attended (authorities "first") st.before st.op := by
  have h : Run (Next (authorities "first")) (idle failed) [] (idle failed) ∧
      ∀ st ∈ ([] : List (Step Site Op)), Attended (authorities "first") st.before st.op :=
    ⟨.nil, fun _ hst => (List.not_mem_nil hst).elim⟩
  have h := Run.snoc_all h (show Next _ (idle failed) (.acquire .canary) _ from .acquire rfl) trivial
  have h := Run.snoc_all h (show Next _ _ .clean _ from .clean rfl) rfl
  have h := Run.snoc_all h (schedule rfl) fun run hrun => by
    cases hrun
    exact List.nodup_singleton _
  have h := Run.snoc_all h (show Next _ _ (.spawn 1) _ from .spawn rfl fun _ hw => (List.not_mem_nil hw).elim) trivial
  have h := Run.snoc_all h (show Next _ _ (.worker ⟨1, .canary, [unit], .starting⟩ .prepare) _ from
    .worker (show _ = [] ++ _ :: [] from rfl) .prepare) trivial
  have h := Run.snoc_all h (show Next _ _ (.worker ⟨1, .canary, [unit], .reaching⟩ .look) _ from
    .worker (show _ = [] ++ _ :: [] from rfl) (.look (unreached rfl))) trivial
  have h := Run.snoc_all h (show Next _ _ (.worker ⟨1, .canary, [unit], .found false true⟩ .scan) _ from
    .worker (show _ = [] ++ _ :: [] from rfl) .scan) trivial
  have h := Run.snoc_all h (show Next _ _ (.worker ⟨1, .canary, [unit], .archiving 1 false true⟩ .archiveFailure) _ from
    .worker (show _ = [] ++ _ :: [] from rfl) (.archiveFailure rfl)) trivial
  have h := Run.snoc_all h (show Next _ _ (.worker ⟨1, .canary, [unit], .archiving 1 false false⟩ .start) called from
    .worker (show _ = [] ++ _ :: [] from rfl) .start) trivial
  exact ⟨_, h⟩

theorem called_once : SingleExecutor called ∧ ∀ c record, (failed.files c).Holds record → (called.root.files c).Holds record := by
  obtain ⟨trace, h, hattended⟩ := called_attended
  obtain ⟨hsingle, -, hholds⟩ := cases_executed_once h hattended
  exact ⟨hsingle, hholds⟩

theorem not_keeps_of_replaced {before after : CaseFiles} {s s' : Summary} {error : String} {name : String}
    (hbefore : before.summary = some s) (hafter : after.summary = some s')
    (hattempts : after.attempts.entries = [(name, .failure error)]) (hne : s ≠ s') : ¬before.Keeps after := by
  intro hkeeps
  have hcurrent : before.current .summary = some (.summary s) := by
    rw [CaseFiles.current, hbefore]
    rfl
  obtain hstays | ⟨ordinal, -, hmoved⟩ := hkeeps.2 .summary _ hcurrent
  · rw [CaseFiles.current, hafter] at hstays
    exact hne (Record.summary.inj (Option.some.inj hstays)).symm
  · have hmem := Dict.get?_eq_some_iff.mp hmoved
    rw [hattempts, List.mem_singleton] at hmem
    cases (Prod.mk.inj hmem).2

def otherExecution : Execution := { Rerun.execution with populationSha256 := "other" }

def summaryOf (execution : Execution) : Summary := workerSummary (authorities "first") .canary unit execution

theorem summaryOf_ne : summaryOf Rerun.execution ≠ summaryOf otherExecution := by
  intro h
  have hpopulation : "population" = "other" := congrArg Summary.populationSha256 h
  revert hpopulation
  decide

/-- The next call before and after its cleanup, with the worker of the killed call. -/
def resumed (phase : RunPhase) (scratch : Set Scratch) : Site := ⟨⟨retried, scratch⟩, some ⟨.canary, phase⟩, [], [matching 1]⟩

theorem resumed_reached : ∃ trace, Run (Next (authorities "first")) (idle failed) trace (resumed .locked called.root.scratch) := by
  obtain ⟨trace, h, -⟩ := called_attended
  have h := h.snoc (show Next _ called .stop _ from .stop rfl)
  have h := h.snoc (show Next _ _ (.acquire .canary) (resumed .locked called.root.scratch) from .acquire rfl)
  exact ⟨_, h⟩

theorem doubled_reached : ∃ trace, Run (Next (authorities "first")) (resumed .cleaned ∅) trace (doubled retried) := by
  have h : Run (Next (authorities "first")) (resumed .cleaned ∅) [] (resumed .cleaned ∅) := .nil
  have h := h.snoc (schedule rfl)
  have h := h.snoc (show Next _ _ (.spawn 2) _ from .spawn rfl fun w hw => by
    rw [List.mem_singleton.mp hw]
    decide)
  have h := h.snoc (show Next _ _ (.worker ⟨2, .canary, [unit], .starting⟩ .prepare) _ from
    .worker (show _ = [] ++ _ :: [] from rfl) .prepare)
  have h := h.snoc (show Next _ _ (.worker ⟨2, .canary, [unit], .reaching⟩ .look) _ from
    .worker (show _ = [] ++ _ :: [] from rfl) (.look (unreached rfl)))
  have h := h.snoc (show Next _ _ (.worker ⟨2, .canary, [unit], .found false false⟩ .scan) _ from
    .worker (show _ = [] ++ _ :: [] from rfl) .scan)
  have h := h.snoc (show Next _ _ (.worker ⟨2, .canary, [unit], .archiving 2 false false⟩ .start) (doubled retried) from
    .worker (show _ = [] ++ _ :: [] from rfl) .start)
  exact ⟨_, h⟩

theorem not_harmless : ¬Harmless ⟨resumed .locked called.root.scratch, .clean, resumed .cleaned ∅⟩ := by
  intro hharmless
  exact hharmless (.inl rfl) (matching 1) (List.mem_singleton_self _) (.work unit) (Set.mem_insert _ _) rfl

theorem not_singleExecutor (files : Case → CaseFiles) : ¬SingleExecutor (doubled files) := by
  intro hsingle
  exact List.rel_of_pairwise_cons hsingle (List.mem_singleton_self _) unit ⟨rfl, rfl⟩

/-- The call is killed while its worker matches. The next call removes the scratch of that worker, gives its case to a second
one, and the summary of the one replaces that of the other. -/
theorem killed_call_doubles : ∃ trace site, Run (Next (authorities "first")) (idle failed) trace site ∧
    (∃ st ∈ trace, ¬SingleExecutor st.before) ∧ (∃ st ∈ trace, ¬Harmless st) ∧ ∃ st ∈ trace, ¬Preserves st := by
  obtain ⟨xs, hresumed⟩ := resumed_reached
  obtain ⟨ys, hdoubled⟩ := doubled_reached
  have hclean : Next (authorities "first") (resumed .locked called.root.scratch) .clean (resumed .cleaned ∅) := .clean rfl
  have h := hresumed.append (.cons hclean hdoubled)
  have h := h.snoc (show Next _ (doubled retried) (.worker (matching 2) (.finish Rerun.execution)) _ from
    .worker (show _ = [] ++ _ :: [] from rfl) (.finish fun h => nomatch h))
  have h := h.snoc (show Next _ _ (.orphan (matching 1) (.finish otherExecution)) _ from
    .orphan (show _ = [] ++ _ :: [] from rfl) (.finish fun h => nomatch h))
  refine ⟨_, _, h, ?_, ?_, ?_⟩
  · refine ⟨⟨doubled retried, _, _⟩, List.mem_append_left _ (List.mem_append_right _ (List.mem_singleton_self _)), ?_⟩
    exact not_singleExecutor retried
  · refine ⟨_, List.mem_append_left _ (List.mem_append_left _ (List.mem_append_right _ List.mem_cons_self)), not_harmless⟩
  · refine ⟨_, List.mem_append_right _ (List.mem_singleton_self _), fun hpreserves => ?_⟩
    exact not_keeps_of_replaced rfl rfl rfl summaryOf_ne (hpreserves unit)

end Killed

end FidbPoc.Campaigns.Sessions
