import FidbPoc.Campaigns.Evidence

namespace FidbPoc.Campaigns

open Lib

variable {a : Authorities} {site site' begun after : Site} {dir dir' : Directory} {op : Op} {mode : Mode} {c : Case}
  {s : Summary} {report : Report} {trace : List (Step Site Op)}

section Calls

/-- The steps that a run takes between its beginning and its end, whatever earlier workers do meanwhile. -/
def Op.within : Op → Bool
  | .worker _ .crash => false
  | .worker .. | .orphan .. | .aggregate | .publish _ => true
  | _ => false

/-- A call of `run_campaign` that no fault interrupts, with the report that it returns. -/
inductive RunCampaign (site : Site) (mode : Mode) : Site → Report → Prop
  | terminal {functionsHashed : Case → Nat} {report : Report} (hrun : site.run = none)
      (hchunks : scheduledCaseChunks site.authorities site.dir mode functionsHashed = [])
      (hterminal : terminalCampaignReport site.authorities site.dir mode = some report) : RunCampaign site mode site report
  | run {functionsHashed : Case → Nat} {begun ended after : Site} {trace : List (Step Site Op)} {report : Report}
      (hbegin : Next site (.begin mode functionsHashed) begun) (h : Run Next begun trace ended)
      (hwithin : ∀ st ∈ trace, st.op.within = true) (hpublished : ended.run = some ⟨mode, .published report⟩)
      (hwrite : Next ended .write after) : RunCampaign site mode after report

inductive Outcome
  | nothingPending
  | canaryFailed
  | canaryQualified
  | full
  deriving DecidableEq

/-- A call of `scheduled_campaign` in an open window that no fault interrupts. -/
inductive ScheduledCall (site : Site) : Outcome → Site → Prop
  | nothingPending (hdecision : scheduledCampaign site.authorities site.dir = .nothingPending) :
      ScheduledCall site .nothingPending site
  | canaryFailed {after : Site} {report : Report} (hdecision : scheduledCampaign site.authorities site.dir = .canary)
      (hcanary : RunCampaign site .canary after report) (hstate : report.state ≠ .qualified) :
      ScheduledCall site .canaryFailed after
  | canaryOnly {after : Site} {report : Report} (hdecision : scheduledCampaign site.authorities site.dir = .canary)
      (hcanary : RunCampaign site .canary after report) (hstate : report.state = .qualified)
      (hchained : chained site.authorities = .canaryQualified) : ScheduledCall site .canaryQualified after
  | canaryFull {between after : Site} {report report' : Report}
      (hdecision : scheduledCampaign site.authorities site.dir = .canary)
      (hcanary : RunCampaign site .canary between report) (hstate : report.state = .qualified)
      (hchained : chained site.authorities = .full) (hfull : RunCampaign between .full after report') :
      ScheduledCall site .full after
  | full {after : Site} {report : Report} (hdecision : scheduledCampaign site.authorities site.dir = .full)
      (hfull : RunCampaign site .full after report) : ScheduledCall site .full after
  | canaryQualified (hdecision : scheduledCampaign site.authorities site.dir = .canaryQualified) :
      ScheduledCall site .canaryQualified site

/-- A full report for the authorities has been written, with the hash evidence whose digest it records. -/
def Published (a : Authorities) (dir : Directory) : Prop :=
  ∃ report digest, dir.reports .full = some report ∧ report.current a ∧ report.databaseSha256 = some digest ∧
    dir.evidence .full = some digest

end Calls

section Recording

/-- No full run is stopped between publishing its hash evidence and writing its report while a complete full report on disk
records another digest. -/
def Finished (site : Site) : Op → Prop
  | .stop => ∀ pending, site.run = some ⟨.full, .published pending⟩ → ∀ report, site.dir.reports .full = some report →
      report.state = .measuredComplete → report.databaseSha256 = site.dir.evidence .full
  | _ => True

/-- The report that a run has made so far. -/
def RunPhase.madeReport : RunPhase → Option Report
  | .working => none
  | .aggregated report | .published report => some report

/-- What holds of the reports and the hash evidence on disk. -/
structure Recorded (site : Site) : Prop where
  /-- a complete full report on disk records its evidence, unless a full run has just published other evidence -/
  complete : ∀ report, site.dir.reports .full = some report → report.state = .measuredComplete →
    (∃ pending, site.run = some ⟨.full, .published pending⟩) ∨
      ∃ digest, report.databaseSha256 = some digest ∧ site.dir.evidence .full = some digest
  current : ∀ run, site.run = some run → ∀ report, run.phase.madeReport = some report → report.current site.authorities
  published : ∀ mode report, site.run = some ⟨mode, .published report⟩ →
    ∃ digest, report.databaseSha256 = some digest ∧ site.dir.evidence mode = some digest

theorem recorded_initial : Recorded (initial a) := by
  refine ⟨?_, ?_, ?_⟩
  · intro report hreport
    cases hreport
  · intro run hrun
    cases hrun
  · intro mode report hrun
    cases hrun

/-- A step of a worker leaves reports and hash evidence as they were. -/
theorem Recorded.frame (h : Recorded site) {workers orphans : List Worker} (hreports : dir.reports = site.dir.reports)
    (hevidence : dir.evidence = site.dir.evidence) : Recorded { site with dir, workers, orphans } := by
  refine ⟨?_, h.current, ?_⟩
  · intro report hreport hcomplete
    simp only [hreports, hevidence] at hreport ⊢
    exact h.complete report hreport hcomplete
  · intro mode report hrun
    simp only [hevidence]
    exact h.published mode report hrun

theorem Recorded.step (h : Recorded site) (hn : Next site op site') (hfinished : Finished site op) : Recorded site' := by
  cases hn with
  | edit hrun =>
    refine ⟨h.complete, ?_, h.published⟩
    intro run hsome
    cases hrun.symm.trans hsome
  | begin hrun =>
    refine ⟨?_, ?_, ?_⟩
    · intro report hreport hcomplete
      obtain ⟨pending, hpending⟩ | hdigest := h.complete report hreport hcomplete
      · cases hrun.symm.trans hpending
      · exact .inr hdigest
    · rintro _ ⟨⟩ report hnone
      cases hnone
    · rintro mode report ⟨⟩
  | worker _ hstep =>
    obtain ⟨hreports, hevidence⟩ := hstep.frame
    exact h.frame hreports hevidence
  | orphan _ hstep =>
    obtain ⟨hreports, hevidence⟩ := hstep.frame
    exact h.frame hreports hevidence
  | aggregate hrun =>
    refine ⟨?_, ?_, ?_⟩
    · intro report hreport hcomplete
      obtain ⟨pending, hpending⟩ | hdigest := h.complete report hreport hcomplete
      · cases hrun.symm.trans hpending
      · exact .inr hdigest
    · rintro _ ⟨⟩ report ⟨⟩
      exact ⟨rfl, rfl⟩
    · rintro mode report ⟨⟩
  | @publish mode report digest hrun =>
    refine ⟨?_, ?_, ?_⟩
    · intro report' hreport hcomplete
      cases mode with
      | full => exact .inl ⟨_, rfl⟩
      | canary =>
        obtain ⟨pending, hpending⟩ | hdigest := h.complete report' hreport hcomplete
        · cases hrun.symm.trans hpending
        · exact .inr hdigest
    · rintro _ ⟨⟩ report' ⟨⟩
      exact h.current _ hrun report rfl
    · rintro mode' report' ⟨⟩
      exact ⟨digest, rfl, by simp [Directory.setEvidence]⟩
  | @write mode report hrun =>
    obtain ⟨digest, hdigest, hevidence⟩ := h.published mode report hrun
    refine ⟨?_, ?_, ?_⟩
    · intro report' hreport hcomplete
      cases mode with
      | full =>
        have heq : report = report' := by simpa [Directory.setReport] using hreport
        subst heq
        exact .inr ⟨digest, hdigest, hevidence⟩
      | canary =>
        have hsame : site.dir.reports .full = some report' := by simpa [Directory.setReport] using hreport
        obtain ⟨pending, hpending⟩ | hdigest := h.complete report' hsame hcomplete
        · cases hrun.symm.trans hpending
        · exact .inr hdigest
    · intro run hnone
      cases hnone
    · intro mode' report' hnone
      cases hnone
  | stop hrun =>
    refine ⟨?_, ?_, ?_⟩
    · intro report hreport hcomplete
      obtain ⟨pending, hpending⟩ | hdigest := h.complete report hreport hcomplete
      · obtain ⟨digest, -, hevidence⟩ := h.published _ _ hpending
        have hsame := hfinished pending hpending report hreport hcomplete
        exact .inr ⟨digest, hsame.trans hevidence, hevidence⟩
      · exact .inr hdigest
    · intro run hnone
      cases hnone
    · intro mode report hnone
      cases hnone

theorem recorded_run (h : Run Next (initial a) trace site) (hfinished : ∀ st ∈ trace, Finished st.before st.op) :
    Recorded site :=
  h.invariant recorded_initial fun st hst hn hrecorded => hrecorded.step hn (hfinished st hst)

end Recording

section Outcomes

/-- A complete full report that is current was published with its evidence. -/
theorem Recorded.published_of_complete (h : Recorded site) (hrun : site.run = none)
    (hreport : site.dir.reports .full = some report) (hcurrent : report.current site.authorities)
    (hcomplete : report.state = .measuredComplete) : Published site.authorities site.dir := by
  obtain ⟨pending, hpending⟩ | ⟨digest, hdigest, hevidence⟩ := h.complete report hreport hcomplete
  · cases hrun.symm.trans hpending
  · exact ⟨report, digest, hreport, hcurrent, hdigest, hevidence⟩

theorem scheduledCampaign_eq_nothingPending :
    scheduledCampaign a dir = .nothingPending ↔ (currentReport a dir .full).state = .measuredComplete := by
  unfold scheduledCampaign chained
  split_ifs with hcomplete <;> simp [hcomplete]

/-- With nothing pending, the full report is on disk exactly where the summaries alone do not make the state. -/
theorem Recorded.nothingPending_iff (h : Recorded site) (hrun : site.run = none) :
    (scheduledCampaign site.authorities site.dir = .nothingPending → Published site.authorities site.dir) ↔
      (site.dir.reports .full = none → (aggregate site.authorities site.dir .full).state ≠ .measuredComplete) := by
  rw [scheduledCampaign_eq_nothingPending]
  unfold currentReport
  cases hreport : site.dir.reports .full with
  | none =>
    constructor
    · intro hpublished _ hcomplete
      obtain ⟨report, _, hsome, -⟩ := hpublished hcomplete
      cases hreport.symm.trans hsome
    · intro hne hcomplete
      exact absurd hcomplete (hne rfl)
  | some report =>
    refine iff_of_true (fun hcomplete => ?_) fun hnone => by cases hnone
    by_cases hcurrent : report.current site.authorities
    · simp only [hcurrent, if_true] at hcomplete
      exact h.published_of_complete hrun hreport hcurrent hcomplete
    · simp [hcurrent] at hcomplete

theorem Op.within.finished (h : op.within = true) : Finished site op := by
  cases op with
  | stop => cases h
  | _ => trivial

theorem Op.within.authorities (h : op.within = true) (hn : Next site op site') : site'.authorities = site.authorities := by
  cases hn with
  | edit | begin | write | stop => cases h
  | _ => rfl

/-- What a run of such steps keeps. -/
theorem Recorded.within (h : Recorded site) (hrun : Run Next site trace site') (hwithin : ∀ st ∈ trace, st.op.within = true) :
    Recorded site' ∧ site'.authorities = site.authorities :=
  hrun.invariant (P := fun t => Recorded t ∧ t.authorities = site.authorities) ⟨h, rfl⟩ fun st hst hn ⟨hrecorded, hsame⟩ =>
    ⟨hrecorded.step hn (Op.within.finished (hwithin st hst)), (Op.within.authorities (hwithin st hst) hn).trans hsame⟩

/-- A call that no fault interrupts keeps what holds of the directory, and a full one leaves its report there. -/
theorem RunCampaign.recorded (h : RunCampaign site mode after report) (hrecorded : Recorded site) :
    Recorded after ∧ after.authorities = site.authorities ∧ after.run = none ∧
      (mode = .full → Published after.authorities after.dir) := by
  cases h with
  | terminal hrun hchunks hterminal =>
    refine ⟨hrecorded, rfl, hrun, ?_⟩
    rintro rfl
    obtain ⟨hreport, hstands⟩ := Option.filter_eq_some_iff.mp hterminal
    obtain ⟨-, hstate, hauthority, -, hmethod, -⟩ := of_decide_eq_true hstands
    exact hrecorded.published_of_complete hrun hreport ⟨hauthority, hmethod⟩ (by simpa using hstate)
  | @run _ begun ended _ _ _ hbegin hrun hwithin hpublished hwrite =>
    have hbegun : Recorded begun := hrecorded.step hbegin trivial
    have hsame : begun.authorities = site.authorities := by
      cases hbegin
      rfl
    obtain ⟨hended, hauthorities⟩ := hbegun.within hrun hwithin
    have hafter : Recorded after := hended.step hwrite trivial
    cases hwrite with
    | write hrun' =>
      cases hpublished.symm.trans hrun'
      refine ⟨hafter, hauthorities.trans hsame, rfl, ?_⟩
      rintro rfl
      obtain ⟨digest, hdigest, hevidence⟩ := hended.published _ _ hpublished
      refine ⟨report, digest, by simp [Directory.setReport], ?_, hdigest, hevidence⟩
      exact hended.current _ hpublished report rfl

/-- Where a scheduled call finds something pending and goes on to the full run, it ends with the report. -/
theorem ScheduledCall.published {outcome : Outcome} (h : ScheduledCall site outcome after) (hrecorded : Recorded site)
    (hpending : scheduledCampaign site.authorities site.dir ≠ .nothingPending)
    (hchain : site.authorities.campaign.autoChainFull = true) :
    outcome = .canaryFailed ∨ Published after.authorities after.dir := by
  cases h with
  | nothingPending hdecision => exact absurd hdecision hpending
  | canaryFailed => exact .inl rfl
  | canaryOnly _ _ _ hchained => simp [chained, hchain] at hchained
  | canaryFull _ hcanary _ _ hfull =>
    obtain ⟨hbetween, -⟩ := hcanary.recorded hrecorded
    exact .inr ((hfull.recorded hbetween).2.2.2 rfl)
  | full _ hfull => exact .inr ((hfull.recorded hrecorded).2.2.2 rfl)
  | canaryQualified hdecision =>
    unfold scheduledCampaign chained at hdecision
    split_ifs at hdecision

end Outcomes

section Completion

/-- What workers make of their cases when nothing fails: every case has a summary, an earlier one or the new one. -/
structure Filled (runId : String) (new : Case → Summary) (cases : List Case) (dir dir' : Directory) : Prop where
  reports : dir'.reports = dir.reports
  evidence : dir'.evidence = dir.evidence
  made : ∀ c s, dir'.summaries runId c = some s → dir.summaries runId c = some s ∨ s = new c
  filled : ∀ c, c ∈ cases ∨ (dir.summaries runId c).isSome → (dir'.summaries runId c).isSome

variable {runId : String} {new : Case → Summary} {cases cases' : List Case} {dir'' : Directory}

theorem Filled.refl : Filled runId new [] dir dir := by
  refine ⟨rfl, rfl, fun c s hs => .inl hs, ?_⟩
  rintro c (hc | hsome)
  · cases hc
  · exact hsome

theorem Filled.trans (h : Filled runId new cases dir dir') (h' : Filled runId new cases' dir' dir'') :
    Filled runId new (cases ++ cases') dir dir'' := by
  refine ⟨h'.reports.trans h.reports, h'.evidence.trans h.evidence, ?_, ?_⟩
  · intro c s hs
    obtain hs | rfl := h'.made c s hs
    · exact h.made c s hs
    · exact .inr rfl
  · rintro c (hc | hsome)
    · obtain hc | hc := List.mem_append.mp hc
      · exact h'.filled c (.inr (h.filled c (.inl hc)))
      · exact h'.filled c (.inl hc)
    · exact h'.filled c (.inr (h.filled c (.inr hsome)))

/-- A case that the worker skips has its summary. -/
theorem Filled.skip (hreusable : reusableCase dir c a) : Filled a.campaign.sourceRunId new [c] dir dir := by
  obtain ⟨previous, hprevious, -⟩ := hreusable
  refine ⟨rfl, rfl, fun c s hs => .inl hs, ?_⟩
  rintro c' (hc | hsome)
  · rw [List.mem_singleton.mp hc, hprevious]
    rfl
  · exact hsome

theorem Filled.match_case : Filled runId new [c] dir
    (((dir.setSummary runId c none).setFailure runId c none).setSummary runId c (some (new c))) := by
  refine ⟨rfl, rfl, ?_, ?_⟩
  · intro c' s hs
    simp only [setSummary_summaries, setFailure_summaries] at hs
    split at hs
    · rename_i heq
      cases hs
      exact .inr (by rw [heq.2])
    · exact .inl hs
  · intro c' hsome
    simp only [setSummary_summaries, setFailure_summaries]
    split
    · rfl
    · rename_i hne
      obtain hc | hsome := hsome
      · exact absurd (List.mem_singleton.mp hc) (by simpa using hne)
      · simpa only [hne, if_false] using hsome

def Unfaulted (_ : Site) (op : Op) : Prop := op.within = true

variable {execution : Execution}

/-- A worker on which nothing fails goes through its cases. -/
theorem worker_runs (a : Authorities) (mode : Mode) (run : Option CampaignRun) (workers orphans : List Worker)
    (hexecution : execution.fallbackReason = none) (cases : List Case) (dir : Directory) :
    ∃ trace dir', (Run Next ⟨a, dir, run, ⟨a, mode, cases, .reaching⟩ :: workers, orphans⟩ trace ⟨a, dir', run, workers, orphans⟩ ∧
        ∀ st ∈ trace, st.op.within = true) ∧
      Filled a.campaign.sourceRunId (fun c => workerSummary a mode c execution) cases dir dir' := by
  have hstart : Run Next ⟨a, dir, run, ⟨a, mode, cases, .reaching⟩ :: workers, orphans⟩ []
      ⟨a, dir, run, ⟨a, mode, cases, .reaching⟩ :: workers, orphans⟩ ∧
      ∀ st ∈ ([] : List (Step Site Op)), Unfaulted st.before st.op :=
    ⟨.nil, fun _ hst => (List.not_mem_nil hst).elim⟩
  induction cases generalizing dir with
  | nil =>
    have h := Run.snoc_all (P := Unfaulted) hstart (show Next _ (.worker ⟨a, mode, [], .reaching⟩ .exit) _ from
      .worker (show _ = [] ++ _ :: workers from rfl) .exit) rfl
    exact ⟨_, dir, h, .refl⟩
  | cons c rest ih =>
    obtain ⟨trace, dir', ⟨hrun, hwithin⟩, hfilled⟩ : ∃ trace dir', (Run Next
        ⟨a, dir, run, ⟨a, mode, c :: rest, .reaching⟩ :: workers, orphans⟩ trace
        ⟨a, dir', run, ⟨a, mode, rest, .reaching⟩ :: workers, orphans⟩ ∧ ∀ st ∈ trace, st.op.within = true) ∧
        Filled a.campaign.sourceRunId (fun c => workerSummary a mode c execution) [c] dir dir' := by
      by_cases hreusable : reusableCase dir c a
      · have h := Run.snoc_all (P := Unfaulted) hstart (show Next _ (.worker ⟨a, mode, c :: rest, .reaching⟩ .skip) _ from
          .worker (show _ = [] ++ _ :: workers from rfl) (.skip hreusable)) rfl
        exact ⟨_, dir, h, .skip hreusable⟩
      · have h := Run.snoc_all (P := Unfaulted) hstart (show Next _ (.worker ⟨a, mode, c :: rest, .reaching⟩ .archiveSummary) _ from
          .worker (show _ = [] ++ _ :: workers from rfl) (.archiveSummary hreusable)) rfl
        have h := Run.snoc_all (P := Unfaulted) h (show Next _ (.worker ⟨a, mode, c :: rest, .archiving⟩ .archiveFailure) _ from
          .worker (show _ = [] ++ _ :: workers from rfl) .archiveFailure) rfl
        have h := Run.snoc_all (P := Unfaulted) h (show Next _ (.worker ⟨a, mode, c :: rest, .matching⟩ (.finish execution)) _ from
          .worker (show _ = [] ++ _ :: workers from rfl) (.finish (by simp [hexecution]))) rfl
        exact ⟨_, _, h, .match_case⟩
    obtain ⟨trace', dir'', ⟨hrun', hwithin'⟩, hfilled'⟩ := ih dir' ⟨.nil, fun _ hst => (List.not_mem_nil hst).elim⟩
    refine ⟨trace ++ trace', dir'', ⟨hrun.append hrun', ?_⟩, hfilled.trans hfilled'⟩
    intro st hst
    obtain hst | hst := List.mem_append.mp hst
    · exact hwithin st hst
    · exact hwithin' st hst

/-- Workers on which nothing fails go through their cases, one after the other. -/
theorem workers_run (a : Authorities) (mode : Mode) (run : Option CampaignRun) (orphans : List Worker)
    (hexecution : execution.fallbackReason = none) (chunks : List Chunk) (dir : Directory) :
    ∃ trace dir', (Run Next ⟨a, dir, run, chunks.map (startWorker a mode), orphans⟩ trace ⟨a, dir', run, [], orphans⟩ ∧
        ∀ st ∈ trace, st.op.within = true) ∧
      Filled a.campaign.sourceRunId (fun c => workerSummary a mode c execution) (chunks.flatMap Chunk.cases) dir dir' := by
  induction chunks generalizing dir with
  | nil => exact ⟨[], dir, ⟨.nil, fun _ hst => (List.not_mem_nil hst).elim⟩, .refl⟩
  | cons chunk chunks ih =>
    obtain ⟨trace, dir', ⟨hrun, hwithin⟩, hfilled⟩ := worker_runs a mode run (chunks.map (startWorker a mode)) orphans
      hexecution chunk.cases dir
    obtain ⟨trace', dir'', ⟨hrun', hwithin'⟩, hfilled'⟩ := ih dir'
    refine ⟨trace ++ trace', dir'', ⟨hrun.append hrun', ?_⟩, hfilled.trans hfilled'⟩
    intro st hst
    obtain hst | hst := List.mem_append.mp hst
    · exact hwithin st hst
    · exact hwithin' st hst

def blankExecution : Execution := ⟨none, "", 0, 0, 0, 0⟩

/-- A campaign that is not running can be run to its report. -/
theorem runCampaign_exists (mode : Mode) (hrun : site.run = none) : ∃ after report, RunCampaign site mode after report := by
  by_cases hchunks : scheduledCaseChunks site.authorities site.dir mode (fun _ => 1) = [] ∧
      (terminalCampaignReport site.authorities site.dir mode).isSome
  · obtain ⟨report, hreport⟩ := Option.isSome_iff_exists.mp hchunks.2
    exact ⟨site, report, .terminal hrun hchunks.1 hreport⟩
  · have hbegin : Next site (.begin mode fun _ => 1) _ := .begin hrun (fun row hrow => ?_) fun hnil => ?_
    · obtain ⟨trace, dir', ⟨h, hwithin⟩, -⟩ := workers_run site.authorities mode (some ⟨mode, .working⟩) site.orphans
        (show blankExecution.fallbackReason = none from rfl) (scheduledCaseChunks site.authorities site.dir mode fun _ => 1) site.dir
      have h := Run.snoc_all (P := Unfaulted) ⟨h, hwithin⟩ (show Next _ .aggregate _ from .aggregate rfl rfl) rfl
      have h := Run.snoc_all (P := Unfaulted) h (show Next _ (.publish "") _ from .publish rfl) rfl
      exact ⟨_, _, .run hbegin h.1 h.2 rfl (.write rfl)⟩
    · obtain ⟨c, -, rfl⟩ := List.mem_map.mp hrow
      exact Nat.one_pos
    · exact Option.not_isSome_iff_eq_none.mp fun hsome => hchunks ⟨hnil, hsome⟩

theorem scheduledCall_exists (hrecorded : Recorded site) (hrun : site.run = none) :
    ∃ outcome after, ScheduledCall site outcome after := by
  cases hdecision : scheduledCampaign site.authorities site.dir with
  | nothingPending => exact ⟨_, _, .nothingPending hdecision⟩
  | canaryQualified => exact ⟨_, _, .canaryQualified hdecision⟩
  | full =>
    obtain ⟨after, report, hfull⟩ := runCampaign_exists .full hrun
    exact ⟨_, _, .full hdecision hfull⟩
  | canary =>
    obtain ⟨between, report, hcanary⟩ := runCampaign_exists .canary hrun
    by_cases hstate : report.state = .qualified
    · cases hchain : site.authorities.campaign.autoChainFull with
      | true =>
        obtain ⟨-, -, hdone, -⟩ := hcanary.recorded hrecorded
        obtain ⟨after, report', hfull⟩ := runCampaign_exists .full hdone
        exact ⟨_, _, .canaryFull hdecision hcanary hstate (by simp [chained, hchain]) hfull⟩
      | false => exact ⟨_, _, .canaryOnly hdecision hcanary hstate (by simp [chained, hchain])⟩
    · exact ⟨_, _, .canaryFailed hdecision hcanary hstate⟩

/-- After any history in which no full run is stopped over another evidence, and with no run going on: a scheduled call finds
nothing pending only over a published report, exactly where the summaries without a full report do not make a complete state;
and one that finds something pending ends with the report, unless the canary fails. -/
theorem scheduled_campaign_published (h : Run Next (initial a) trace site)
    (hfinished : ∀ st ∈ trace, Finished st.before st.op) (hrun : site.run = none) :
    ((scheduledCampaign site.authorities site.dir = .nothingPending → Published site.authorities site.dir) ↔
      (site.dir.reports .full = none → (aggregate site.authorities site.dir .full).state ≠ .measuredComplete)) ∧
    (scheduledCampaign site.authorities site.dir ≠ .nothingPending → site.authorities.campaign.autoChainFull = true →
      (∃ outcome after, ScheduledCall site outcome after) ∧
      ∀ outcome after, ScheduledCall site outcome after →
        outcome = .canaryFailed ∨ Published after.authorities after.dir) := by
  have hrecorded := recorded_run h hfinished
  refine ⟨hrecorded.nothingPending_iff hrun, fun hpending hchain => ⟨scheduledCall_exists hrecorded hrun, ?_⟩⟩
  intro outcome after hcall
  exact hcall.published hrecorded hpending hchain

/-- Summaries of all full cases, of one population and without a mismatch, make a complete state. -/
theorem aggregate_full_complete (population : String)
    (hsummaries : ∀ c ∈ fullCases, dir.summaries a.campaign.sourceRunId c = some (new c))
    (hnew : ∀ c, (new c).state = .qualified ∧ (new c).populationSha256 = population ∧ (new c).decisionMismatches = 0) :
    (aggregate a dir .full).state = .measuredComplete := by
  have hsame : qualifiedSummaries a dir .full = fullCases.map new :=
    qualifiedSummaries_eq_map fun c hc => ⟨hsummaries c hc, (hnew c).1⟩
  have hfailures : fullCases.filterMap (caseFailure dir a.campaign.sourceRunId) = [] := by
    rw [List.filterMap_eq_nil_iff]
    intro c hc
    simp [caseFailure, hsummaries c hc, (hnew c).1]
  have hpopulations : ((fullCases.map new).map Summary.populationSha256).dedup.length ≤ 1 := by
    have hconstant : (fullCases.map new).map Summary.populationSha256 = List.replicate fullCases.length population := by
      rw [List.map_map, List.eq_replicate_iff]
      refine ⟨List.length_map _, fun value hvalue => ?_⟩
      obtain ⟨c, -, rfl⟩ := List.mem_map.mp hvalue
      exact (hnew c).2.1
    rw [hconstant]
    by_cases hlength : fullCases.length = 0
    · simp [hlength]
    · rw [List.replicate_dedup hlength, List.length_singleton]
  have hmismatches : ((fullCases.map new).map Summary.decisionMismatches).sum = 0 := by
    rw [List.map_map, List.sum_eq_zero_iff_forall_eq_nat]
    intro value hvalue
    obtain ⟨c, -, rfl⟩ := List.mem_map.mp hvalue
    exact (hnew c).2.2
  rw [← hsame] at hmismatches
  simp only [aggregate, reportState_eq_measuredComplete]
  refine ⟨trivial, ?_, hmismatches⟩
  rw [hsame, Bool.and_eq_true, beq_iff_eq, List.length_map, List.isEmpty_iff, List.append_eq_nil_iff]
  refine ⟨rfl, hfailures, ?_⟩
  rw [if_neg (by omega)]

end Completion

namespace Rerun

/-- The first call of a campaign ends with the full report, unless the canary fails. -/
theorem first_call_published : ∃ outcome after, ScheduledCall (initial (authorities "first")) outcome after ∧
    (outcome = .canaryFailed ∨ Published after.authorities after.dir) := by
  have hpending : scheduledCampaign (authorities "first") emptyDirectory ≠ .nothingPending := by
    intro hnothing
    have hcomplete := (aggregate_measuredComplete (scheduledCampaign_eq_nothingPending.mp hnothing)).2.1
    obtain ⟨s, hs, -⟩ := aggregate_complete (c := unit) hcomplete (List.mem_flatMap.mpr ⟨0, by simp, List.mem_cons_self⟩)
    cases hs
  obtain ⟨⟨outcome, after, hcall⟩, hpublished⟩ :=
    (scheduled_campaign_published .nil (fun _ hst => (List.not_mem_nil hst).elim) rfl).2 hpending rfl
  exact ⟨outcome, after, hcall, hpublished outcome after hcall⟩

/-- A full run is killed between its last case and its report: nothing is pending, and nothing was published. -/
theorem killed_unpublished : ∃ trace site, Run Next (initial (authorities "first")) trace site ∧ site.run = none ∧
    scheduledCampaign site.authorities site.dir = .nothingPending ∧ ¬ Published site.authorities site.dir := by
  have hbegin : Next (initial (authorities "first")) (.begin .full fun _ => 1) _ := .begin rfl (fun row hrow => ?_) fun _ => rfl
  · obtain ⟨trace, dir, ⟨hrun, -⟩, hfilled⟩ := workers_run (authorities "first") .full (some ⟨.full, .working⟩) []
      (show execution.fallbackReason = none from rfl) (scheduledCaseChunks (authorities "first") emptyDirectory .full fun _ => 1) emptyDirectory
    have h := (Run.cons hbegin hrun).snoc (show Next _ .stop _ from .stop rfl)
    have hsummaries : ∀ c ∈ fullCases, dir.summaries "run" c = some (workerSummary (authorities "first") .full c execution) := by
      intro c hc
      obtain ⟨chunk, hchunk, hmem⟩ : ∃ chunk ∈ scheduledCaseChunks (authorities "first") emptyDirectory .full fun _ => 1,
          c ∈ chunk.cases := mem_scheduledCaseChunks.mpr ⟨hc, fun s hs => by cases hs⟩
      obtain ⟨s, hs⟩ := Option.isSome_iff_exists.mp (hfilled.filled c (.inl (List.mem_flatMap.mpr ⟨chunk, hchunk, hmem⟩)))
      obtain hbefore | rfl := hfilled.made c s hs
      · cases hbefore
      · exact hs
    have hnone : dir.reports .full = none := by
      rw [hfilled.reports]
      rfl
    have hcomplete : (aggregate (authorities "first") dir .full).state = .measuredComplete := by
      refine aggregate_full_complete "population" hsummaries fun c => ?_
      simp [workerSummary_eq, caseSummary, execution, Summary.decisionMismatches]
    refine ⟨_, _, h, rfl, ?_, ?_⟩
    · rw [scheduledCampaign_eq_nothingPending]
      simp only [currentReport, hnone]
      exact hcomplete
    · rintro ⟨report, digest, hreport, -⟩
      cases hnone.symm.trans hreport
  · obtain ⟨c, -, rfl⟩ := List.mem_map.mp hrow
    exact Nat.one_pos

end Rerun

end FidbPoc.Campaigns
