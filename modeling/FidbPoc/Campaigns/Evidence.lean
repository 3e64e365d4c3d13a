import FidbPoc.Campaigns.System

namespace FidbPoc.Campaigns

open Lib

variable {site site' : Site} {op : Op} {mode : Mode} {c : Case} {s : Summary}

section Attended

variable (guarded : Mode → Prop) (P : Authorities → Mode → Case → Summary → Prop)

/-- What keeps a property of the summaries that the guarded runs rest on: no worker of an earlier run is there when the run
begins, what the run reuses has the property, and so has what a worker that crashes has not reached. -/
def Attended (site : Site) : Op → Prop
  | .begin mode _ => guarded mode → site.orphans = [] ∧ ∀ c ∈ expectedCases site.authorities.campaign mode, ∀ s,
      site.dir.summaries site.authorities.campaign.sourceRunId c = some s →
      Reusable site.authorities.campaign c site.authorities.method.authoritySha256 site.authorities.method.selected s →
      P site.authorities mode c s
  | .worker w .crash => guarded w.mode → ∀ c ∈ w.ahead, ∀ s,
      site.dir.summaries w.authorities.campaign.sourceRunId c = some s → s.state = .qualified → P w.authorities w.mode c s
  | _ => True

/-- What holds while a guarded run goes on. -/
structure Working (site : Site) (mode : Mode) : Prop where
  orphans : site.orphans = []
  workers : ∀ w ∈ site.workers, w.authorities = site.authorities ∧ w.mode = mode
  reusable : ∀ c ∈ expectedCases site.authorities.campaign mode, ∀ s,
    site.dir.summaries site.authorities.campaign.sourceRunId c = some s →
    Reusable site.authorities.campaign c site.authorities.method.authoritySha256 site.authorities.method.selected s →
    P site.authorities mode c s
  qualified : ∀ c ∈ expectedCases site.authorities.campaign mode, ∀ s,
    site.dir.summaries site.authorities.campaign.sourceRunId c = some s → s.state = .qualified →
    P site.authorities mode c s ∨ ∃ w ∈ site.workers, c ∈ w.ahead

/-- What a run has made of the summaries, by its phase. -/
def Phased (site : Site) (mode : Mode) : RunPhase → Prop
  | .working => True
  | .aggregated report => site.workers = [] ∧ report = aggregate site.authorities site.dir mode
  | .published report => site.workers = [] ∧
      ∃ digest, report = { aggregate site.authorities site.dir mode with databaseSha256 := some digest }

def Sound (site : Site) : Prop :=
  ∀ run, site.run = some run → guarded run.mode → Working P site run.mode ∧ Phased site run.mode run.phase

end Attended

section Keeping

variable {guarded : Mode → Prop} {P : Authorities → Mode → Case → Summary → Prop}

theorem Working.begin {functionsHashed : Case → Nat} (horphans : site.orphans = [])
    (hreusable : ∀ c ∈ expectedCases site.authorities.campaign mode, ∀ s,
      site.dir.summaries site.authorities.campaign.sourceRunId c = some s →
      Reusable site.authorities.campaign c site.authorities.method.authoritySha256 site.authorities.method.selected s →
      P site.authorities mode c s) :
    Working P { site with
      run := some ⟨mode, .working⟩
      workers := (scheduledCaseChunks site.authorities site.dir mode functionsHashed).map
        (startWorker site.authorities mode) } mode := by
  refine ⟨horphans, ?_, hreusable, ?_⟩
  · intro w hw
    obtain ⟨chunk, -, rfl⟩ := List.mem_map.mp hw
    exact ⟨rfl, rfl⟩
  · intro c hc s hs hqualified
    by_cases hstands : Reusable site.authorities.campaign c site.authorities.method.authoritySha256
        site.authorities.method.selected s
    · exact .inl (hreusable c hc s hs hstands)
    · have hnone : ∀ s', site.dir.summaries site.authorities.campaign.sourceRunId c = some s' →
          ¬ Reusable site.authorities.campaign c site.authorities.method.authoritySha256 site.authorities.method.selected s' := by
        intro s' hs'
        cases hs.symm.trans hs'
        exact hstands
      obtain ⟨chunk, hchunk, hmem⟩ := mem_scheduledCaseChunks.mpr ⟨hc, hnone⟩
      exact .inr ⟨_, List.mem_map.mpr ⟨chunk, hchunk, rfl⟩, hmem⟩

/-- A step of a worker of the run. -/
theorem Working.worker (h : Working P site mode) (hguarded : guarded mode)
    (hnew : ∀ a c execution, (workerSummary a mode c execution).state = .qualified →
      P a mode c (workerSummary a mode c execution))
    {w : Worker} {w' : Option Worker} {act : WorkerAct} {dir : Directory} {xs ys : List Worker}
    (hworkers : site.workers = xs ++ w :: ys) (hstep : WorkerStep site.dir w act dir w')
    (hattended : Attended guarded P site (.worker w act)) :
    Working P { site with dir, workers := xs ++ w'.toList ++ ys } mode := by
  have hw : w ∈ site.workers := by simp [hworkers]
  obtain ⟨hauthorities, hmode⟩ := h.workers w hw
  refine ⟨h.orphans, ?_, ?_, ?_⟩
  · intro v hv
    simp only [List.mem_append, Option.mem_toList] at hv
    obtain (hv | hv) | hv := hv
    · exact h.workers v (by simp [hworkers, hv])
    · have hsame := (show WorkerStep site.dir w act dir (some v) from hv ▸ hstep).authorities
      rw [hsame.1, hsame.2]
      exact ⟨hauthorities, hmode⟩
    · exact h.workers v (by simp [hworkers, hv])
  · intro c hc s hs hreusable
    obtain hbefore | ⟨execution, rfl⟩ := hstep.summaries hs
    · exact h.reusable c hc s hbefore hreusable
    · rw [hauthorities, hmode] at hreusable ⊢
      exact hnew _ _ _ hreusable.qualified
  · intro c hc s hs hqualified
    obtain hbefore | ⟨execution, rfl⟩ := hstep.summaries hs
    · obtain hp | ⟨v, hv, hahead⟩ := h.qualified c hc s hbefore hqualified
      · exact .inl hp
      rw [hworkers, List.mem_append, List.mem_cons] at hv
      obtain hv | rfl | hv := hv
      · exact .inr ⟨v, by simp [hv], hahead⟩
      · -- the case lies ahead of the worker that takes the step
        by_cases hcrash : act = .crash
        · subst hcrash
          rw [← hauthorities] at hbefore ⊢
          rw [← hmode] at hguarded ⊢
          exact .inl (hattended hguarded c hahead s hbefore hqualified)
        obtain ⟨v', rfl, hahead'⟩ | ⟨previous, hprevious, hstands⟩ | hnone := hstep.reached hcrash hahead
        · exact .inr ⟨v', by simp, hahead'⟩
        · rw [hauthorities] at hprevious hstands
          cases hbefore.symm.trans hprevious
          exact .inl (h.reusable c hc s hbefore hstands)
        · rw [hauthorities] at hnone
          cases hs.symm.trans hnone
      · exact .inr ⟨v, by simp [hv], hahead⟩
    · rw [hauthorities, hmode] at hqualified ⊢
      exact .inl (hnew _ _ _ hqualified)

/-- Every attended step keeps what holds of a guarded run. -/
theorem Sound.step (h : Sound guarded P site)
    (hnew : ∀ mode, guarded mode → ∀ a c execution, (workerSummary a mode c execution).state = .qualified →
      P a mode c (workerSummary a mode c execution))
    (hn : Next site op site') (hattended : Attended guarded P site op) : Sound guarded P site' := by
  cases hn with
  | edit hrun =>
    intro run hsome
    cases hrun.symm.trans hsome
  | begin =>
    rintro _ ⟨⟩ hguarded
    obtain ⟨horphans, hreusable⟩ := hattended hguarded
    exact ⟨.begin horphans hreusable, trivial⟩
  | worker hworkers hstep =>
    intro run hrun hguarded
    obtain ⟨hworking, hphased⟩ := h run hrun hguarded
    refine ⟨hworking.worker hguarded (hnew _ hguarded) hworkers hstep hattended, ?_⟩
    cases hphase : run.phase with
    | working => trivial
    | aggregated | published =>
      rw [hphase] at hphased
      have hnone := hphased.1
      rw [hworkers] at hnone
      simp at hnone
  | orphan horphans =>
    intro run hrun hguarded
    have hnone := (h run hrun hguarded).1.orphans
    rw [horphans] at hnone
    simp at hnone
  | aggregate hrun hworkers =>
    rintro _ ⟨⟩ hguarded
    obtain ⟨hworking, -⟩ := h _ hrun hguarded
    exact ⟨⟨hworking.orphans, hworking.workers, hworking.reusable, hworking.qualified⟩, hworkers, rfl⟩
  | @publish mode report digest hrun =>
    rintro _ ⟨⟩ hguarded
    obtain ⟨hworking, hworkers, hreport⟩ := h _ hrun hguarded
    refine ⟨⟨hworking.orphans, hworking.workers, hworking.reusable, hworking.qualified⟩, hworkers, digest, ?_⟩
    simp only [hreport]
    rfl
  | write =>
    intro run hnone
    cases hnone
  | stop =>
    intro run hnone
    cases hnone

/-- In an attended run, every report of a guarded mode is written on qualified summaries that have the property. -/
theorem written_of_attended {a : Authorities} {trace : List (Step Site Op)}
    (hnew : ∀ mode, guarded mode → ∀ a c execution, (workerSummary a mode c execution).state = .qualified →
      P a mode c (workerSummary a mode c execution))
    (h : Run Next (initial a) trace site) (hattended : ∀ st ∈ trace, Attended guarded P st.before st.op)
    {st : Step Site Op} (hst : st ∈ trace) {report : Report} (hguarded : guarded mode)
    (hpublished : st.before.run = some ⟨mode, .published report⟩) :
    (∃ digest, report =
      { aggregate st.before.authorities st.before.dir mode with databaseSha256 := some digest }) ∧
    ∀ c ∈ expectedCases st.before.authorities.campaign mode, ∀ s,
      st.before.dir.summaries st.before.authorities.campaign.sourceRunId c = some s → s.state = .qualified →
      P st.before.authorities mode c s := by
  have hinitial : Sound guarded P (initial a) := fun run hnone => by cases hnone
  obtain ⟨-, hsound⟩ := h.invariant_before hinitial
    (fun st hm hn hsound => hsound.step hnew hn (hattended st hm)) st hst
  obtain ⟨hworking, hworkers, hreport⟩ := hsound _ hpublished hguarded
  refine ⟨hreport, fun c hc s hs hqualified => ?_⟩
  obtain hp | ⟨w, hw, -⟩ := hworking.qualified c hc s hs hqualified
  · exact hp
  · rw [hworkers] at hw
    cases hw

end Keeping

section Terminal

/-- What a terminal report is to rest on: for every expected case of its mode a summary on disk that stands for the case under
the authorities and a backend that the report names, and a matrix that sums over these. -/
structure Supported (campaign : Campaign) (dir : Directory) (mode : Mode) (report : Report) : Prop where
  authority : report.authoritySha256 = campaign.authoritySha256
  expected : report.expectedCases = (expectedCases campaign mode).length
  complete : report.completeCases = report.expectedCases
  contract : report.state = .qualified → report.contractMet = true
  evidence : ∃ summaryOf : Case → Summary,
    (∀ c ∈ expectedCases campaign mode, dir.summaries campaign.sourceRunId c = some (summaryOf c) ∧
      ∃ backend ∈ report.effective, (report.contractMet = true → backend = report.requested) ∧
        Reusable campaign c report.methodSha256 backend (summaryOf c)) ∧
    report.confusionMatrix = ((expectedCases campaign mode).map fun c => (summaryOf c).confusionMatrix).sum

theorem Supported.summary_authority {campaign : Campaign} {dir : Directory} {report : Report}
    (h : Supported campaign dir mode report) (hc : c ∈ expectedCases campaign mode)
    (hs : dir.summaries campaign.sourceRunId c = some s) :
    campaign.legacyDefault = true ∨ s.campaignAuthoritySha256 = campaign.authoritySha256 := by
  obtain ⟨summaryOf, hcases, -⟩ := h.evidence
  obtain ⟨hsummary, _, -, -, hreusable⟩ := hcases c hc
  cases hs.symm.trans hsummary
  exact hreusable.authority

/-- No run begins beside a worker that an earlier run has left behind, and a worker crashes only where each qualified summary
that it has not reached stands for its case, under the backend that the summary names. -/
def Supervised (site : Site) : Op → Prop
  | .begin _ _ => site.orphans = []
  | .worker w .crash => ∀ c ∈ w.ahead, ∀ s, site.dir.summaries w.authorities.campaign.sourceRunId c = some s →
      s.state = .qualified →
      Reusable w.authorities.campaign c w.authorities.method.authoritySha256 s.selectedBackend s
  | _ => True

/-- The summary stands for the case, under the backend that it names. -/
def Stands (a : Authorities) (_ : Mode) (c : Case) (s : Summary) : Prop :=
  Reusable a.campaign c a.method.authoritySha256 s.selectedBackend s

theorem workerSummary_stands {a : Authorities} {execution : Execution}
    (h : (workerSummary a mode c execution).state = .qualified) : Stands a mode c (workerSummary a mode c execution) := by
  have hreusable := workerSummary_reusable h
  unfold Stands
  rw [hreusable.backend]
  exact hreusable

theorem Supervised.attended (h : Supervised site op) : Attended (fun _ => True) Stands site op := by
  cases op with
  | begin mode functionsHashed =>
    intro _
    refine ⟨h, fun c _ s _ hreusable => ?_⟩
    unfold Stands
    rw [hreusable.backend]
    exact hreusable
  | worker w act =>
    cases act with
    | crash => exact fun _ => h
    | _ => trivial
  | _ => trivial

theorem aggregate_supported {a : Authorities} {dir : Directory} (hterminal : (aggregate a dir mode).Terminal)
    (hstands : ∀ c ∈ expectedCases a.campaign mode, ∀ s, dir.summaries a.campaign.sourceRunId c = some s →
      s.state = .qualified → Stands a mode c s) :
    Supported a.campaign dir mode (aggregate a dir mode) := by
  obtain ⟨hcomplete, -⟩ := aggregate_terminal hterminal
  refine ⟨rfl, rfl, hcomplete, fun h => (aggregate_qualified h).2.2.2, ?_⟩
  have hsummary : ∀ c ∈ expectedCases a.campaign mode, ∃ s, dir.summaries a.campaign.sourceRunId c = some s ∧
      s.state = .qualified := fun c hc => aggregate_complete hcomplete hc
  have hinhabited : Nonempty Summary := by
    obtain ⟨c, hc⟩ : ∃ c, c ∈ expectedCases a.campaign mode := by
      cases mode with
      | canary => exact List.exists_mem_of_ne_nil _ a.campaign.canaryCases_ne
      | full => exact ⟨_, List.mem_flatMap.mpr ⟨0, by simp, List.mem_cons_self⟩⟩
    exact ⟨(hsummary c hc).choose⟩
  choose! summaryOf hsummaryOf using hsummary
  refine ⟨summaryOf, fun c hc => ?_, ?_⟩
  · obtain ⟨hs, hqualified⟩ := hsummaryOf c hc
    have hmem : summaryOf c ∈ qualifiedSummaries a dir mode := mem_qualifiedSummaries.mpr ⟨c, hc, hs, hqualified⟩
    refine ⟨hs, (summaryOf c).selectedBackend, mem_aggregate_effective.mpr ⟨_, hmem, rfl⟩, ?_, hstands c hc _ hs hqualified⟩
    intro hcontract
    exact aggregate_contractMet hcontract hmem
  · rw [aggregate_confusionMatrix, qualifiedSummaries_eq_map hsummaryOf, List.map_map]
    rfl

/-- In a supervised run, every terminal report is written on evidence that is current. -/
theorem terminal_report_supported {a : Authorities} {trace : List (Step Site Op)} (h : Run Next (initial a) trace site)
    (hsupervised : ∀ st ∈ trace, Supervised st.before st.op) :
    ∀ st ∈ trace, st.op = .write → ∀ mode report, st.before.run = some ⟨mode, .published report⟩ → report.Terminal →
      Supported st.before.authorities.campaign st.before.dir mode report := by
  intro st hst _ mode report hpublished hterminal
  obtain ⟨⟨digest, rfl⟩, hstands⟩ := written_of_attended (fun _ _ _ _ _ hq => workerSummary_stands hq) h
    (fun st hm => (hsupervised st hm).attended) hst trivial hpublished
  have hsupported := aggregate_supported hterminal hstands
  exact ⟨hsupported.authority, hsupported.expected, hsupported.complete, hsupported.contract, hsupported.evidence⟩

end Terminal

section Canary

/-- What a qualified canary is to rest on: for every canary case a summary on disk of the method that the report names, in which
the decisions of the requested backend were compared with the oracle, without a mismatch. -/
def Compared (campaign : Campaign) (dir : Directory) (report : Report) : Prop :=
  ∀ c ∈ campaign.canaryCases, ∃ s, dir.summaries campaign.sourceRunId c = some s ∧ s.state = .qualified ∧
    s.selectedBackend = report.requested ∧ (∃ row ∈ s.comparisons, row.backend = s.selectedBackend) ∧
    (∀ row ∈ s.comparisons, row.decisionMismatches = 0) ∧ s.authoritySha256 = report.methodSha256

/-- No canary run begins beside a worker that an earlier run has left behind, nor where a summary without comparisons stands for
a canary case; and a canary worker crashes only where each qualified summary that it has not reached is of the method and
has comparisons. -/
def CanarySupervised (site : Site) : Op → Prop
  | .begin mode _ => mode = .canary → site.orphans = [] ∧ ∀ c ∈ expectedCases site.authorities.campaign mode, ∀ s,
      site.dir.summaries site.authorities.campaign.sourceRunId c = some s →
      Reusable site.authorities.campaign c site.authorities.method.authoritySha256 site.authorities.method.selected s →
      s.comparisons ≠ []
  | .worker w .crash => w.mode = .canary → ∀ c ∈ w.ahead, ∀ s,
      site.dir.summaries w.authorities.campaign.sourceRunId c = some s → s.state = .qualified →
      s.authoritySha256 = w.authorities.method.authoritySha256 ∧ s.comparisons ≠ []
  | _ => True

/-- The summary is of the method, and has comparisons. -/
def HasComparisons (a : Authorities) (_ : Mode) (_ : Case) (s : Summary) : Prop :=
  s.authoritySha256 = a.method.authoritySha256 ∧ s.comparisons ≠ []

/-- Every comparison on disk is one of the backend that the summary names. -/
def OwnComparisons (dir : Directory) : Prop :=
  ∀ runId c s, dir.summaries runId c = some s → ∀ row ∈ s.comparisons, row.backend = s.selectedBackend

theorem CanarySupervised.attended (h : CanarySupervised site op) : Attended (· = .canary) HasComparisons site op := by
  cases op with
  | begin mode functionsHashed =>
    intro hmode
    obtain ⟨horphans, hcompared⟩ := h hmode
    exact ⟨horphans, fun c hc s hs hreusable => ⟨hreusable.method, hcompared c hc s hs hreusable⟩⟩
  | worker w act =>
    cases act with
    | crash => exact h
    | _ => trivial
  | _ => trivial

theorem WorkerStep.ownComparisons {dir dir' : Directory} {w : Worker} {w' : Option Worker} {act : WorkerAct}
    (h : WorkerStep dir w act dir' w') (hown : OwnComparisons dir) : OwnComparisons dir' := by
  intro runId c s hs row hrow
  obtain hbefore | ⟨execution, rfl⟩ := h.summaries hs
  · exact hown runId c s hbefore row hrow
  · rw [workerSummary_comparisons] at hrow
    split at hrow
    · rw [List.mem_singleton.mp hrow, workerSummary_eq]
      rfl
    · cases hrow

theorem OwnComparisons.step (h : OwnComparisons site.dir) (hn : Next site op site') : OwnComparisons site'.dir := by
  cases hn with
  | worker _ hstep | orphan _ hstep => exact hstep.ownComparisons h
  | _ => exact h

theorem aggregate_compared {a : Authorities} {dir : Directory} (hqualified : (aggregate a dir .canary).state = .qualified)
    (hown : OwnComparisons dir)
    (hcompared : ∀ c ∈ a.campaign.canaryCases, ∀ s, dir.summaries a.campaign.sourceRunId c = some s →
      s.state = .qualified → HasComparisons a .canary c s) :
    Compared a.campaign dir (aggregate a dir .canary) := by
  obtain ⟨-, hcomplete, hmismatches, hcontract⟩ := aggregate_qualified hqualified
  intro c hc
  obtain ⟨s, hs, hstate⟩ := aggregate_complete hcomplete hc
  obtain ⟨hmethod, hne⟩ := hcompared c hc s hs hstate
  have hmem : s ∈ qualifiedSummaries a dir .canary := mem_qualifiedSummaries.mpr ⟨c, hc, hs, hstate⟩
  obtain ⟨row, hrow⟩ := List.exists_mem_of_ne_nil _ hne
  have hzero : s.decisionMismatches = 0 := by
    rw [aggregate_decisionMismatches, List.sum_eq_zero_iff_forall_eq_nat] at hmismatches
    exact hmismatches _ (List.mem_map_of_mem hmem)
  refine ⟨s, hs, hstate, aggregate_contractMet hcontract hmem, ⟨row, hrow, hown _ _ _ hs row hrow⟩, ?_, hmethod⟩
  intro row hrow
  exact List.sum_eq_zero_iff_forall_eq_nat.mp hzero _ (List.mem_map_of_mem hrow)

/-- In a supervised run, every qualified canary was compared with the oracle, case by case. -/
theorem qualified_canary_compared {a : Authorities} {trace : List (Step Site Op)} (h : Run Next (initial a) trace site)
    (hsupervised : ∀ st ∈ trace, CanarySupervised st.before st.op) :
    ∀ st ∈ trace, st.op = .write → ∀ report, st.before.run = some ⟨.canary, .published report⟩ →
      report.state = .qualified → Compared st.before.authorities.campaign st.before.dir report := by
  intro st hst _ report hpublished hqualified
  have hnew : ∀ mode, mode = .canary → ∀ a c execution, (workerSummary a mode c execution).state = .qualified →
      HasComparisons a mode c (workerSummary a mode c execution) := by
    rintro _ rfl a c execution -
    refine ⟨workerSummary_authoritySha256, ?_⟩
    simp [workerSummary_comparisons]
  obtain ⟨⟨digest, rfl⟩, hcompared⟩ := written_of_attended hnew h (fun st hm => (hsupervised st hm).attended) hst rfl hpublished
  have hown : OwnComparisons st.before.dir :=
    (h.invariant_before (P := fun site => OwnComparisons site.dir) (fun _ _ _ hs => by cases hs)
      (fun _ _ hn hown => hown.step hn) st hst).2
  exact aggregate_compared hqualified hown hcompared

end Canary

namespace Rerun

theorem cpu_ne_gpu : "cpu" ≠ "gpu" := by decide

def unit : Case := ⟨1, .A⟩

def campaign (authoritySha256 : String) : Campaign where
  sourceRunId := "run"
  authoritySha256
  engine := .alphaEngine2
  requiredLinkHarness := "harness"
  legacyDefault := false
  workers := 1
  canaryCases := [unit]
  canaryWorkers := 1
  autoChainFull := true
  meetsTruthCoverage labelled _ := labelled != 0
  canaryCases_ne := List.cons_ne_nil _ _
  canaryWorkers_pos := Nat.one_pos
  canaryWorkers_le := Nat.le_refl 1

def method : Method := ⟨"method", "cpu", "cpu", "gpu", cpu_ne_gpu, .inl rfl⟩

def authorities (authoritySha256 : String) : Authorities := ⟨campaign authoritySha256, method, ⟨.cpu, false⟩⟩

/-- The matcher finds one function, as the oracle does. -/
def execution : Execution := ⟨none, "population", ⟨1, 0, 0, 0⟩, 1, 0, 0⟩

def worker (authoritySha256 : String) (mode : Mode) (cases : List Case) (phase : WorkerPhase) : Worker :=
  ⟨authorities authoritySha256, mode, cases, phase⟩

/-- The directory after a worker has run the matcher on the first case. -/
def measured (mode : Mode) : Directory :=
  ((emptyDirectory.setSummary "run" unit none).setFailure "run" unit none).setSummary "run" unit
    (some (workerSummary (authorities "first") mode unit execution))

/-- The site before the report on that directory is written. -/
def published (mode : Mode) : Site :=
  ⟨authorities "first", (measured mode).setEvidence mode "digest",
    some ⟨mode, .published { aggregate (authorities "first") (measured mode) mode with databaseSha256 := some "digest" }⟩, [], []⟩

def FullySupervised (site : Site) (op : Op) : Prop := Supervised site op ∧ CanarySupervised site op

theorem unreached {a : Authorities} {dir : Directory} (h : dir.summaries a.campaign.sourceRunId c = none) :
    ¬ reusableCase dir c a := by
  rintro ⟨previous, hprevious, -⟩
  rw [h] at hprevious
  cases hprevious

theorem begin_canary {a : Authorities} {dir : Directory}
    (hterminal : scheduledCaseChunks a dir .canary (fun _ => 1) = [] → terminalCampaignReport a dir .canary = none) :
    Next ⟨a, dir, none, [], []⟩ (.begin .canary fun _ => 1)
      ⟨a, dir, some ⟨.canary, .working⟩, (scheduledCaseChunks a dir .canary fun _ => 1).map (startWorker a .canary), []⟩ := by
  refine .begin rfl (fun row hrow => ?_) hterminal
  obtain ⟨c, -, rfl⟩ := List.mem_map.mp hrow
  exact Nat.one_pos

/-- A canary runs to its report. -/
theorem canary_published : ∃ trace, Run Next (initial (authorities "first")) trace (published .canary) ∧
    ∀ st ∈ trace, FullySupervised st.before st.op := by
  have h : Run Next (initial (authorities "first")) [] (initial (authorities "first")) ∧
      ∀ st ∈ ([] : List (Step Site Op)), FullySupervised st.before st.op :=
    ⟨.nil, fun _ hst => (List.not_mem_nil hst).elim⟩
  have h := Run.snoc_all h (show Next (initial (authorities "first")) (.begin .canary fun _ => 1) _ from
    begin_canary fun _ => rfl) ⟨rfl, fun _ => ⟨rfl, fun _ _ _ hs => by cases hs⟩⟩
  have h := Run.snoc_all h (show Next _ (.worker (worker "first" .canary [unit] .reaching) .archiveSummary) _ from
    .worker (show _ = [] ++ _ :: [] from rfl) (.archiveSummary (unreached rfl))) ⟨trivial, trivial⟩
  have h := Run.snoc_all h (show Next _ (.worker (worker "first" .canary [unit] .archiving) .archiveFailure) _ from
    .worker (show _ = [] ++ _ :: [] from rfl) .archiveFailure) ⟨trivial, trivial⟩
  have h := Run.snoc_all h (show Next _ (.worker (worker "first" .canary [unit] .matching) (.finish execution)) _ from
    .worker (show _ = [] ++ _ :: [] from rfl) (.finish (by simp [execution]))) ⟨trivial, trivial⟩
  have h := Run.snoc_all h (show Next _ (.worker (worker "first" .canary [] .reaching) .exit) _ from
    .worker (show _ = [] ++ _ :: [] from rfl) .exit) ⟨trivial, trivial⟩
  have h := Run.snoc_all h (show Next _ .aggregate _ from .aggregate rfl rfl) ⟨trivial, trivial⟩
  have h := Run.snoc_all h (show Next _ (.publish "digest") (published .canary) from .publish rfl) ⟨trivial, trivial⟩
  exact ⟨_, h⟩

theorem canary_supported : ∃ report, (published .canary).run = some ⟨.canary, .published report⟩ ∧ report.state = .qualified ∧
    Supported (campaign "first") (published .canary).dir .canary report := by
  obtain ⟨trace, h⟩ := canary_published
  have h := Run.snoc_all h (show Next (published .canary) .write _ from .write rfl) ⟨trivial, trivial⟩
  have hsupported := terminal_report_supported h.1 (fun st hst => (h.2 st hst).1) _
    (List.mem_append_right _ (List.mem_singleton_self _)) rfl _ _ rfl (.inl rfl)
  exact ⟨_, rfl, rfl, hsupported⟩

/-- After an edit of the campaign the worker crashes before it reaches the case: the report of the canary is qualified, and rests
on the summary of the earlier campaign. -/
theorem canary_unsupported : ∃ trace site, Run Next (initial (authorities "first")) trace site ∧
    ∃ st ∈ trace, st.op = .write ∧ ∃ report, st.before.run = some ⟨.canary, .published report⟩ ∧ report.state = .qualified ∧
      ¬ Supported st.before.authorities.campaign st.before.dir .canary report := by
  obtain ⟨trace, h, -⟩ := canary_published
  have h := h.snoc (show Next _ .write _ from .write rfl)
  have h := h.snoc (show Next _ (.edit (authorities "second")) _ from .edit rfl)
  have h := h.snoc (begin_canary fun _ => rfl)
  have h := h.snoc (show Next _ (.worker (worker "second" .canary [unit] .reaching) .crash) _ from
    .worker (show _ = [] ++ _ :: [] from rfl) .crash)
  have h := h.snoc (show Next _ .aggregate _ from .aggregate rfl rfl)
  have h := h.snoc (show Next _ (.publish "digest") _ from .publish rfl)
  have h := h.snoc (show Next _ .write _ from .write rfl)
  refine ⟨_, _, h, _, List.mem_append_right _ (List.mem_singleton_self _), rfl, _, rfl, rfl, ?_⟩
  intro hsupported
  have hmade := hsupported.summary_authority (s := workerSummary (authorities "first") .canary unit execution)
    (List.mem_singleton_self _) rfl
  have hauthority : false = true ∨ "first" = "second" := hmade
  revert hauthority
  decide

theorem canary_compared : ∃ report, (published .canary).run = some ⟨.canary, .published report⟩ ∧ report.state = .qualified ∧
    Compared (campaign "first") (published .canary).dir report := by
  obtain ⟨trace, h⟩ := canary_published
  have h := Run.snoc_all h (show Next (published .canary) .write _ from .write rfl) ⟨trivial, trivial⟩
  have hcompared := qualified_canary_compared h.1 (fun st hst => (h.2 st hst).2) _
    (List.mem_append_right _ (List.mem_singleton_self _)) rfl _ rfl rfl
  exact ⟨_, rfl, rfl, hcompared⟩

/-- The weights put one case first. -/
def hashed (c : Case) : Nat := if c = unit then 2 else 1

theorem earlier_unit (c : Case) : Earlier (unit, hashed unit) (c, hashed c) := by
  by_cases hc : c = unit
  · subst hc
    exact .inr ⟨rfl, String.le_refl _⟩
  · refine .inl ?_
    simp [hashed, hc]

/-- The one worker of a first full run begins with that case. -/
theorem full_chunks : ∃ later load,
    scheduledCaseChunks (authorities "first") emptyDirectory .full hashed = [⟨unit :: later, load⟩] := by
  have hall : pendingCases (authorities "first") emptyDirectory .full hashed = fullCases.map fun c => (c, hashed c) := by
    unfold pendingCases
    rw [List.filter_eq_self.mpr]
    · rfl
    · intro c _
      rfl
  obtain ⟨tail, hfull⟩ : ∃ tail, fullCases = unit :: tail := by
    unfold fullCases
    rw [List.range_succ_eq_map, List.flatMap_cons]
    exact ⟨_, rfl⟩
  have hsorted : ((unit :: tail).map fun c => (c, hashed c)).insertionSort Earlier =
      (unit, hashed unit) :: (tail.map fun c => (c, hashed c)).insertionSort Earlier := by
    rw [List.map_cons]
    apply List.insertionSort_cons_of_forall_rel
    intro row hrow
    obtain ⟨c, -, rfl⟩ := List.mem_map.mp hrow
    exact earlier_unit c
  unfold scheduledCaseChunks
  rw [hall, hfull, show modeWorkers (authorities "first") .full = 1 from rfl,
    balancedCaseChunks_one (by simp), hsorted]
  exact ⟨_, _, rfl⟩

/-- A full run measures the canary case without a comparison, and the canary after it reuses that summary: its report is
qualified, and nothing was compared. -/
theorem canary_vacuous : ∃ trace site, Run Next (initial (authorities "first")) trace site ∧
    ∃ st ∈ trace, st.op = .write ∧ ∃ report, st.before.run = some ⟨.canary, .published report⟩ ∧ report.state = .qualified ∧
      ¬ Compared st.before.authorities.campaign st.before.dir report := by
  obtain ⟨later, load, hchunks⟩ := full_chunks
  have h : Run Next (initial (authorities "first")) [] (initial (authorities "first")) := .nil
  have hbegin : Next (initial (authorities "first")) (.begin .full hashed) ⟨authorities "first", emptyDirectory,
      some ⟨.full, .working⟩, [worker "first" .full (unit :: later) .reaching], []⟩ := by
    have hn : Next (initial (authorities "first")) (.begin .full hashed) _ := .begin rfl (fun row hrow => ?_) fun _ => rfl
    · rw [show scheduledCaseChunks (initial (authorities "first")).authorities (initial (authorities "first")).dir .full hashed =
        [⟨unit :: later, load⟩] from hchunks] at hn
      exact hn
    · obtain ⟨c, -, rfl⟩ := List.mem_map.mp hrow
      simp only [hashed]
      split <;> decide
  have h := h.snoc hbegin
  have h := h.snoc (show Next _ (.worker (worker "first" .full (unit :: later) .reaching) .archiveSummary) _ from
    .worker (show _ = [] ++ _ :: [] from rfl) (.archiveSummary (unreached rfl)))
  have h := h.snoc (show Next _ (.worker (worker "first" .full (unit :: later) .archiving) .archiveFailure) _ from
    .worker (show _ = [] ++ _ :: [] from rfl) .archiveFailure)
  have h := h.snoc (show Next _ (.worker (worker "first" .full (unit :: later) .matching) (.finish execution)) _ from
    .worker (show _ = [] ++ _ :: [] from rfl) (.finish (by simp [execution])))
  have h := h.snoc (show Next _ (.worker (worker "first" .full later .reaching) .crash) _ from
    .worker (show _ = [] ++ _ :: [] from rfl) .crash)
  have h := h.snoc (show Next _ .aggregate _ from .aggregate rfl rfl)
  have h := h.snoc (show Next _ (.publish "digest") (published .full) from .publish rfl)
  have h := h.snoc (show Next _ .write _ from .write rfl)
  have h := h.snoc (begin_canary fun _ => rfl)
  have h := h.snoc (show Next _ .aggregate _ from .aggregate rfl rfl)
  have h := h.snoc (show Next _ (.publish "digest") _ from .publish rfl)
  have h := h.snoc (show Next _ .write _ from .write rfl)
  refine ⟨_, _, h, _, List.mem_append_right _ (List.mem_singleton_self _), rfl, _, rfl, rfl, ?_⟩
  intro hcompared
  obtain ⟨s, hs, -, -, ⟨row, hrow, -⟩, -⟩ := hcompared unit (List.mem_singleton_self _)
  have hsummary : some (workerSummary (authorities "first") .full unit execution) = some s := hs
  rw [← Option.some.inj hsummary, workerSummary_comparisons] at hrow
  cases hrow

end Rerun

end FidbPoc.Campaigns
