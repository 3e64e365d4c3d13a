import FidbPoc.Campaigns.Records

namespace FidbPoc.Campaigns

inductive ReportState
  | qualified
  | measuredComplete
  | incompleteOrFailed
  | incomplete
  | pending
  | staleAuthority
  deriving DecidableEq

/-- What a report says, its texts aside. -/
structure Report where
  mode : Mode
  state : ReportState
  authoritySha256 : String
  sourceRunId : String
  /-- the digest of the method authority -/
  methodSha256 : String
  requested : String
  effective : List String
  fallbackCases : List String
  contractMet : Bool
  expectedCases : Nat
  completeCases : Nat
  failedCases : Nat
  pendingCases : Nat
  decisionMismatches : Nat
  labelledFunctions : Nat
  unlabelledFunctions : Nat
  confusionMatrix : Matrix
  failures : List (String × String)
  /-- the digest of the hash evidence that was published with the report -/
  databaseSha256 : Option String

/-- What the campaign directory holds: the summary and the failure of each case of a source run, and for each mode its
report and the digest of its hash evidence. -/
structure Directory where
  summaries : String → Case → Option Summary
  failures : String → Case → Option String
  reports : Mode → Option Report
  evidence : Mode → Option String

section Aggregation

variable (a : Authorities) (dir : Directory) (mode : Mode)

def qualifiedSummary (runId : String) (c : Case) : Option Summary :=
  (dir.summaries runId c).filter fun summary => summary.state = .qualified

/-- A case without a qualified summary fails by what its summary or its failure file says. -/
def caseFailure (runId : String) (c : Case) : Option (String × String) :=
  match dir.summaries runId c with
  | some summary => if summary.state = .qualified then none else some (c.label, "mismatch")
  | none => (dir.failures runId c).map fun error => (c.label, error)

def casePending (runId : String) (c : Case) : Bool :=
  (dir.summaries runId c).isNone && (dir.failures runId c).isNone

def Summary.decisionMismatches (summary : Summary) : Nat := (summary.comparisons.map Comparison.decisionMismatches).sum

/-- The qualified summaries of the expected cases, in their order. -/
def qualifiedSummaries : List Summary :=
  (expectedCases a.campaign mode).filterMap (qualifiedSummary dir a.campaign.sourceRunId)

def reportState (complete canaryPassed : Bool) (mismatches : Nat) (failed measured : Bool) : ReportState :=
  if mode = .canary ∧ canaryPassed then .qualified
  else if mode = .full ∧ complete ∧ mismatches = 0 then .measuredComplete
  else if failed ∨ mismatches ≠ 0 then .incompleteOrFailed
  else if measured then .incomplete
  else .pending

/-- The report on what lies on disk. -/
def aggregate : Report :=
  let runId := a.campaign.sourceRunId
  let expected := expectedCases a.campaign mode
  let summaries := qualifiedSummaries a dir mode
  let populations := (summaries.map Summary.populationSha256).dedup
  let caseFailures := expected.filterMap (caseFailure dir runId)
  let failures := caseFailures ++
    if 1 < populations.length then [("reference-population", "case evidence used multiple reference populations")] else []
  let complete := summaries.length == expected.length && failures.isEmpty
  let mismatches := (summaries.map Summary.decisionMismatches).sum
  let requested := a.requestedBackend
  let selectedBackends := (summaries.map Summary.selectedBackend).dedup
  let requestedBackends := (summaries.map Summary.requestedBackend).dedup
  let fallbackCases := (summaries.filter fun summary => summary.fallbackReason.isSome).map fun summary => summary.caseId.label
  let contractMet : Bool :=
    (∀ backend ∈ selectedBackends, backend = requested) ∧ (∀ backend ∈ requestedBackends, backend = requested) ∧
      fallbackCases = []
  let labelled := (summaries.map Summary.labelledFunctions).sum
  let unlabelled := (summaries.map Summary.unlabelledFunctions).sum
  let canaryPassed := complete && mismatches == 0 && contractMet && a.campaign.meetsTruthCoverage labelled unlabelled
  { mode
    state := reportState mode complete canaryPassed mismatches (!failures.isEmpty) (!summaries.isEmpty)
    authoritySha256 := a.campaign.authoritySha256
    sourceRunId := runId
    methodSha256 := a.method.authoritySha256
    requested
    effective := selectedBackends.insertionSort (· ≤ ·)
    fallbackCases
    contractMet
    expectedCases := expected.length
    completeCases := summaries.length
    failedCases := failures.length
    pendingCases := expected.countP (casePending dir runId)
    decisionMismatches := mismatches
    labelledFunctions := labelled
    unlabelledFunctions := unlabelled
    confusionMatrix := (summaries.map Summary.confusionMatrix).sum
    failures := failures.take 1000
    databaseSha256 := none }

/-- A state that ends a campaign mode. -/
def Report.Terminal (report : Report) : Prop := report.state = .qualified ∨ report.state = .measuredComplete

/-- The report of an earlier run, where it still stands. -/
def terminalCampaignReport : Option Report :=
  (dir.reports mode).filter fun report =>
    report.mode = mode ∧ report.state = (if mode = .canary then .qualified else .measuredComplete) ∧
      report.authoritySha256 = a.campaign.authoritySha256 ∧ report.sourceRunId = a.campaign.sourceRunId ∧
      report.methodSha256 = a.method.authoritySha256 ∧
      report.expectedCases = (expectedCases a.campaign mode).length ∧
      report.completeCases = (expectedCases a.campaign mode).length ∧
      report.failedCases + report.pendingCases = 0

/-- The cases that a run hands to its workers, with the functions hashed in each. -/
def pendingCases (functionsHashed : Case → Nat) : List (Case × Nat) :=
  ((expectedCases a.campaign mode).filter fun c =>
    !(dir.summaries a.campaign.sourceRunId c).any fun previous =>
      Reusable a.campaign c a.method.authoritySha256 a.method.selected previous).map fun c => (c, functionsHashed c)

def modeWorkers : Nat :=
  match mode with
  | .canary => a.campaign.canaryWorkers
  | .full => a.campaign.workers

def scheduledCaseChunks (functionsHashed : Case → Nat) : List Chunk :=
  balancedCaseChunks (pendingCases a dir mode functionsHashed) (modeWorkers a mode)

def Report.current (report : Report) : Prop :=
  report.authoritySha256 = a.campaign.authoritySha256 ∧ report.methodSha256 = a.method.authoritySha256

instance (report : Report) : Decidable (report.current a) :=
  inferInstanceAs (Decidable (_ ∧ _))

/-- The report that the campaign status shows: the file, or without one what the summaries come to. -/
def currentReport : Report :=
  match dir.reports mode with
  | none => aggregate a dir mode
  | some report => if report.current a then report else { report with state := .staleAuthority }

/-- What a scheduled call does in an open window. -/
inductive Decision
  | nothingPending
  | canary
  | full
  | canaryQualified
  deriving DecidableEq

/-- The chain goes on from a qualified canary only where the campaign says so. -/
def chained : Decision := if a.campaign.autoChainFull then .full else .canaryQualified

def scheduledCampaign : Decision :=
  if (currentReport a dir .full).state = .measuredComplete then .nothingPending
  else if (currentReport a dir .canary).state ≠ .qualified then .canary
  else chained a

end Aggregation

section Aggregates

variable {a : Authorities} {dir : Directory} {mode : Mode} {runId : String} {c : Case} {s : Summary}

theorem qualifiedSummary_eq_some :
    qualifiedSummary dir runId c = some s ↔ dir.summaries runId c = some s ∧ s.state = .qualified := by
  unfold qualifiedSummary
  rw [Option.filter_eq_some_iff]
  simp

theorem mem_qualifiedSummaries : s ∈ qualifiedSummaries a dir mode ↔
    ∃ c ∈ expectedCases a.campaign mode, dir.summaries a.campaign.sourceRunId c = some s ∧ s.state = .qualified := by
  unfold qualifiedSummaries
  simp only [List.mem_filterMap, qualifiedSummary_eq_some]

@[simp] theorem aggregate_mode : (aggregate a dir mode).mode = mode := rfl

@[simp] theorem aggregate_authoritySha256 : (aggregate a dir mode).authoritySha256 = a.campaign.authoritySha256 := rfl

@[simp] theorem aggregate_methodSha256 : (aggregate a dir mode).methodSha256 = a.method.authoritySha256 := rfl

@[simp] theorem aggregate_requested : (aggregate a dir mode).requested = a.requestedBackend := rfl

theorem aggregate_expectedCases :
    (aggregate a dir mode).expectedCases = (expectedCases a.campaign mode).length := rfl

theorem aggregate_completeCases :
    (aggregate a dir mode).completeCases = (qualifiedSummaries a dir mode).length := rfl

theorem aggregate_decisionMismatches : (aggregate a dir mode).decisionMismatches =
    ((qualifiedSummaries a dir mode).map Summary.decisionMismatches).sum := rfl

theorem aggregate_confusionMatrix : (aggregate a dir mode).confusionMatrix =
    ((qualifiedSummaries a dir mode).map Summary.confusionMatrix).sum := rfl

theorem mem_aggregate_effective {backend : String} :
    backend ∈ (aggregate a dir mode).effective ↔ ∃ s ∈ qualifiedSummaries a dir mode, s.selectedBackend = backend := by
  have hperm := List.perm_insertionSort (· ≤ ·) ((qualifiedSummaries a dir mode).map Summary.selectedBackend).dedup
  refine (List.Perm.mem_iff hperm).trans ?_
  rw [List.mem_dedup, List.mem_map]

/-- Where the backend contract is met, every summary is of the requested backend. -/
theorem aggregate_contractMet (h : (aggregate a dir mode).contractMet = true) (hs : s ∈ qualifiedSummaries a dir mode) :
    s.selectedBackend = a.requestedBackend := by
  have hcontract := of_decide_eq_true h
  apply hcontract.1
  rw [List.mem_dedup, List.mem_map]
  exact ⟨s, hs, rfl⟩

theorem reportState_eq_qualified {complete canaryPassed failed measured : Bool} {mismatches : Nat} :
    reportState mode complete canaryPassed mismatches failed measured = .qualified ↔ mode = .canary ∧ canaryPassed = true := by
  unfold reportState
  split_ifs with h <;> simp [h]

theorem reportState_eq_measuredComplete {complete canaryPassed failed measured : Bool} {mismatches : Nat} :
    reportState mode complete canaryPassed mismatches failed measured = .measuredComplete ↔
      mode = .full ∧ complete = true ∧ mismatches = 0 := by
  unfold reportState
  split_ifs with h h' <;> simp_all

/-- A qualified aggregate is one of a canary, complete, without mismatches and with the backend contract met. -/
theorem aggregate_qualified (h : (aggregate a dir mode).state = .qualified) :
    mode = .canary ∧ (aggregate a dir mode).completeCases = (aggregate a dir mode).expectedCases ∧
      (aggregate a dir mode).decisionMismatches = 0 ∧ (aggregate a dir mode).contractMet = true := by
  obtain ⟨hmode, hpassed⟩ := reportState_eq_qualified.mp h
  simp only [Bool.and_eq_true, beq_iff_eq] at hpassed
  obtain ⟨⟨⟨⟨hcomplete, -⟩, hmismatches⟩, hcontract⟩, -⟩ := hpassed
  exact ⟨hmode, hcomplete, hmismatches, hcontract⟩

theorem aggregate_measuredComplete (h : (aggregate a dir mode).state = .measuredComplete) :
    mode = .full ∧ (aggregate a dir mode).completeCases = (aggregate a dir mode).expectedCases ∧
      (aggregate a dir mode).decisionMismatches = 0 := by
  obtain ⟨hmode, hcomplete, hmismatches⟩ := reportState_eq_measuredComplete.mp h
  simp only [Bool.and_eq_true, beq_iff_eq] at hcomplete
  exact ⟨hmode, hcomplete.1, hmismatches⟩

/-- A terminal aggregate is complete and without mismatches. -/
theorem aggregate_terminal (h : (aggregate a dir mode).Terminal) :
    (aggregate a dir mode).completeCases = (aggregate a dir mode).expectedCases ∧
      (aggregate a dir mode).decisionMismatches = 0 := by
  obtain h | h := h
  · exact (aggregate_qualified h).2.imp_right And.left
  · exact (aggregate_measuredComplete h).2

theorem aggregate_complete (h : (aggregate a dir mode).completeCases = (aggregate a dir mode).expectedCases)
    (hc : c ∈ expectedCases a.campaign mode) :
    ∃ s, dir.summaries a.campaign.sourceRunId c = some s ∧ s.state = .qualified := by
  have hsome := List.filterMap_length_eq_length.mp h c hc
  obtain ⟨s, hs⟩ := Option.isSome_iff_exists.mp hsome
  exact ⟨s, qualifiedSummary_eq_some.mp hs⟩

/-- The summaries of a complete aggregate are one for each expected case. -/
theorem qualifiedSummaries_eq_map {summaryOf : Case → Summary}
    (h : ∀ c ∈ expectedCases a.campaign mode, dir.summaries a.campaign.sourceRunId c = some (summaryOf c) ∧
      (summaryOf c).state = .qualified) :
    qualifiedSummaries a dir mode = (expectedCases a.campaign mode).map summaryOf := by
  unfold qualifiedSummaries
  rw [← List.filterMap_eq_map]
  apply List.filterMap_congr
  intro c hc
  exact qualifiedSummary_eq_some.mpr (h c hc)

theorem mem_pendingCases (functionsHashed : Case → Nat) : c ∈ (pendingCases a dir mode functionsHashed).map Prod.fst ↔
    c ∈ expectedCases a.campaign mode ∧ ∀ s, dir.summaries a.campaign.sourceRunId c = some s →
      ¬ Reusable a.campaign c a.method.authoritySha256 a.method.selected s := by
  unfold pendingCases
  rw [List.map_map, List.mem_map]
  simp only [Function.comp_apply, exists_eq_right, List.mem_filter, Bool.not_eq_true', Option.any_eq_false, decide_eq_false_iff_not]

theorem modeWorkers_pos : 0 < modeWorkers a mode := by
  have hpos := a.campaign.canaryWorkers_pos
  have hle := a.campaign.canaryWorkers_le
  cases mode with
  | canary => exact hpos
  | full => exact Nat.lt_of_lt_of_le hpos hle

/-- The chunks hold every expected case that no summary stands for, and no other. -/
theorem mem_scheduledCaseChunks {functionsHashed : Case → Nat} :
    (∃ chunk ∈ scheduledCaseChunks a dir mode functionsHashed, c ∈ chunk.cases) ↔
    c ∈ expectedCases a.campaign mode ∧ ∀ s, dir.summaries a.campaign.sourceRunId c = some s →
      ¬ Reusable a.campaign c a.method.authoritySha256 a.method.selected s := by
  rw [← mem_pendingCases functionsHashed]
  have hworkers : 0 < modeWorkers a mode := modeWorkers_pos
  have hperm := balancedCaseChunks_cases (pendingCases a dir mode functionsHashed) hworkers
  rw [← hperm.mem_iff, List.mem_flatMap]
  rfl

end Aggregates

end FidbPoc.Campaigns
