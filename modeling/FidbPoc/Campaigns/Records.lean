import Mathlib.Algebra.Order.Ring.Nat
import Mathlib.Data.List.Sort
import Mathlib.Data.List.Dedup

namespace FidbPoc.Campaigns

inductive Fold
  | A
  | B
  deriving DecidableEq

inductive Mode
  | canary
  | full
  deriving DecidableEq

structure Case where
  position : Nat
  fold : Fold
  deriving DecidableEq

def Case.label (c : Case) : String :=
  toString c.position ++ ":" ++ (match c.fold with | .A => "A" | .B => "B")

/-- The engines an authority may ask for; the first is the older name of the second. -/
inductive Engine
  | compactSelectedBackend
  | alphaEngine1
  | alphaEngine2
  deriving DecidableEq

def Engine.normalized : Engine → Engine
  | .compactSelectedBackend => .alphaEngine1
  | engine => engine

/-- What the campaign file says. -/
structure Campaign where
  sourceRunId : String
  authoritySha256 : String
  engine : Engine
  requiredLinkHarness : String
  /-- no reference population is declared -/
  legacyDefault : Bool
  workers : Nat
  canaryCases : List Case
  canaryWorkers : Nat
  autoChainFull : Bool
  /-- whether the labelled part of so many functions reaches `minimum_truth_coverage` -/
  meetsTruthCoverage : (labelled unlabelled : Nat) → Bool
  canaryCases_ne : canaryCases ≠ []
  canaryWorkers_pos : 0 < canaryWorkers
  canaryWorkers_le : canaryWorkers ≤ workers

/-- What the matching authority says: the digest of the method, its selected backend, and its backend on each device. -/
structure Method where
  authoritySha256 : String
  selected : String
  cpu : String
  gpu : String
  cpu_ne_gpu : cpu ≠ gpu
  selected_mem : selected = cpu ∨ selected = gpu

inductive PerformanceMode
  | auto
  | cpu
  | gpu
  deriving DecidableEq

structure Performance where
  mode : PerformanceMode
  allowGpu : Bool

/-- The authority files in force. -/
structure Authorities where
  campaign : Campaign
  method : Method
  performance : Performance

def selectedBackendId (performance : Performance) (method : Method) : String :=
  if performance.mode = .cpu ∨ performance.allowGpu = false then method.cpu else method.gpu

def Authorities.requestedBackend (a : Authorities) : String := selectedBackendId a.performance a.method

structure Matrix where
  truePositives : Nat
  falsePositives : Nat
  trueNegatives : Nat
  falseNegatives : Nat
  deriving DecidableEq

instance : Zero Matrix := ⟨⟨0, 0, 0, 0⟩⟩

instance : Add Matrix :=
  ⟨fun m n => ⟨m.truePositives + n.truePositives, m.falsePositives + n.falsePositives,
    m.trueNegatives + n.trueNegatives, m.falseNegatives + n.falseNegatives⟩⟩

/-- What comparing the decisions of a backend with the native oracle came to. -/
structure Comparison where
  backend : String
  decisionMismatches : Nat
  deriving DecidableEq

def Comparison.equivalent (row : Comparison) : Bool := row.decisionMismatches == 0

inductive SummaryState
  | qualified
  | mismatch
  deriving DecidableEq

/-- The summary file of a case. -/
structure Summary where
  state : SummaryState
  /-- the digest of the method authority -/
  authoritySha256 : String
  selectedBackend : String
  requestedBackend : String
  matchingEngine : Option Engine
  fallbackReason : Option String
  runId : String
  caseId : Case
  linkHarnessPolicy : String
  campaignAuthoritySha256 : String
  populationSha256 : String
  confusionMatrix : Matrix
  labelledFunctions : Nat
  unlabelledFunctions : Nat
  comparisons : List Comparison
  deriving DecidableEq

/-- What running the matcher on a case comes to, apart from what the authorities say. -/
structure Execution where
  /-- why the CPU backend had to step in for the GPU backend -/
  fallbackReason : Option String
  populationSha256 : String
  confusionMatrix : Matrix
  labelledFunctions : Nat
  unlabelledFunctions : Nat
  /-- where the decisions differ from those of the native oracle -/
  decisionMismatches : Nat

section Cases

variable (a : Authorities)

/-- Only the GPU backend falls back. -/
def Execution.backend (execution : Execution) : String :=
  if execution.fallbackReason.isSome then a.method.cpu else a.requestedBackend

def caseSummary (c : Case) (execution : Execution) (comparisons : List Comparison) : Summary where
  state := if comparisons.all Comparison.equivalent then .qualified else .mismatch
  authoritySha256 := a.method.authoritySha256
  selectedBackend := execution.backend a
  requestedBackend := a.requestedBackend
  matchingEngine := some a.campaign.engine.normalized
  fallbackReason := execution.fallbackReason
  runId := a.campaign.sourceRunId
  caseId := c
  linkHarnessPolicy := a.campaign.requiredLinkHarness
  campaignAuthoritySha256 := a.campaign.authoritySha256
  populationSha256 := execution.populationSha256
  confusionMatrix := execution.confusionMatrix
  labelledFunctions := execution.labelledFunctions
  unlabelledFunctions := execution.unlabelledFunctions
  comparisons

def compareWithOracle (execution : Execution) : Comparison :=
  ⟨execution.backend a, execution.decisionMismatches⟩

def qualifyRetainedValidation (c : Case) (execution : Execution) : Summary :=
  caseSummary a c execution [compareWithOracle a execution]

/-- The decisions are compared only where a retained oracle is replayed. -/
def runCompactRetainedValidation (oracleReplaySource : Bool) (c : Case) (execution : Execution) : Summary :=
  caseSummary a c execution (if oracleReplaySource then [compareWithOracle a execution] else [])

/-- The summary that a worker leaves of a case. -/
def workerSummary (mode : Mode) (c : Case) (execution : Execution) : Summary :=
  if mode = .canary ∧ a.campaign.legacyDefault = false then qualifyRetainedValidation a c execution
  else runCompactRetainedValidation a (mode = .canary) c execution

end Cases

/-- Whether an earlier summary stands for a case. -/
structure Reusable (campaign : Campaign) (c : Case) (methodSha256 selectedBackend : String) (previous : Summary) : Prop where
  qualified : previous.state = .qualified
  method : previous.authoritySha256 = methodSha256
  backend : previous.selectedBackend = selectedBackend
  engine : if campaign.engine.normalized = .alphaEngine1 then previous.matchingEngine ∈ [none, some .alphaEngine1]
    else previous.matchingEngine = some campaign.engine.normalized
  runId : previous.runId = campaign.sourceRunId
  caseId : previous.caseId = c
  linkHarness : previous.linkHarnessPolicy = campaign.requiredLinkHarness
  authority : campaign.legacyDefault = true ∨ previous.campaignAuthoritySha256 = campaign.authoritySha256

instance (campaign : Campaign) (c : Case) (methodSha256 selectedBackend : String) (previous : Summary) :
    Decidable (Reusable campaign c methodSha256 selectedBackend previous) :=
  decidable_of_iff
    (previous.state = .qualified ∧ previous.authoritySha256 = methodSha256 ∧ previous.selectedBackend = selectedBackend ∧
      (if campaign.engine.normalized = .alphaEngine1 then previous.matchingEngine ∈ [none, some .alphaEngine1]
        else previous.matchingEngine = some campaign.engine.normalized) ∧
      previous.runId = campaign.sourceRunId ∧ previous.caseId = c ∧
      previous.linkHarnessPolicy = campaign.requiredLinkHarness ∧
      (campaign.legacyDefault = true ∨ previous.campaignAuthoritySha256 = campaign.authoritySha256))
    ⟨fun ⟨h₁, h₂, h₃, h₄, h₅, h₆, h₇, h₈⟩ => ⟨h₁, h₂, h₃, h₄, h₅, h₆, h₇, h₈⟩,
      fun ⟨h₁, h₂, h₃, h₄, h₅, h₆, h₇, h₈⟩ => ⟨h₁, h₂, h₃, h₄, h₅, h₆, h₇, h₈⟩⟩

def fullCases : List Case := (List.range 222).flatMap fun n => [⟨n + 1, .A⟩, ⟨n + 1, .B⟩]

def expectedCases (campaign : Campaign) : Mode → List Case
  | .canary => campaign.canaryCases
  | .full => fullCases

/-- The largest query first, ties in the order of the labels. -/
def Earlier (x y : Case × Nat) : Prop := y.2 < x.2 ∨ x.2 = y.2 ∧ x.1.label ≤ y.1.label

instance : DecidableRel Earlier := fun x y =>
  inferInstanceAs (Decidable (y.2 < x.2 ∨ x.2 = y.2 ∧ x.1.label ≤ y.1.label))

/-- The cases given to one worker, with their load. -/
structure Chunk where
  cases : List Case
  load : Nat
  deriving DecidableEq

/-- The first chunk of the least load takes the case. -/
def place (chunks : List Chunk) (row : Case × Nat) : List Chunk :=
  match chunks with
  | [] => []
  | chunk :: rest =>
    if ∀ other ∈ rest, chunk.load ≤ other.load then ⟨chunk.cases ++ [row.1], chunk.load + row.2⟩ :: rest
    else chunk :: place rest row

def balancedCaseChunks (weightedCases : List (Case × Nat)) (workers : Nat) : List Chunk :=
  (weightedCases.insertionSort Earlier).foldl place
    (List.replicate (min workers weightedCases.length) ⟨[], 0⟩)

section Authorities

variable {a : Authorities} {mode : Mode} {c : Case} {execution : Execution} {s : Summary} {method backend : String}

theorem workerSummary_eq : workerSummary a mode c execution =
    caseSummary a c execution (if mode = .canary then [compareWithOracle a execution] else []) := by
  unfold workerSummary qualifyRetainedValidation runCompactRetainedValidation
  by_cases hmode : mode = .canary
  · by_cases hdefault : a.campaign.legacyDefault = false <;> simp [hmode, hdefault]
  · simp [hmode]

@[simp] theorem workerSummary_authoritySha256 :
    (workerSummary a mode c execution).authoritySha256 = a.method.authoritySha256 := by
  simp [workerSummary_eq, caseSummary]

theorem workerSummary_comparisons : (workerSummary a mode c execution).comparisons =
    if mode = .canary then [compareWithOracle a execution] else [] := by
  simp [workerSummary_eq, caseSummary]

/-- A qualified summary of a worker stands for its case, under the backend that ran. -/
theorem workerSummary_reusable (hqualified : (workerSummary a mode c execution).state = .qualified) :
    Reusable a.campaign c a.method.authoritySha256 (execution.backend a) (workerSummary a mode c execution) := by
  rw [workerSummary_eq] at hqualified ⊢
  have hengine : if a.campaign.engine.normalized = .alphaEngine1
      then some a.campaign.engine.normalized ∈ [none, some Engine.alphaEngine1]
      else some a.campaign.engine.normalized = some a.campaign.engine.normalized := by
    split
    · rename_i halpha
      simp [halpha]
    · rfl
  exact ⟨hqualified, rfl, rfl, hengine, rfl, rfl, rfl, .inr rfl⟩

end Authorities

section Chunks

variable {weighted : List (Case × Nat)} {workers : Nat}

theorem place_cases (chunks : List Chunk) (row : Case × Nat) (hchunks : chunks ≠ []) :
    ((place chunks row).flatMap Chunk.cases).Perm (row.1 :: chunks.flatMap Chunk.cases) := by
  induction chunks with
  | nil => exact absurd rfl hchunks
  | cons chunk rest ih =>
    unfold place
    split
    · simp only [List.flatMap_cons, List.append_assoc, List.singleton_append]
      exact List.perm_middle
    · rename_i hleast
      have hrest : rest ≠ [] := by
        rintro rfl
        simp at hleast
      simp only [List.flatMap_cons]
      exact ((ih hrest).append_left _).trans List.perm_middle

theorem place_ne_nil (chunks : List Chunk) (row : Case × Nat) : place chunks row = [] ↔ chunks = [] := by
  cases chunks with
  | nil => simp [place]
  | cons chunk rest =>
    unfold place
    split <;> simp

theorem foldl_place_cases (rows : List (Case × Nat)) (chunks : List Chunk) (hchunks : chunks ≠ []) :
    ((rows.foldl place chunks).flatMap Chunk.cases).Perm (rows.map Prod.fst ++ chunks.flatMap Chunk.cases) := by
  induction rows generalizing chunks with
  | nil => simp
  | cons row rows ih =>
    have hplaced : place chunks row ≠ [] := fun h => hchunks ((place_ne_nil chunks row).mp h)
    refine (ih _ hplaced).trans ?_
    refine ((place_cases chunks row hchunks).append_left _).trans ?_
    exact List.perm_middle

/-- The chunks give every case to one worker. -/
theorem balancedCaseChunks_cases (weighted : List (Case × Nat)) (hworkers : 0 < workers) :
    ((balancedCaseChunks weighted workers).flatMap Chunk.cases).Perm (weighted.map Prod.fst) := by
  unfold balancedCaseChunks
  have hsorted := List.perm_insertionSort Earlier weighted
  by_cases hempty : weighted = []
  · subst hempty
    simp
  · have hlength : 0 < weighted.length := List.length_pos_iff.mpr hempty
    have hne : List.replicate (min workers weighted.length) (⟨[], 0⟩ : Chunk) ≠ [] := by
      rw [Ne, List.replicate_eq_nil_iff]
      omega
    refine (foldl_place_cases _ _ hne).trans ?_
    have hnone : (List.replicate (min workers weighted.length) (⟨[], 0⟩ : Chunk)).flatMap Chunk.cases = [] := by
      rw [List.flatMap_eq_nil_iff]
      intro chunk hchunk
      rw [List.eq_of_mem_replicate hchunk]
    rw [hnone, List.append_nil]
    exact hsorted.map _

theorem balancedCaseChunks_eq_nil (hworkers : 0 < workers) :
    balancedCaseChunks weighted workers = [] ↔ weighted = [] := by
  constructor
  · intro h
    have hperm := balancedCaseChunks_cases weighted hworkers
    rw [h] at hperm
    exact List.map_eq_nil_iff.mp hperm.symm.eq_nil
  · rintro rfl
    simp [balancedCaseChunks]

theorem foldl_place_one (rows : List (Case × Nat)) (cases : List Case) (load : Nat) :
    rows.foldl place [⟨cases, load⟩] = [⟨cases ++ rows.map Prod.fst, load + (rows.map Prod.snd).sum⟩] := by
  induction rows generalizing cases load with
  | nil => simp
  | cons row rows ih => simp [place, ih, Nat.add_assoc]

/-- One worker takes the cases in their order. -/
theorem balancedCaseChunks_one (hne : weighted ≠ []) : balancedCaseChunks weighted 1 =
    [⟨(weighted.insertionSort Earlier).map Prod.fst, ((weighted.insertionSort Earlier).map Prod.snd).sum⟩] := by
  have hlength : min 1 weighted.length = 1 := by
    have hpos := List.length_pos_iff.mpr hne
    omega
  unfold balancedCaseChunks
  rw [hlength, List.replicate_one, foldl_place_one, List.nil_append, Nat.zero_add]

end Chunks

end FidbPoc.Campaigns
