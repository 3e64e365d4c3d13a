import FidbPoc.Lib.TomlTables
import FidbPoc.Width.Identity
import Mathlib.Data.Finset.Card

namespace FidbPoc.Width.Pinning

open FidbPoc.Lib FidbPoc.Lib.Checked FidbPoc.Lib.Toml FidbPoc.Lib.TomlTables

section Authority

structure Randomization where
  method : String
  algorithm : String
  seed : String
  canonicalIds : List String
  foldA : List String
  foldB : List String

structure Batch where
  automaticMaterialization : Bool
  automaticScheduling : Bool
  schedulerRegistry : String
  productionQueueMutation : Bool
  firstRunRequiresCanary : Bool
  outputRoot : String
  inputStrategy : String
  harnessMode : String
  executeTargetBinaries : Bool
  truthCopy : String
  queryCopy : String
  exactInclusionSanity : String
  trigger : String

structure HashDiscriminationJob where
  id : String
  kind : String
  automatic : Bool
  requiredForRunCompletion : Bool
  methodAuthority : String
  corpusAuthority : String
  backendAuthority : String
  stages : List String
  outputs : List String
  methodAuthoritySha256 : String
  corpusAuthoritySha256 : String
  backendAuthoritySha256 : String

/-- What `load_machine_validation` accepts. -/
structure Authority where
  id : String
  label : String
  languageId : String
  batchKind : String
  sourcePack : String
  sourcePackSha256 : String
  widthAuthority : String
  cohortSize : Nat
  baseline : Nat
  reportGlob : String
  randomization : Randomization
  batch : Batch
  primaryProjections : List String
  hashDiscriminationJob : HashDiscriminationJob
  authorityPath : String
  authoritySha256 : String
  baselineFixed : baseline = 222

/-- The reviewed files of a validation, as their loaders return them. -/
structure ReviewedFiles extends WidthFiles where
  validation : Result Authority
  inside : String → Result String

end Authority

section Live

structure Results where
  state : String
  reportPath : Option String

/-- What may change between two runs while the reviewed files stay: the toolchains of the host, the evidence of the cohort,
the reports and the scheduler's registry. -/
structure LiveState where
  host : Host
  evidence : String → Finset (String × String)
  evidenceSources : List (String × String)
  validationResults : String → String → Results
  scheduleState : String → String → String

end Live

section Status

structure Identity where
  routeId : String
  profileId : String
  treatmentId : Option String
  deriving DecidableEq

/-- `str(row["treatment_id"])` -/
def Identity.treatment (identity : Identity) : String := identity.treatmentId.getD "None"

def widthIdentities (width : CWidth) : List Identity :=
  (selectedPairs width.applicability).map fun row => ⟨row.routeId, row.profileId, row.treatmentId⟩

def expectedPairs (identities : List Identity) : Finset (String × String) :=
  (identities.map fun row => (row.routeId, row.treatment)).toFinset

structure LibraryRow where
  id : String
  fold : String
  state : String
  completedExactIdentities : Nat
  requiredExactIdentities : Nat
  missingExactIdentities : Nat

def libraryRow (randomization : Randomization) (expected : Finset (String × String)) (evidence : String → Finset (String × String))
    (identity : String) : LibraryRow :=
  let completed := (expected ∩ evidence identity).card
  { id := identity
    fold := if identity ∈ randomization.foldB then "B" else "A"
    state := if completed = expected.card then "complete" else if completed ≠ 0 then "building" else "not-started"
    completedExactIdentities := completed
    requiredExactIdentities := expected.card
    missingExactIdentities := expected.card - completed }

structure Authorities where
  sourcePack : String
  sourcePackSha256 : String
  width : String
  widthCompilationDigest : String
  hashMethod : String
  hashMethodSha256 : String
  corpusIndex : String
  corpusIndexSha256 : String
  hashBackends : String
  hashBackendsSha256 : String

structure ValidationSummary where
  cohortLibraries : Nat
  completeLibraries : Nat
  exactIdentities : Nat
  baselineExactIdentities : Nat
  widthDeltaFromBaseline : Nat
  completedExactInputs : Nat
  requiredExactInputs : Nat
  workUnits : Nat
  compositePrograms : Nat
  queryProjections : Nat

structure Readiness where
  eligible : Bool
  queueState : String
  blockers : List String

structure Stage where
  id : String
  state : String

structure Status where
  id : String
  label : String
  state : String
  languageId : String
  batchKind : String
  authorityPath : String
  authoritySha256 : String
  authorities : Authorities
  randomization : Randomization
  batch : Batch
  primaryProjections : List String
  hashDiscriminationJob : HashDiscriminationJob
  summary : ValidationSummary
  readiness : Readiness
  libraries : List LibraryRow
  stages : List Stage
  widthIdentities : List Identity
  evidenceSources : List (String × String)
  results : Results

def stages (eligible : Bool) (results : Results) : List Stage :=
  let postprocess :=
    if results.state = "measured-complete" then "complete" else if eligible then "not-run" else "blocked"
  [⟨"cohort-evidence", if eligible then "complete" else "in-progress"⟩,
    ⟨"frozen-random-split", "complete"⟩,
    ⟨"materialize-validation-batch", if eligible then "ready-disarmed" else "blocked"⟩,
    ⟨"composite-build-analysis", if eligible then "not-run" else "blocked"⟩,
    ⟨"hash-discrimination-job", postprocess⟩,
    ⟨"retention", postprocess⟩]

/-- The status of an authority over a compiled width. -/
def validationStatus (compilationDigest : CWidth → String) (authority : Authority) (width : CWidth) (live : LiveState) :
    Status :=
  let identities := widthIdentities width
  let expected := expectedPairs identities
  let required := expected.card
  let libraries := authority.randomization.canonicalIds.map (libraryRow authority.randomization expected live.evidence)
  let completeLibraries := libraries.countP fun row => row.state = "complete"
  let completedInputs := (libraries.map LibraryRow.completedExactIdentities).sum
  let eligible : Bool := completeLibraries = authority.cohortSize
  let results := live.validationResults authority.reportGlob authority.id
  let job := authority.hashDiscriminationJob
  { id := authority.id
    label := authority.label
    state := if eligible then "eligible-disarmed" else "waiting-for-cohort"
    languageId := authority.languageId
    batchKind := authority.batchKind
    authorityPath := authority.authorityPath
    authoritySha256 := authority.authoritySha256
    authorities := {
      sourcePack := authority.sourcePack
      sourcePackSha256 := authority.sourcePackSha256
      width := authority.widthAuthority
      widthCompilationDigest := compilationDigest width
      hashMethod := job.methodAuthority
      hashMethodSha256 := job.methodAuthoritySha256
      corpusIndex := job.corpusAuthority
      corpusIndexSha256 := job.corpusAuthoritySha256
      hashBackends := job.backendAuthority
      hashBackendsSha256 := job.backendAuthoritySha256 }
    randomization := authority.randomization
    batch := authority.batch
    primaryProjections := authority.primaryProjections
    hashDiscriminationJob := job
    summary := {
      cohortLibraries := authority.cohortSize
      completeLibraries := completeLibraries
      exactIdentities := required
      baselineExactIdentities := authority.baseline
      widthDeltaFromBaseline := required - authority.baseline
      completedExactInputs := completedInputs
      requiredExactInputs := authority.cohortSize * required
      workUnits := required
      compositePrograms := required * 2
      queryProjections := required * 2 * authority.primaryProjections.length }
    readiness := {
      eligible := eligible
      queueState := live.scheduleState authority.batch.schedulerRegistry authority.id
      blockers :=
        if eligible then []
        else
          [toString (authority.cohortSize - completeLibraries) ++ " of " ++ toString authority.cohortSize ++
              " libraries still lack complete " ++ toString required ++ "-identity evidence",
            toString (authority.cohortSize * required - completedInputs) ++ " exact library/identity inputs remain"] }
    libraries := libraries
    stages := stages eligible results
    widthIdentities := identities
    evidenceSources := live.evidenceSources
    results := results }

def regressed (baseline : Nat) (identities : List Identity) : String :=
  "machine-validation applicable width regressed below its " ++ toString baseline ++ "-identity baseline: compiled " ++
    toString identities.length ++ " rows / " ++ toString (expectedPairs identities).card ++ " pairs"

/-- `Path(path).stem` -/
def widthId (path : String) : String := stem ((Patterns.parts path).getLastD "")

def compileMachineValidation (compilationDigest : CWidth → String) (files : ReviewedFiles) (live : LiveState) :
    Result Status := do
  let authority ← files.validation
  let width ← compileCWidth live.host files.toWidthFiles (widthId authority.widthAuthority)
  let identities := widthIdentities width
  require (identities.length = (expectedPairs identities).card ∧ authority.baseline ≤ (expectedPairs identities).card)
    (regressed authority.baseline identities)
  pure (validationStatus compilationDigest authority width live)

end Status

end FidbPoc.Width.Pinning
