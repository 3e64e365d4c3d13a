import FidbPoc.Retention.Failures

namespace FidbPoc.Retention

open FidbPoc.Lib FidbPoc.Lib.Checked FidbPoc.Lib.Patterns

/-- `value in {"canary", "full"}`, which needs a hash of the value. -/
def modeOf (value : Option Json) : Result Mode := do
  require (value.all Json.hashable) (.type "unhashable type")
  if value.any (Json.isText "canary") then pure .canary
  else if value.any (Json.isText "full") then pure .full
  else raiseRetention "validation status has an unsupported mode"

def modeText : Mode → String
  | .canary => "canary"
  | .full => "full"

def reportSchema : Mode → String
  | .canary => "fidb-machine-validation-canary/v1"
  | .full => "fidb-machine-validation-hash-report/v1"

structure RunStatus where
  document : Json.Fields
  mode : Mode
  expectedUnits : Int

/-- A file that a document names by a text, which has to lie in the run. -/
def runFile (t : Files) (policy : RetentionPolicy) (runRoot : Path) (value : Option Json) (missing label escapes : String) :
    Result Path := do
  let value ← (value.bind Json.str?).elim (raiseRetention missing) .ok
  let path ← safeRegular t policy.root (candidate policy.root value) label
  require (runRoot <+: path) (.retention escapes)
  pure path

/-- Add a file to the evidence of a run. -/
def retain (t : Files) (policy : RetentionPolicy) (runRoot path : Path) (label : String) : Result RetainedFile := do
  let regular ← safeRegular t policy.root path label
  require (runRoot <+: regular) (.retention s!"{label} escapes its validation run")
  let file ← fileAt t regular
  pure ⟨regular.drop runRoot.length, file.sha256, file.size⟩

def readStatus (t : Files) (policy : RetentionPolicy) (runRoot : Path) : Result RunStatus := do
  let path ← safeRegular t policy.root (runRoot ++ ["status.json"]) "validation status"
  let document ← loadJson t path "validation status"
  require ((document.get? "schema_version").any (Json.isText "fidb-machine-validation-run-status/v1") ∧
      (document.get? "state").any (Json.isText "complete"))
    (.retention "validation status is not terminal-complete")
  let mode ← modeOf (document.get? "mode")
  match (document.get? "expected_work_units").bind Json.int? with
  | none => raiseRetention "validation status does not prove every work unit complete"
  | some expectedUnits =>
    require (1 ≤ expectedUnits ∧ (document.get? "complete_work_units").any (Json.isNumber expectedUnits) ∧
        (document.get? "failed_work_units").any (Json.isNumber 0))
      (.retention "validation status does not prove every work unit complete")
    pure ⟨document, mode, expectedUnits⟩

def bindsReport (report : Json.Fields) (status : RunStatus) : Bool :=
  (report.get? "schema_version").any (Json.isText (reportSchema status.mode)) &&
  (report.get? "state").any (Json.isText "measured-complete") &&
  Json.sameOption (report.get? "validation_id") (status.document.get? "validation_id") &&
  ((report.get? "metrics").bind Json.fields?).any fun metrics =>
    (metrics.get? "expected_work_units").any (Json.isNumber status.expectedUnits) &&
    (metrics.get? "complete_work_units").any (Json.isNumber status.expectedUnits) &&
    (metrics.get? "failed_work_units").any (Json.isNumber 0)

structure RunReport where
  path : Path
  document : Json.Fields

def readReport (t : Files) (policy : RetentionPolicy) (runRoot : Path) (status : RunStatus) : Result RunReport := do
  let path ← runFile t policy runRoot (status.document.get? "report_path") "validation status has no report path"
    "validation terminal report" "validation report escapes its run root"
  let document ← loadJson t path "validation terminal report"
  require (bindsReport document status) (.retention "validation report does not bind a complete run")
  pure ⟨path, document⟩

/-- The evidence that a full run's report names: its database, and the report of a GPU comparison. -/
def hashEvidence (t : Files) (policy : RetentionPolicy) (runRoot : Path) (report : Json.Fields) :
    Result (List RetainedFile) := do
  let evidence := (report.get? "hash_evidence").bind Json.fields?
  let path ← runFile t policy runRoot (evidence.bind (·.get? "database_path"))
    "validation hash report has no evidence database" "validation hash evidence database"
    "validation hash evidence database escapes its run root"
  let file ← fileAt t path
  require ((evidence.bind (·.get? "database_sha256")).any (Json.isText file.sha256.text))
    (.retention "validation hash evidence digest does not match report")
  let database ← retain t policy runRoot path "validation hash evidence database"
  match (report.get? "gpu_comparison").bind Json.fields? with
  | none => pure [database]
  | some gpu =>
    let path ← runFile t policy runRoot (gpu.get? "report_path")
      "validation hash report has no GPU comparison evidence" "validation GPU comparison report"
      "validation GPU comparison report escapes its run root"
    let comparison ← retain t policy runRoot path "validation GPU comparison report"
    pure [database, comparison]

/-- `sorted((run_root / "units").glob("*/result.json"))`. -/
def resultPaths (t : Files) (runRoot : Path) : List Path :=
  let units := runRoot ++ ["units"]
  (((t.listing units).filter fun name =>
    t.isDirectory (units ++ [name]) && t.exists? (units ++ [name, "result.json"])).insertionSort
      fun a b => a ≤ b).map fun name => units ++ [name, "result.json"]

/-- What one fold, or several, add to the evidence of a run. -/
structure FoldEvidence where
  retained : List RetainedFile
  compositePaths : List Path
  blocked : Bool

namespace FoldEvidence

def append (a b : FoldEvidence) : FoldEvidence :=
  ⟨a.retained ++ b.retained, a.compositePaths ++ b.compositePaths, a.blocked || b.blocked⟩

def concat (folds : List FoldEvidence) : FoldEvidence := folds.foldr append ⟨[], [], false⟩

end FoldEvidence

/-- The directory of a fold, and its fields. -/
structure Fold where
  root : Path
  fields : Json.Fields

def readFold (t : Files) (resultPath : Path) (fold : Json) : Result Fold := do
  let fields ← fold.fields?.elim
    (raiseRetention s!"validation unit has invalid fold evidence: {showPath resultPath}") .ok
  let letter := fields.get? "fold"
  require (letter.all Json.hashable) (.type "unhashable type")
  match letter.bind Json.str? with
  | none => raiseRetention s!"validation unit has invalid fold evidence: {showPath resultPath}"
  | some letter =>
    require (letter ∈ ["A", "B"])
      (.retention s!"validation unit has invalid fold evidence: {showPath resultPath}")
    let root := resultPath.dropLast ++ ["fold-" ++ letter]
    require (t.isDirectory root ∧ t.isSymlink root = false)
      (.retention s!"validation fold directory is unavailable: {showPath root}")
    pure ⟨root, fields⟩

/-- Whether a fold binds the signatures that are kept with it. -/
def bindsSignatures (t : Files) (policy : RetentionPolicy) (fold : Fold) : Result Bool :=
  match (fold.fields.get? "signature_summary").bind Json.fields? with
  | none => pure false
  | some summary =>
    if "query-signatures.jsonl" ∈ policy.validationRequiredFoldArtifacts then do
      let file ← fileAt t (fold.root ++ ["query-signatures.jsonl"])
      pure ((summary.get? "evidence_schema").any (Json.isText policy.validationRequiredSignatureEvidenceSchema) &&
        (summary.get? "artifact_sha256").any (Json.isText file.sha256.text) &&
        (summary.get? "artifact_bytes").any (Json.isNumber file.size))
    else pure false

def relationReceiptPath (fold : Fold) : Path := fold.root ++ ["relationship-evidence.json"]

/-- The file that a receipt's evidence names, if it names one. -/
def relationPath (t : Files) (policy : RetentionPolicy) (receipt : Json.Fields) : Result (Option Path) :=
  match ((receipt.get? "evidence").bind Json.fields?).bind (·.get? "path") with
  | some (.str value) => do
    let path ← safeRegular t policy.root (candidate policy.root value) "validation relationship evidence"
    pure (some path)
  | _ => pure none

def bindsRoute (receipt result fold : Json.Fields) : Bool :=
  (receipt.get? "schema_version").any (Json.isText "fidb-query-relationship-evidence/v1") &&
  Json.sameOption (receipt.get? "query_sha256") (fold.get? "query_sha256") &&
  Json.sameOption (receipt.get? "route_id") (result.get? "route_id") &&
  Json.sameOption (receipt.get? "treatment_id") (result.get? "treatment_id")

/-- Whether a receipt binds a file beside it; an `evidence` that is no object has no
`get`, and is asked for it only when the rest binds. -/
def bindsRelation (t : Files) (policy : RetentionPolicy) (result : Json.Fields) (fold : Fold) (receipt : Json.Fields)
    (path : Option Path) : Result Bool := do
  if bindsRoute receipt result fold.fields then
    let relation ← match receipt.get? "evidence" with
      | none => pure []
      | some relation => relation.fields?.elim (.error (.attribute "get")) .ok
    if (Json.Fields.get? relation "schema_version").any
        (Json.isText policy.validationRequiredSignatureEvidenceSchema) then
      match path with
      | none => pure false
      | some path =>
        if path.dropLast = fold.root then
          let file ← fileAt t path
          pure ((Json.Fields.get? relation "sha256").any (Json.isText file.sha256.text) &&
            (Json.Fields.get? relation "bytes").any (Json.isNumber file.size))
        else pure false
    else pure false
  else pure false

/-- The relationship evidence of a fold: what it retains, if it is complete. -/
def relationEvidence (t : Files) (policy : RetentionPolicy) (runRoot : Path) (result : Json.Fields) (fold : Fold) :
    Result (Option (List RetainedFile)) := do
  let bound ← bindsSignatures t policy fold
  if bound then pure (some [])
  else if t.isFile (relationReceiptPath fold) then
    let regular ← safeRegular t policy.root (relationReceiptPath fold) "validation relationship-evidence receipt"
    let receipt ← loadJson t regular "validation relationship-evidence receipt"
    let path ← relationPath t policy receipt
    let complete ← bindsRelation t policy result fold receipt path
    match complete, path with
    | true, some path =>
      let receiptFile ← retain t policy runRoot (relationReceiptPath fold) "validation relationship-evidence receipt"
      let relationFile ← retain t policy runRoot path "validation relationship signature evidence"
      pure (some [receiptFile, relationFile])
    | _, _ => pure none
  else pure none

/-- The binary of a fold for one stem, which can be an ELF or a DLL. -/
def compositeOf (t : Files) (fold : Fold) (stem : String) : Result (Option Path) :=
  match (["elf", "dll"].map fun suffix => fold.root ++ [stem ++ "." ++ suffix]).filter t.isFile with
  | [] => pure none
  | [composite] => pure (some composite)
  | _ => raiseRetention s!"validation fold has ambiguous {stem} composites: {showPath fold.root}"

def compositeEvidence (t : Files) (policy : RetentionPolicy) (runRoot : Path) (fold : Fold) (complete : Bool)
    (stem : String) : Result FoldEvidence := do
  let composite ← compositeOf t fold stem
  match composite with
  | none => pure ⟨[], [], false⟩
  | some composite =>
    if policy.validationPruneCompositeBinaries ∧ complete then
      let path ← relative t policy.root composite
      pure ⟨[], [path], false⟩
    else
      let file ← retain t policy runRoot composite s!"validation {stem} composite"
      pure ⟨[file], [], false⟩

def foldEvidence (t : Files) (policy : RetentionPolicy) (runRoot resultPath : Path) (result : Json.Fields) (fold : Json) :
    Result FoldEvidence := do
  let fold ← readFold t resultPath fold
  let artifacts ← policy.validationRequiredFoldArtifacts.mapM fun name =>
    retain t policy runRoot (fold.root ++ parts name) s!"validation fold artifact {name}"
  let relation ← relationEvidence t policy runRoot result fold
  let composites ← ["truth", "query"].mapM (compositeEvidence t policy runRoot fold relation.isSome)
  pure (FoldEvidence.append ⟨artifacts ++ relation.getD [], [], !relation.isSome⟩ (.concat composites))

/-- What one work unit adds to the evidence of a run. -/
structure UnitEvidence extends FoldEvidence where
  position : Int
  folds : Nat

/-- The position and the folds of a unit's result, if it is complete. -/
def unitFolds (result : Json.Fields) (mode : Mode) (positions : List Int) : Option (Int × List Json) :=
  match (result.get? "position").bind Json.int?, (result.get? "folds").bind Json.items? with
  | some position, some folds =>
    if (result.get? "schema_version").any (Json.isText "fidb-machine-validation-unit/v1") ∧
        (result.get? "state").any (Json.isText "complete") ∧ (result.get? "mode").any (Json.isText (modeText mode)) ∧
        position ∉ positions ∧ folds ≠ [] then some (position, folds)
    else none
  | _, _ => none

def unitEvidence (t : Files) (policy : RetentionPolicy) (runRoot : Path) (mode : Mode) (positions : List Int)
    (resultPath : Path) : Result UnitEvidence := do
  let regular ← safeRegular t policy.root resultPath "validation unit result"
  let result ← loadJson t regular "validation unit result"
  match unitFolds result mode positions with
  | none => raiseRetention s!"validation unit result is incomplete: {showPath resultPath}"
  | some unit =>
    let file ← retain t policy runRoot resultPath "validation unit result"
    let folds ← unit.2.mapM (foldEvidence t policy runRoot resultPath result)
    pure ⟨FoldEvidence.append ⟨[file], [], false⟩ (.concat folds), unit.1, unit.2.length⟩

/-- The loop over the results; no two units share a position. -/
def unitsEvidence (t : Files) (policy : RetentionPolicy) (runRoot : Path) (mode : Mode) (paths : List Path) :
    Result (List UnitEvidence) :=
  paths.foldlM (fun units path => do
    let next ← unitEvidence t policy runRoot mode (units.map (·.position)) path
    pure (units ++ [next])) []

def pruneBlocker : String := "relationship-complete signature evidence is absent or unbound"

def validationEvidenceRecord (t : Files) (hashing : Hashing) (policy : RetentionPolicy) (runRoot : Path) :
    Result ValidationRecord := do
  let status ← readStatus t policy runRoot
  let report ← readReport t policy runRoot status
  let statusFile ← retain t policy runRoot (runRoot ++ ["status.json"]) "validation status"
  let reportFile ← retain t policy runRoot report.path "validation terminal report"
  let hashFiles ← match status.mode with
    | .canary => pure []
    | .full => hashEvidence t policy runRoot report.document
  let paths := resultPaths t runRoot
  require ((paths.length : Int) = status.expectedUnits)
    (.retention s!"validation run has {paths.length} results, expected {status.expectedUnits}")
  let units ← unitsEvidence t policy runRoot status.mode paths
  require (((units.map (·.position)).dedup.length : Int) = status.expectedUnits)
    (.retention "validation result positions are not unique and complete")
  let validationId ← (status.document.get? "validation_id").elim (.error (.key "validation_id")) .ok
  let reportPath ← relative t policy.root report.path
  let folds := FoldEvidence.concat (units.map (·.toFoldEvidence))
  let retained := statusFile :: reportFile :: hashFiles ++ folds.retained
  pure
    { validationId
      runId := match status.document.get? "run_id" with
        | some runId => if runId.truthy then runId else .str (runRoot.getLast?.getD "")
        | none => .str (runRoot.getLast?.getD "")
      mode := status.mode
      reportPath
      reportSha256 := reportFile.sha256
      expectedWorkUnits := status.expectedUnits
      folds := (units.map (·.folds)).sum
      retained
      retainedEvidenceSha256 := hashing.retained retained
      compositePaths := folds.compositePaths
      compositePruneBlockers := if folds.blocked then [pruneBlocker] else [] }

section Scratch

/-- `sorted(run_root.glob(pattern))` of a pattern with one part. -/
def scratchMatches (t : Files) (runRoot : Path) (pattern : String) : Result (List Path) :=
  match parts pattern with
  | [part] =>
    if part = "**" then pure (t.directoriesBelow runRoot)
    else if ['*', '*'] <:+: part.toList then
      .error (.value "Invalid pattern: '**' can only be an entire path component")
    else if isMagic part then
      pure ((((t.listing runRoot).filter fun name => fnmatch name part).insertionSort fun a b => a ≤ b).map
        fun name => runRoot ++ [name])
    else pure (if t.exists? (runRoot ++ [part]) then [runRoot ++ [part]] else [])
  | _ => pure []

/-- The scratch directories of a run and what they resolve to, or the first match
that is not safe to follow. -/
inductive Scratch
  | selected (scratch seen : List Path)
  | refused (path : Path)

def scanScratch (t : Files) (runRoot : Path) : List Path → List Path → List Path → Result Scratch
  | [], scratch, seen => pure (.selected scratch seen)
  | path :: rest, scratch, seen => do
    let resolved ← (t.resolve path).elim (.error .loop) .ok
    if t.isSymlink path ∨ path.dropLast ≠ runRoot then pure (.refused path)
    else if t.isDirectory path ∧ resolved ∉ seen then scanScratch t runRoot rest (scratch ++ [path]) (seen ++ [resolved])
    else scanScratch t runRoot rest scratch seen

def scratchOf (t : Files) (runRoot : Path) : List String → List Path → List Path → Result Scratch
  | [], scratch, seen => pure (.selected scratch seen)
  | pattern :: rest, scratch, seen => do
    let paths ← scratchMatches t runRoot pattern
    let scanned ← scanScratch t runRoot paths scratch seen
    match scanned with
    | .refused path => pure (.refused path)
    | .selected scratch seen => scratchOf t runRoot rest scratch seen

def totalStats (t : Files) (policy : RetentionPolicy) (paths : List Path) : Result Stats :=
  paths.foldlM (fun stats path => do
    let more ← retentionTargetStats t path policy.maximumScanFiles
    pure (stats.add more)) Stats.zero

/-- One candidate action of a validation run. -/
def pruneCandidate (t : Files) (policy : RetentionPolicy) (runRoot : Path) (quarantineKind : String)
    (action : List Path → Stats → Action) (paths : List Path) : Result Collected :=
  if paths = [] then pure {}
  else do
    let scanned ← catching (totalStats t policy paths)
    match scanned with
    | .error reason =>
      let path ← relative t policy.root runRoot
      pure (.quarantine { kind := quarantineKind, path := some path, reason })
    | .ok stats =>
      let places ← paths.mapM (relative t policy.root)
      pure (.act (action places stats))

end Scratch

/-- `except (OSError, RetentionError)`. -/
def catchingOs {α : Type} : Result α → Result (Except String α)
  | .error (.os message) => .ok (.error message)
  | computed => catching computed

def collectRecord (t : Files) (policy : RetentionPolicy) (runRoot : Path) (record : ValidationRecord) :
    Result Collected := do
  let units ← relative t policy.root (runRoot ++ ["units"])
  let kept : Collected :=
    { preserved :=
        [{ kind := "validation-evidence", path := some units, runId := some record.runId
           reason := if record.compositePruneBlockers = [] then
              "terminal report and compact hash/relationship evidence retained"
            else "legacy composites protected pending relationship-evidence backfill"
           evidenceSha256 := some record.retainedEvidenceSha256 }]
      verifiedValidationRuns := 1 }
  let scratch ← scratchOf t runRoot policy.validationScratchGlobs [] []
  match scratch with
  | .refused path =>
    let place ← relative t policy.root runRoot
    pure (kept.append (.quarantine
      { kind := "validation-scratch", path := some place
        reason := s!"validation scratch target is unsafe: {showPath path}" }))
  | .selected scratch _ =>
    let composites ← record.compositePaths.mapM fun path =>
      inside t policy.root (policy.root ++ path) "validation composite target"
    let pruned ← pruneCandidate t policy runRoot "validation-scratch" (.pruneValidationScratch record) scratch
    let binaries ← pruneCandidate t policy runRoot "validation-composites" (.pruneValidationComposites record) composites
    pure (kept.append (pruned.append binaries))

def validationRun (t : Files) (hashing : Hashing) (policy : RetentionPolicy) (runRoot : Path) : Result Collected :=
  if ¬t.isDirectory runRoot ∨ t.isSymlink runRoot then pure {}
  else do
    let verified ← catchingOs (validationEvidenceRecord t hashing policy runRoot)
    match verified with
    | .error reason =>
      let path ← relative t policy.root runRoot
      pure (.quarantine { kind := "validation-run", path := some path, reason })
    | .ok record => collectRecord t policy runRoot record

/-- The entries of a directory, sorted. -/
def sortedEntries (t : Files) (directory : Path) : List Path :=
  ((t.listing directory).insertionSort fun a b => a ≤ b).map fun name => directory ++ [name]

def validationCohort (t : Files) (hashing : Hashing) (policy : RetentionPolicy) (cohort : Path) : Result Collected :=
  if ¬t.isDirectory cohort ∨ t.isSymlink cohort then do
    let path ← relative t policy.root cohort
    pure (.quarantine
      { kind := "validation-cohort", path := some path, reason := "validation cohort is not a regular directory" })
  else do
    let runs ← (sortedEntries t cohort).mapM (validationRun t hashing policy)
    pure (.concat runs)

def validationRetentionRecords (t : Files) (hashing : Hashing) (policy : RetentionPolicy) : Result Collected :=
  if ¬policy.validationEnabled ∨ ¬t.exists? policy.validationRuns then pure {}
  else do
    require (t.isDirectory policy.validationRuns) (.os s!"Not a directory: {showPath policy.validationRuns}")
    let cohorts ← (sortedEntries t policy.validationRuns).mapM (validationCohort t hashing policy)
    pure (.concat cohorts)

end FidbPoc.Retention
