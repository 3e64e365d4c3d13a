import FidbPoc.Lib.Checked
import FidbPoc.Lib.Json
import FidbPoc.Lib.Patterns
import FidbPoc.Lib.FileTree
import Mathlib.Data.List.Infix

namespace FidbPoc.Retention

open FidbPoc.Lib FidbPoc.Lib.Checked FidbPoc.Lib.Patterns

/-- The instance that membership tests of paths are decided by, under one name. -/
scoped instance lawfulBEqPath : LawfulBEq Path := inferInstance

/-- What the collector can raise. It catches `RetentionError`, and `OSError` around a
validation run; the rest leaves it. -/
inductive Fault
  | retention (message : String)
  | value (message : String)
  | os (message : String)
  | loop
  | key (name : String)
  | type (message : String)
  | attribute (message : String)
  | assertion
  deriving DecidableEq

abbrev Result := Except Fault

/-- `except RetentionError`. -/
def catching {α : Type} : Result α → Result (Except String α)
  | .ok a => .ok (.ok a)
  | .error (.retention message) => .ok (.error message)
  | .error fault => .error fault

structure Sha256 where
  text : String
  valid : isSha256 text = true

instance : DecidableEq Sha256 := fun a b =>
  decidable_of_iff (a.text = b.text) ⟨fun h => by cases a; cases b; cases h; rfl, fun h => h ▸ rfl⟩

/-- What the collector reads of a regular file. -/
structure FileData where
  size : Nat
  blocks : Nat
  sha256 : Sha256
  json : Option Json

abbrev Files := FileTree FileData

def showPath (p : Path) : String := "/" ++ "/".intercalate p

section Paths

/-- The paths from below the root down to a path. -/
def traversed (root p : Path) : List Path := (p.drop root.length).inits.tail.map (root ++ ·)

/-- `_inside` of an absolute path. -/
def inside (t : Files) (root candidate : Path) (label : String) : Result Path := do
  let resolved ← (t.resolve candidate).elim (.error .loop) .ok
  require (root <+: resolved) (.value s!"{label} must remain inside the project root")
  require (∀ current ∈ traversed root resolved, t.isSymlink current = false)
    (.value s!"{label} cannot traverse a symlink")
  pure resolved

/-- The absolute path that a text names. -/
def candidate (root : Path) (text : String) : Path := if isAbsolute text then parts text else root ++ parts text

def relative (t : Files) (root p : Path) : Result Path := do
  let resolved ← (t.resolve p).elim (.error .loop) .ok
  require (root <+: resolved) (.value s!"{showPath resolved} is not in the subpath of {showPath root}")
  pure (resolved.drop root.length)

def safeRegular (t : Files) (root p : Path) (label : String) : Result Path := do
  let resolved ← inside t root p label
  require (t.isFile resolved ∧ t.isSymlink resolved = false)
    (.retention s!"{label} is not a regular file: {showPath resolved}")
  pure resolved

/-- The file at a path; opening anything else raises. -/
def fileAt (t : Files) (p : Path) : Result FileData :=
  match (t.stat p).bind Node.content? with
  | some content => .ok content
  | none => .error (.os s!"cannot read {showPath p}")

def loadJson (t : Files) (p : Path) (label : String) : Result Json.Fields := do
  let file ← fileAt t p
  match file.json with
  | none => .error (.retention s!"{label} is not valid JSON: {showPath p}")
  | some value =>
    match value.fields? with
    | none => .error (.retention s!"{label} must be a JSON object: {showPath p}")
    | some fields => .ok fields

def verifyDigest (t : Files) (p : Path) (expected : Option Json) (label : String) : Result Unit := do
  match expected.bind Json.str? with
  | none => .error (.retention s!"{label} has no valid SHA-256")
  | some expected =>
    require (isSha256 expected) (.retention s!"{label} has no valid SHA-256")
    let file ← fileAt t p
    require (file.sha256.text = expected) (.retention s!"{label} SHA-256 mismatch: {showPath p}")

variable {t : Files} {root p q : Path} {label : String}

theorem traversed_le (h : root <+: p) : ∀ current ∈ traversed root p, current <+: p := by
  intro current hc
  obtain ⟨rest, rfl⟩ := h
  obtain ⟨front, hfront, rfl⟩ := List.mem_map.mp hc
  rw [List.drop_left] at hfront
  have hfrontLe : front <+: rest := (List.mem_inits front rest).mp (List.mem_of_mem_tail hfront)
  exact (List.prefix_append_right_inj root).mpr hfrontLe

theorem isSymlink_canonical (h : FileTree.Canonical t p) : t.isSymlink p = false := by
  unfold FileTree.isSymlink
  rw [FileTree.lstat_canonical h]
  cases hnode : t.node? p with
  | none => rfl
  | some node =>
    by_cases hp : p = []
    · subst hp
      obtain rfl := Option.some.inj (hnode.symm.trans FileTree.node?_nil)
      rfl
    · cases node with
      | symlink target =>
        have hlink := FileTree.link?_eq_none.mp (h.linkFree p List.prefix_rfl) target
        exact absurd ((FileTree.node?_eq_some hp).mp hnode) hlink
      | file content => rfl
      | directory => rfl
      | special => rfl

/-- Resolving has followed every link, so the check on the way never fires. -/
theorem inside_eq_ok : inside t root p label = .ok q ↔ t.resolve p = some q ∧ root <+: q := by
  unfold inside
  cases hr : t.resolve p with
  | none => simp [error_bind]
  | some resolved =>
    simp only [Option.elim_some, ok_bind, bind_eq_ok, require_eq_ok, pure_eq_ok, Option.some.injEq]
    constructor
    · rintro ⟨-, hroot, -, -, rfl⟩
      exact ⟨rfl, hroot⟩
    · rintro ⟨rfl, hroot⟩
      refine ⟨(), hroot, (), fun current hc => ?_, rfl⟩
      exact isSymlink_canonical ((FileTree.canonical_resolve hr).above (traversed_le hroot current hc))

theorem relative_eq_ok : relative t root p = .ok q ↔ ∃ r, t.resolve p = some r ∧ r = root ++ q := by
  unfold relative
  cases hr : t.resolve p with
  | none => simp [error_bind]
  | some resolved =>
    simp only [Option.elim_some, ok_bind, bind_eq_ok, require_eq_ok, pure_eq_ok, Option.some.injEq]
    constructor
    · rintro ⟨-, ⟨rest, rfl⟩, rfl⟩
      exact ⟨_, rfl, by rw [List.drop_left]⟩
    · rintro ⟨_, rfl, rfl⟩
      exact ⟨(), List.prefix_append root q, by rw [List.drop_left]⟩

end Paths

/-- The sections of a policy that name no path. -/
structure PolicySettings where
  name : String
  preserveUntilLaneImported : Bool
  pruneAfterReceipt : List String
  requiredResultArtifacts : List String
  retainLatestEvidenceBundle : Bool
  collapseIdenticalRetries : Bool
  evidenceGlobs : List String
  maxEvidenceFileBytes : Int
  validationEnabled : Bool
  validationAutomaticAfterTerminalRun : Bool
  validationScratchGlobs : List String
  validationRequiredFoldArtifacts : List String
  validationPruneCompositeBinaries : Bool
  validationRequiredSignatureEvidenceSchema : String
  automationEnabled : Bool
  automationTriggers : List String
  automationMode : String
  dryRunFirst : Bool
  maximumEstimatedSeconds : Int
  workerAction : String
  memoryCleanupEnabled : Bool
  auditAfterRecycle : Bool
  postRecycleRssWarningMib : Int
  parkTerminalWorkers : Bool
  parkPollSeconds : Int
  maximumActions : Int
  maximumScanFiles : Int
  authoritySha256 : Sha256

/-- The `paths` table: texts in the document, resolved paths in the policy. -/
structure PolicyPaths (α : Type) where
  runs : α
  validationRuns : α
  failureBundles : α
  plans : α
  state : α
  memoryAudits : α
  laneImportReceipts : α
  holds : α

/-- The TOML document after the checks of its keys and of the types of its values. -/
structure PolicyDocument extends PolicySettings where
  schemaVersion : String
  paths : PolicyPaths String

structure RetentionPolicy extends PolicySettings, PolicyPaths Path where
  root : Path

def text (value label : String) : Result String := do
  require (value ≠ "" ∧ isStripped value)
    (.value s!"{label} must be a non-empty string without outer whitespace")
  pure value

def positive (value : Int) (label : String) : Result Int := do
  require (1 ≤ value) (.value s!"{label} must be a positive integer")
  pure value

def strings (values : List String) (label : String) : Result (List String) := do
  require (values ≠ []) (.value s!"{label} must be a non-empty array")
  let result ← values.mapM fun item => text item label
  require result.Nodup (.value s!"{label} contains duplicates")
  pure result

/-- A path text that cannot leave the directory it is joined to. -/
def isSafe (item : String) : Bool := !isAbsolute item && !(parts item).contains ".."

def isLocal (item : String) : Bool := isSafe item && decide ((parts item).length = 1)

def checkAutomation (d : PolicySettings) : Result Unit := do
  let triggers ← strings d.automationTriggers "retention automation triggers"
  let mode ← text d.automationMode "retention automation mode"
  let workerAction ← text d.workerAction "retention worker action"
  let known := ["queue-drained", "machine-validation-complete"]
  require ((∀ trigger ∈ triggers, trigger ∈ known) ∧ ∀ trigger ∈ known, trigger ∈ triggers)
    (.value "retention automation triggers must cover queue drain and machine validation")
  require (mode ∈ ["plan", "apply"]) (.value "retention automation mode must be plan or apply")
  require (workerAction ∈ ["none", "recycle"]) (.value "retention worker_action must be none or recycle")
  require d.dryRunFirst (.value "retention automation must remain dry-run-first")

def insideText (t : Files) (root : Path) (value label : String) : Result Path := do
  let value ← text value label
  inside t root (candidate root value) label

/-- The checks of the selectors, which precede those of the single values. -/
def checkSelectors (d : PolicySettings) : Result Unit := do
  checkAutomation d
  let prune ← strings d.pruneAfterReceipt "success prune_after_receipt"
  require (prune.all isSafe) (.value "success prune paths must be safe attempt-relative paths")
  let _ ← strings d.evidenceGlobs "failure evidence_globs"
  let scratchGlobs ← strings d.validationScratchGlobs "validation scratch_globs"
  require (scratchGlobs.all isLocal) (.value "validation scratch_globs must select direct children of a run")
  let foldArtifacts ← strings d.validationRequiredFoldArtifacts "validation required_fold_artifacts"
  require (foldArtifacts.all isLocal) (.value "validation required_fold_artifacts must be fold-local filenames")

def loadPaths (t : Files) (root : Path) (paths : PolicyPaths String) : Result (PolicyPaths Path) := do
  let runs ← insideText t root paths.runs "runs path"
  let validationRuns ← insideText t root paths.validationRuns "validation runs path"
  let failureBundles ← insideText t root paths.failureBundles "failure bundles path"
  let plans ← insideText t root paths.plans "plans path"
  let state ← insideText t root paths.state "state path"
  let memoryAudits ← insideText t root paths.memoryAudits "memory audits path"
  let laneImportReceipts ← insideText t root paths.laneImportReceipts "lane receipts path"
  let holds ← insideText t root paths.holds "holds path"
  pure { runs, validationRuns, failureBundles, plans, state, memoryAudits, laneImportReceipts, holds }

def checkValues (d : PolicySettings) : Result Unit := do
  let _ ← strings d.requiredResultArtifacts "success required_result_artifacts"
  let _ ← positive d.maxEvidenceFileBytes "failure max_evidence_file_bytes"
  let _ ← text d.validationRequiredSignatureEvidenceSchema "validation required_signature_evidence_schema"
  let _ ← positive d.maximumEstimatedSeconds "automation maximum_estimated_seconds"
  let _ ← positive d.postRecycleRssWarningMib "memory_cleanup post_recycle_rss_warning_mib"
  let _ ← positive d.parkPollSeconds "memory_cleanup park_poll_seconds"
  let _ ← positive d.maximumActions "limits maximum_actions"
  let _ ← positive d.maximumScanFiles "limits maximum_scan_files"

def loadRetentionPolicy (t : Files) (projectRoot : Path) (d : PolicyDocument) : Result RetentionPolicy := do
  let root ← (t.resolve projectRoot).elim (.error .loop) .ok
  require (d.schemaVersion = "fidb-retention-policy/v1")
    (.value "retention policy has unsupported schema_version")
  checkSelectors d.toPolicySettings
  let _ ← text d.name "retention policy name"
  let paths ← loadPaths t root d.paths
  checkValues d.toPolicySettings
  pure { toPolicySettings := d.toPolicySettings, toPolicyPaths := paths, root }

variable {t : Files} {root q : Path} {d : PolicyDocument} {policy : RetentionPolicy}

theorem insideText_eq_ok {value label : String} (h : insideText t root value label = .ok q) :
    t.resolve (candidate root value) = some q ∧ root <+: q := by
  unfold insideText text at h
  simp only [bind_eq_ok, pure_eq_ok] at h
  obtain ⟨_, ⟨-, -, rfl⟩, h⟩ := h
  exact inside_eq_ok.mp h

/-- The directories that a policy names, resolved and below the root. -/
structure Loaded (t : Files) (root : Path) (texts : PolicyPaths String) (paths : PolicyPaths Path) : Prop where
  runs : t.resolve (candidate root texts.runs) = some paths.runs ∧ root <+: paths.runs
  validationRuns : t.resolve (candidate root texts.validationRuns) = some paths.validationRuns ∧
    root <+: paths.validationRuns
  failureBundles : t.resolve (candidate root texts.failureBundles) = some paths.failureBundles ∧
    root <+: paths.failureBundles
  laneImportReceipts : t.resolve (candidate root texts.laneImportReceipts) = some paths.laneImportReceipts ∧
    root <+: paths.laneImportReceipts

theorem loadPaths_eq_ok {texts : PolicyPaths String} {paths : PolicyPaths Path} (h : loadPaths t root texts = .ok paths) :
    Loaded t root texts paths := by
  unfold loadPaths at h
  simp only [bind_eq_ok, pure_eq_ok] at h
  obtain ⟨runs, hruns, validationRuns, hvalidationRuns, failureBundles, hfailureBundles, plans, -, state, -,
    memoryAudits, -, laneImportReceipts, hlaneImportReceipts, holds, -, rfl⟩ := h
  exact ⟨insideText_eq_ok hruns, insideText_eq_ok hvalidationRuns, insideText_eq_ok hfailureBundles,
    insideText_eq_ok hlaneImportReceipts⟩

theorem loadRetentionPolicy_eq_ok {projectRoot : Path} (h : loadRetentionPolicy t projectRoot d = .ok policy) :
    policy.toPolicySettings = d.toPolicySettings ∧ t.resolve projectRoot = some policy.root ∧
      Loaded t policy.root d.paths policy.toPolicyPaths := by
  unfold loadRetentionPolicy at h
  simp only [bind_eq_ok, pure_eq_ok] at h
  obtain ⟨root, hroot, -, -, -, -, -, -, paths, hpaths, -, -, rfl⟩ := h
  have hroot : t.resolve projectRoot = some root := by
    cases hr : t.resolve projectRoot with
    | none => rw [hr] at hroot; cases hroot
    | some r => rw [hr] at hroot; exact congrArg some (Except.ok.inj hroot)
  exact ⟨rfl, hroot, loadPaths_eq_ok hpaths⟩

end FidbPoc.Retention
