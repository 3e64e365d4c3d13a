import FidbPoc.Lib.TreeEdits
import FidbPoc.Retention.Accounting

namespace FidbPoc.Retention

open FidbPoc.Lib FidbPoc.Lib.Checked FidbPoc.Lib.Crash Collected

/-- What the collector does to the file tree, one change after the other. -/
abbrev Effect := Program Fault Files

def cannotChange (path : Path) : Fault := .os s!"cannot change {showPath path}"

/-- The names that `mkdtemp` picks in a directory. -/
structure Temporaries where
  pick : Files → Path → String → String
  free : ∀ (t : Files) directory stem, t.node? (directory ++ [pick t directory stem]) = none
  marked : ∀ (t : Files) directory stem, stem.toList <+: (pick t directory stem).toList

section Evidence

def FailedStage.fields (s : FailedStage) : Json.Fields :=
  [("stage", .str s.stage), ("state", .str (spanStateText s.state)), ("error", .str s.error)]

def FailureEvidence.document (evidence : FailureEvidence) : Json :=
  .obj [("attempt_state", .str (attemptStateText evidence.attemptState)), ("attempt_error", .str evidence.attemptError),
    ("failed_stages", .arr (evidence.failedStages.map fun s => .obj s.fields))]

def EvidenceFile.document (file : EvidenceFile) : Json :=
  .obj [("relative_path", .str (showRelative file.relativePath)), ("bytes", .int file.bytes), ("sha256", .str file.sha256.text)]

def StageRecord.document (s : StageRecord) : Json := .obj (s.fields ++ [("details", s.details), ("metrics", s.metrics)])

def StageEvidence.document (e : StageEvidence) : Json :=
  .obj [("attempt_number", .int e.attemptNumber), ("attempt_id", .int e.attemptId), ("state", .str (attemptStateText e.state)),
    ("started_at", .str e.startedAt), ("ended_at", e.endedAt.elim .null .str), ("error", .str e.error),
    ("failed_stages", .arr (e.failedStages.map StageRecord.document))]

/-- What is written to the `evidence.json` of a bundle. -/
def evidenceDocument (planDigest : Sha256) (bundle : Bundle) (copied : List EvidenceFile) : Json :=
  .obj [("schema_version", .str "fidb-failure-evidence/v1"), ("plan_digest", .str planDigest.text), ("job_id", .str bundle.jobId),
    ("job_state", .str (jobStateText bundle.jobState)), ("batch_id", .str bundle.batchId),
    ("base_cell_id", .str bundle.baseCellId), ("representative_attempt_id", .int bundle.representativeAttemptId),
    ("representative_attempt_number", .int bundle.representativeAttemptNumber),
    ("failure_fingerprint", .str bundle.failureFingerprint.text), ("failure_evidence", bundle.failureEvidence.document),
    ("collapsed_attempts", .arr (bundle.collapsedAttempts.map fun (n : Nat) => .int n)),
    ("source_paths", .arr (bundle.sourcePaths.map fun path => .str (showRelative path))),
    ("files", .arr (copied.map EvidenceFile.document)), ("stage_evidence", .arr (bundle.stageEvidence.map StageEvidence.document))]

/-- Whether a document is the evidence of a bundle that a plan has written. -/
def binds (evidence : Json.Fields) (planDigest : Sha256) (bundle : Bundle) : Bool :=
  (evidence.get? "plan_digest").any (Json.isText planDigest.text) &&
    (evidence.get? "failure_fingerprint").any (Json.isText bundle.failureFingerprint.text)

end Evidence

section Copying

variable (policy : RetentionPolicy) (hashing : Hashing) (temporaries : Temporaries) (planDigest : Sha256)

def evidencePath (destination : Path) : Path := destination ++ ["evidence.json"]

def memberPath (destination : Path) (file : EvidenceFile) : Path := destination ++ "files" :: file.relativePath

/-- What the name of a bundle's temporary directory begins with. -/
def temporaryStem (destination : Path) : String := "." ++ destination.getLast?.getD "" ++ "."

/-- `sum(path.stat().st_size for path in destination.rglob("*") if path.is_file())`. -/
def bundleBytes (t : Files) (destination : Path) : Nat :=
  ((t.entries.filter fun e => destination <+: e.1 ∧ e.1 ≠ destination).filterMap fun e =>
    ((t.stat e.1).bind Node.content?).map FileData.size).sum

def copyFile (representative temporary : Path) (file : EvidenceFile) : Effect Unit := do
  let source ← look fun t => safeRegular t policy.root (representative ++ file.relativePath) "failed evidence file"
  look fun t => verifyDigest t source (some (.str file.sha256.text)) "failed evidence file"
  let target ← look fun t => inside t temporary (memberPath temporary file) "failure bundle member"
  FileTree.mkdirs cannotChange target.dropLast
  edit fun t => do
    let content ← fileAt t source
    (t.put target (.file content)).elim (.error (cannotChange target)) .ok
  look fun t => verifyDigest t target (some (.str file.sha256.text)) "copied failure evidence"

/-- The files of a bundle, its `evidence.json`, and the name that makes it one. -/
def fillBundle (bundle : Bundle) (representative temporary destination : Path) : Effect Unit := do
  bundle.evidenceFiles.forM (copyFile policy representative temporary)
  edit fun t => (t.put (evidencePath temporary)
    (.file (hashing.render (evidenceDocument planDigest bundle bundle.evidenceFiles)))).elim (.error (cannotChange temporary)) .ok
  edit fun t => (t.move temporary destination).elim (.error (cannotChange destination)) .ok

/-- `if temporary.exists(): shutil.rmtree(temporary)`. -/
def discard (temporary : Path) : Effect Unit := do
  let standing ← look fun t => .ok (t.exists? temporary)
  if standing then FileTree.rmtree cannotChange temporary else pure ()

/-- A bundle that is not there yet. -/
def writeBundle (bundle : Bundle) (destination : Path) : Effect Unit := do
  let source ← look fun _ => bundle.sourcePaths.head?.elim (.error (.retention "failure bundle action has no source paths")) .ok
  let representative ← look fun t => inside t policy.root (policy.root ++ source) "failed representative"
  FileTree.mkdirs cannotChange destination.dropLast
  let name ← look fun t => .ok (temporaries.pick t destination.dropLast (temporaryStem destination))
  let temporary := destination.dropLast ++ [name]
  edit fun t => (t.put temporary .directory).elim (.error (cannotChange temporary)) .ok
  ending (fillBundle policy hashing planDigest bundle representative temporary destination) (discard temporary)

/-- `_copy_bundle`. -/
def copyBundle (bundle : Bundle) : Effect Nat := do
  let destination ← look fun t => inside t policy.root (policy.root ++ bundle.bundlePath) "failure bundle"
  let standing ← look fun t => .ok (t.exists? destination)
  if standing then
    look fun t => do
      let evidence ← loadJson t (evidencePath destination) "failure evidence bundle"
      require (binds evidence planDigest bundle)
        (.retention s!"existing failure bundle does not match plan: {showPath destination}")
  else writeBundle policy hashing temporaries planDigest bundle destination
  look fun t => .ok (bundleBytes t destination)

end Copying

section Applying

variable (policy : RetentionPolicy) (hashing : Hashing) (temporaries : Temporaries) (planDigest : Sha256)

/-- `_remove_retention_target`. -/
def removeRetentionTarget (value : Path) : Effect Stats := do
  let path ← look fun t => inside t policy.root (policy.root ++ value) "retention deletion target"
  let standing ← look fun t => .ok (t.exists? path)
  if standing then
    let stats ← look fun t => retentionTargetStats t path policy.maximumScanFiles
    let regular ← look fun t => .ok (t.isFile path)
    if regular then FileTree.unlink cannotChange path else FileTree.rmtree cannotChange path
    pure stats
  else pure Stats.zero

structure CompletedAction where
  kind : String
  jobId : Option String
  runId : Option Json
  validationId : Option Json
  paths : List Path

def Action.completed : Action → CompletedAction
  | .bundleFailedAttempts bundle => ⟨"bundle-failed-attempts", some bundle.jobId, none, none, bundle.sourcePaths⟩
  | .pruneSuccessScratch jobId target _ _ => ⟨"prune-success-scratch", some jobId, none, none, [target]⟩
  | .pruneValidationScratch record paths _ =>
    ⟨"prune-validation-scratch", none, some record.runId, some record.validationId, paths⟩
  | .pruneValidationComposites record paths _ =>
    ⟨"prune-validation-composites", none, some record.runId, some record.validationId, paths⟩

/-- What applying has done so far. -/
structure Applied where
  bundleBytes : Nat
  removed : Stats
  completedActions : List CompletedAction

/-- What precedes the deletions of an action; a validation record always has its two digests. -/
def prepare : Action → Effect Nat
  | .bundleFailedAttempts bundle => copyBundle policy hashing temporaries planDigest bundle
  | .pruneSuccessScratch _ _ receiptVerified _ => do
    look fun _ => require receiptVerified (.retention "success scratch action lacks a verified lane receipt")
    pure 0
  | .pruneValidationScratch .. => pure 0
  | .pruneValidationComposites .. => pure 0

def applyAction (applied : Applied) (action : Action) : Effect Applied := do
  let bytes ← prepare policy hashing temporaries planDigest action
  let removed ← action.paths.foldlM (fun removed path => do
    let stats ← removeRetentionTarget policy path
    pure (removed.add stats)) applied.removed
  pure ⟨applied.bundleBytes + bytes, removed, applied.completedActions ++ [action.completed]⟩

def Action.validation? : Action → Bool
  | .pruneValidationScratch .. => true
  | .pruneValidationComposites .. => true
  | _ => false

/-- `_assert_validation_idle`. -/
def assertValidationIdle (t : Files) : Result Unit :=
  require ((t.listing policy.validationRuns).all fun name => !t.exists? (policy.validationRuns ++ [name, ".runner.lock"]))
    (.retention "validation scratch apply requires no active machine-validation runner")

/-- What the saved plan was asked for. -/
def Plan.request (plan : Plan) : Request :=
  ⟨plan.basis.scope, plan.basis.trigger, some plan.basis.sessionId, plan.basis.batchId⟩

/-- The checks of `apply_retention_plan` before its first change, of a plan as it was saved. -/
def checkApply (w : World) (saved : Plan) (t : Files) : Result RetentionPolicy := do
  let policy ← loadRetentionPolicy t w.projectRoot w.document
  require (saved.digest = planDigest) (.retention "saved retention plan identity is invalid")
  require (hashing.plan saved.basis = planDigest) (.retention "saved retention plan content does not match its digest")
  assertApplyIdle w.ledger
  if saved.actions.any Action.validation? then assertValidationIdle policy t else pure ()
  let current ← compileRetentionPlan { w with files := t } hashing saved.request
  require (current.digest = planDigest) (.retention s!"retention plan is stale; current digest is {current.digest.text}")
  pure policy

/-- `apply_retention_plan`. -/
def applyRetentionPlan (w : World) (saved : Plan) : Effect Applied := do
  let policy ← look (checkApply hashing planDigest w saved)
  saved.actions.foldlM (applyAction policy hashing temporaries planDigest) ⟨0, Stats.zero, []⟩

end Applying

section Placement

/-- What a plan says of the places of an action: no link leads to them. -/
structure Placed (t : Files) (root : Path) (action : Action) : Prop where
  paths : ∀ path ∈ action.paths, FileTree.Canonical t (root ++ path)
  bundle : ∀ bundle, action.bundle? = some bundle → FileTree.Canonical t (root ++ bundle.bundlePath) ∧
    (bundle.evidenceFiles.map (·.relativePath)).Nodup ∧ ∀ file ∈ bundle.evidenceFiles, ∀ part ∈ file.relativePath, IsName part

/-- The actions of a pass are placed. -/
def PassPlaced (t : Files) (root : Path) (collected : Collected) : Prop := ∀ action ∈ collected.actions, Placed t root action

variable {t : Files} {root p q : Path} {policy : RetentionPolicy} {collected a b : Collected}

theorem canonical_relative (h : relative t root p = .ok q) : FileTree.Canonical t (root ++ q) := by
  obtain ⟨r, hresolve, rfl⟩ := relative_eq_ok.mp h
  exact FileTree.canonical_resolve hresolve

theorem placed_idle (h : collected.actions = []) : PassPlaced t root collected := fun action haction => by
  rw [h] at haction
  exact (List.not_mem_nil haction).elim

theorem placed_append (ha : PassPlaced t root a) (hb : PassPlaced t root b) : PassPlaced t root (a.append b) :=
  fun action haction => (List.mem_append.mp haction).elim (ha action) (hb action)

theorem placed_concat {passes : List Collected} (h : ∀ pass ∈ passes, PassPlaced t root pass) :
    PassPlaced t root (Collected.concat passes) := fun action haction => by
  rw [actions_concat] at haction
  obtain ⟨pass, hpass, haction⟩ := List.mem_flatMap.mp haction
  exact h pass hpass action haction

theorem placed_mapM {α : Type} {f : α → Result Collected} {rows : List α} {passes : List Collected}
    (h : rows.mapM f = .ok passes) (hf : ∀ row pass, f row = .ok pass → PassPlaced t root pass) :
    PassPlaced t root (Collected.concat passes) :=
  placed_concat fun pass hp => (mem_mapM h pass hp).elim fun row hrow => hf row pass hrow.2

theorem placed_act {action : Action} (h : Placed t root action) : PassPlaced t root (Collected.act action) :=
  fun _ hmem => List.mem_singleton.mp hmem ▸ h

theorem placed_successScratch {jobId item : String} {attemptRoot : Path} {receiptVerified : Bool}
    (h : successScratch t policy jobId attemptRoot receiptVerified item = .ok collected) : PassPlaced t policy.root collected := by
  unfold successScratch at h
  obtain ⟨target, -, h⟩ := bind_eq_ok.mp h
  split at h
  · simp only [bind_eq_ok] at h
    obtain ⟨scanned, -, path, hpath, h⟩ := h
    cases scanned with
    | error reason => exact pure_eq_ok.mp h ▸ placed_idle rfl
    | ok stats =>
      refine pure_eq_ok.mp h ▸ placed_act ⟨fun other hother => ?_, fun _ h => by cases h⟩
      exact List.mem_singleton.mp hother ▸ canonical_relative hpath
  · exact pure_eq_ok.mp h ▸ placed_idle rfl

theorem placed_collectSuccess {jobId : String} {verification : Verification}
    (h : collectSuccess t policy jobId verification = .ok collected) : PassPlaced t policy.root collected := by
  obtain ⟨refused, rest, rfl, hrefused, hrest⟩ := collectSuccess_eq_ok h
  refine placed_append ?_ ?_
  · rcases hrefused with rfl | ⟨note, -, rfl⟩
    · exact placed_idle rfl
    · exact placed_idle rfl
  · rcases hrest with ⟨note, -, rfl⟩ | ⟨valid, targets, htargets, rfl⟩
    · exact placed_idle rfl
    · exact placed_mapM htargets fun _ _ => placed_successScratch

theorem placed_completedJob {holds : List RetentionHold} {job : Job}
    (h : completedJob t policy holds job = .ok collected) : PassPlaced t policy.root collected := by
  unfold completedJob at h
  split at h
  · obtain ⟨verified, -, h⟩ := bind_eq_ok.mp h
    cases verified with
    | error reason => exact pure_eq_ok.mp h ▸ placed_idle rfl
    | ok verification =>
      simp only at h
      split at h
      · obtain ⟨path, -, h⟩ := bind_eq_ok.mp h
        exact pure_eq_ok.mp h ▸ placed_idle rfl
      · obtain ⟨kept, hkept, h⟩ := bind_eq_ok.mp h
        obtain rfl := pure_eq_ok.mp h
        exact fun action haction => placed_collectSuccess hkept action haction
  · exact pure_eq_ok.mp h ▸ placed_idle rfl

/-- A pruning action deletes the places that its paths resolve to. -/
theorem placed_pruneCandidate {runRoot : Path} {kind : String} {action : List Path → Stats → Action} {paths : List Path}
    (hpaths : ∀ paths stats, (action paths stats).paths = paths) (hbundle : ∀ paths stats, (action paths stats).bundle? = none)
    (h : pruneCandidate t policy runRoot kind action paths = .ok collected) : PassPlaced t policy.root collected := by
  unfold pruneCandidate at h
  split at h
  · exact pure_eq_ok.mp h ▸ placed_idle rfl
  · obtain ⟨scanned, -, h⟩ := bind_eq_ok.mp h
    cases scanned with
    | error reason =>
      obtain ⟨path, -, h⟩ := bind_eq_ok.mp h
      exact pure_eq_ok.mp h ▸ placed_idle rfl
    | ok stats =>
      obtain ⟨places, hplaces, h⟩ := bind_eq_ok.mp h
      refine pure_eq_ok.mp h ▸ placed_act ⟨fun path hpath => ?_, fun bundle hsome => ?_⟩
      · rw [hpaths] at hpath
        obtain ⟨_, -, hrelative⟩ := mem_mapM hplaces path hpath
        exact canonical_relative hrelative
      · rw [hbundle] at hsome
        cases hsome

theorem placed_collectRecord {runRoot : Path} {record : ValidationRecord}
    (h : collectRecord t policy runRoot record = .ok collected) : PassPlaced t policy.root collected := by
  unfold collectRecord at h
  obtain ⟨units, -, h⟩ := bind_eq_ok.mp h
  simp only at h
  obtain ⟨scratch, -, h⟩ := bind_eq_ok.mp h
  cases scratch with
  | refused path =>
    obtain ⟨place, -, h⟩ := bind_eq_ok.mp h
    exact pure_eq_ok.mp h ▸ placed_append (placed_idle rfl) (placed_idle rfl)
  | selected paths seen =>
    simp only [bind_eq_ok, pure_eq_ok] at h
    obtain ⟨composites, -, pruned, hpruned, binaries, hbinaries, rfl⟩ := h
    refine placed_append (placed_idle rfl) (placed_append ?_ ?_)
    · exact placed_pruneCandidate (fun _ _ => rfl) (fun _ _ => rfl) hpruned
    · exact placed_pruneCandidate (fun _ _ => rfl) (fun _ _ => rfl) hbinaries

variable {hashing : Hashing}

theorem placed_validationRun {runRoot : Path} (h : validationRun t hashing policy runRoot = .ok collected) :
    PassPlaced t policy.root collected := by
  unfold validationRun at h
  split at h
  · exact pure_eq_ok.mp h ▸ placed_idle rfl
  · obtain ⟨verified, -, h⟩ := bind_eq_ok.mp h
    cases verified with
    | error reason =>
      obtain ⟨path, -, h⟩ := bind_eq_ok.mp h
      exact pure_eq_ok.mp h ▸ placed_idle rfl
    | ok record => exact placed_collectRecord h

theorem placed_collectValidation {w : World} {request : Request}
    (h : collectValidation w hashing policy request = .ok collected) : PassPlaced w.files policy.root collected := by
  unfold collectValidation validationRetentionRecords at h
  split at h
  · split at h
    · exact pure_eq_ok.mp h ▸ placed_idle rfl
    · simp only [bind_eq_ok, pure_eq_ok] at h
      obtain ⟨-, -, cohorts, hcohorts, rfl⟩ := h
      refine placed_mapM hcohorts fun cohort pass hpass => ?_
      unfold validationCohort at hpass
      split at hpass
      · obtain ⟨path, -, hpass⟩ := bind_eq_ok.mp hpass
        exact pure_eq_ok.mp hpass ▸ placed_idle rfl
      · obtain ⟨runs, hruns, hpass⟩ := bind_eq_ok.mp hpass
        exact pure_eq_ok.mp hpass ▸ placed_mapM hruns fun _ _ => placed_validationRun
  · exact pure_eq_ok.mp h ▸ placed_idle rfl

theorem placed_collectSuccesses {w : World} {request : Request}
    (h : collectSuccesses w policy request = .ok collected) : PassPlaced w.files policy.root collected := by
  unfold collectSuccesses at h
  simp only [bind_eq_ok, pure_eq_ok] at h
  obtain ⟨-, -, completed, hcompleted, rfl⟩ := h
  exact placed_mapM hcompleted fun _ _ => placed_completedJob

theorem selectEvidence_named {top member : Path} {selected after : List EvidenceFile}
    (hselected : (selected.map (·.relativePath)).Nodup ∧ ∀ file ∈ selected, ∀ part ∈ file.relativePath, IsName part)
    (h : selectEvidence t policy top selected member = .ok after) :
    (after.map (·.relativePath)).Nodup ∧ ∀ file ∈ after, ∀ part ∈ file.relativePath, IsName part := by
  unfold selectEvidence at h
  split at h
  · rename_i content hcontent
    simp only at h
    split at h
    · exact Except.ok.inj h ▸ hselected
    · rename_i hnew
      split at h
      · cases h
      · obtain rfl := Except.ok.inj h
        have hmember : member ≠ [] := fun hnil => by
          rw [hnil, FileTree.node?_nil] at hcontent
          cases hcontent
        have hnames := (t.named _ ((FileTree.node?_eq_some hmember).mp hcontent)).2
        refine ⟨?_, List.forall_mem_append.mpr ⟨hselected.2, ?_⟩⟩
        · rw [List.map_append]
          refine List.nodup_append.mpr ⟨hselected.1, List.nodup_singleton _, ?_⟩
          rintro place hplace other hother rfl
          obtain ⟨file, hfile, hname⟩ := List.mem_map.mp hplace
          rw [List.map_singleton, List.mem_singleton] at hother
          refine hnew (.inl (List.any_eq_true.mpr ⟨file, hfile, decide_eq_true (hname.trans hother)⟩))
        · exact List.forall_mem_singleton.mpr fun part hpart => hnames part (List.mem_of_mem_drop hpart)
  · exact Except.ok.inj h ▸ hselected

/-- The evidence of an attempt has each place once, and proper names only. -/
theorem evidenceFiles_named {top : Path} {files : List EvidenceFile} (h : evidenceFiles t policy top = .ok files) :
    (files.map (·.relativePath)).Nodup ∧ ∀ file ∈ files, ∀ part ∈ file.relativePath, IsName part := by
  unfold evidenceFiles at h
  simp only at h
  obtain ⟨selected, hselected, h⟩ := bind_eq_ok.mp h
  obtain rfl := pure_eq_ok.mp h
  have hnamed := foldlM_invariant (P := fun selected : List EvidenceFile =>
      (selected.map (·.relativePath)).Nodup ∧ ∀ file ∈ selected, ∀ part ∈ file.relativePath, IsName part)
    (fun _ _ _ _ hu hv => selectEvidence_named hu hv) ⟨by simp, fun _ h => (List.not_mem_nil h).elim⟩ hselected
  refine ⟨((List.perm_insertionSort _ _).map _).nodup_iff.mpr hnamed.1, fun file hfile => ?_⟩
  exact hnamed.2 file ((List.mem_insertionSort _).mp hfile)

theorem placed_collectGroup {job : Job} {rep : Candidate} {group : List Candidate}
    (h : collectGroup t policy job rep group = .ok collected) : PassPlaced t policy.root collected := by
  unfold collectGroup at h
  split at h
  · split at h
    · obtain ⟨note, -, h⟩ := bind_eq_ok.mp h
      exact pure_eq_ok.mp h ▸ placed_idle rfl
    · rename_i files hfiles
      obtain ⟨scan, -, h⟩ := bind_eq_ok.mp h
      cases scan with
      | refused member reason =>
        obtain ⟨note, -, h⟩ := bind_eq_ok.mp h
        exact pure_eq_ok.mp h ▸ placed_idle rfl
      | scanned stats =>
        obtain ⟨bundle, hbundle, h⟩ := bind_eq_ok.mp h
        unfold bundleOf at hbundle
        simp only [bind_eq_ok, pure_eq_ok] at hbundle
        obtain ⟨sourcePaths, hsources, bundlePath, hplace, stages, -, rfl⟩ := hbundle
        refine pure_eq_ok.mp h ▸ placed_act ⟨fun path hpath => ?_, fun other hother => ?_⟩
        · obtain ⟨_, -, hrelative⟩ := mem_mapM hsources path hpath
          exact canonical_relative hrelative
        · obtain rfl := Option.some.inj hother
          exact ⟨canonical_relative hplace, evidenceFiles_named hfiles⟩
  · obtain ⟨notes, -, h⟩ := bind_eq_ok.mp h
    exact pure_eq_ok.mp h ▸ placed_idle rfl

variable {ledger : Ledger} {holds : List RetentionHold}

theorem idle_examineAttempt {attempt : Attempt} {e : Examined}
    (h : examineAttempt t hashing policy ledger holds attempt = .ok e) : e.collected.actions = [] := by
  unfold examineAttempt at h
  split at h
  · obtain ⟨known, -, h⟩ := bind_eq_ok.mp h
    split at h
    · obtain ⟨path, -, h⟩ := bind_eq_ok.mp h
      exact pure_eq_ok.mp h ▸ rfl
    · exact pure_eq_ok.mp h ▸ rfl
  · exact pure_eq_ok.mp h ▸ rfl

theorem placed_failedJob {job : Job} {f : FailedJob} (h : failedJob t hashing policy ledger holds job = .ok f) :
    PassPlaced t policy.root f.collected := by
  unfold failedJob at h
  obtain ⟨examined, hexamined, h⟩ := bind_eq_ok.mp h
  obtain ⟨settled, hsettled, h⟩ := bind_eq_ok.mp h
  obtain rfl := pure_eq_ok.mp h
  refine placed_append (placed_concat fun pass hpass => ?_) ?_
  · obtain ⟨e, he, rfl⟩ := List.mem_map.mp hpass
    obtain ⟨attempt, -, hlook⟩ := mem_mapM hexamined e he
    exact placed_idle (idle_examineAttempt hlook)
  · unfold collectCandidates at hsettled
    split at hsettled
    · exact pure_eq_ok.mp hsettled ▸ placed_idle rfl
    · obtain ⟨notes, -, hsettled⟩ := bind_eq_ok.mp hsettled
      obtain ⟨kept, hkept, hsettled⟩ := bind_eq_ok.mp hsettled
      exact pure_eq_ok.mp hsettled ▸ placed_append (placed_idle rfl) (placed_collectGroup hkept)

theorem idle_unknownStaging {known : List Path} {name : String}
    (h : unknownStaging t policy known name = .ok collected) : collected.actions = [] := by
  unfold unknownStaging at h
  simp only at h
  split at h
  · obtain ⟨place, -, h⟩ := bind_eq_ok.mp h
    exact pure_eq_ok.mp h ▸ rfl
  · obtain ⟨resolved, -, h⟩ := bind_eq_ok.mp h
    split at h
    · exact pure_eq_ok.mp h ▸ rfl
    · obtain ⟨place, -, h⟩ := bind_eq_ok.mp h
      exact pure_eq_ok.mp h ▸ rfl

theorem placed_collectFailures {w : World} {request : Request}
    (h : collectFailures w hashing policy request = .ok collected) : PassPlaced w.files policy.root collected := by
  unfold collectFailures at h
  obtain ⟨failed, hfailed, h⟩ := bind_eq_ok.mp h
  have hjobs : PassPlaced w.files policy.root (Collected.concat (failed.map (·.collected))) := by
    refine placed_concat fun pass hpass => ?_
    obtain ⟨f, hf, rfl⟩ := List.mem_map.mp hpass
    obtain ⟨job, -, hjob⟩ := mem_mapM hfailed f hf
    exact placed_failedJob hjob
  simp only at h
  split at h
  · obtain ⟨unknown, hunknown, h⟩ := bind_eq_ok.mp h
    exact pure_eq_ok.mp h ▸ placed_append hjobs (placed_mapM hunknown fun _ _ hpass => placed_idle (idle_unknownStaging hpass))
  · exact pure_eq_ok.mp h ▸ placed_append hjobs (placed_idle rfl)

/-- Every action of a compiled plan is placed. -/
theorem placed_compiled {w : World} {request : Request} {plan : Plan}
    (h : compileRetentionPlan w hashing request = .ok plan) :
    ∃ policy, loadRetentionPolicy w.files w.projectRoot w.document = .ok policy ∧
      ∀ action ∈ plan.actions, Placed w.files policy.root action := by
  obtain ⟨policy, successes, failures, validation, hcompiled⟩ := compileRetentionPlan_eq_ok h
  refine ⟨policy, hcompiled.loaded, fun action haction => ?_⟩
  have hpass : PassPlaced w.files policy.root plan.basis.collected := by
    rw [hcompiled.collected]
    exact placed_append (placed_collectSuccesses hcompiled.completed)
      (placed_append (placed_collectFailures hcompiled.failed) (placed_collectValidation hcompiled.validated))
  exact hpass action haction

end Placement

end FidbPoc.Retention
