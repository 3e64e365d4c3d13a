import FidbPoc.Width.Validation

namespace FidbPoc.Width.Pinning

open FidbPoc.Lib FidbPoc.Lib.Checked FidbPoc.Lib.Toml FidbPoc.Lib.TomlTables

section Rendering

def validationBatchSchema : String := "fidb-machine-validation-batch/v1"

def validationScheduleSchema : String := "fidb-validation-schedule/v1"

/-- What the materialization digest is taken of. -/
structure Pinned where
  schemaVersion : String
  id : String
  authorityPath : String
  authoritySha256 : String
  authorities : Authorities
  randomization : Randomization
  batch : Batch
  primaryProjections : List String
  hashDiscriminationJob : HashDiscriminationJob
  widthIdentities : List Identity

def Status.pinned (status : Status) : Pinned :=
  ⟨validationBatchSchema, status.id, status.authorityPath, status.authoritySha256, status.authorities, status.randomization,
    status.batch, status.primaryProjections, status.hashDiscriminationJob, status.widthIdentities⟩

/-- The digests of canonical documents and of rendered files. -/
structure Digests where
  compilation : CWidth → String
  materialization : Pinned → String
  sha256 : Text → String

/-- The manifest has no floats. -/
def noFloats : FloatFormat Empty where
  repr x := x.elim
  parse _ := none
  parse_repr x := x.elim
  repr_chars x := x.elim
  repr_float x := x.elim

def string (key value : String) : Text := renderPair noFloats (text key, .str (text value))

def strings (key : String) (values : List String) : Text := renderPair noFloats (text key, .strings (values.map text))

def number (key : String) (value : Nat) : Text := renderPair noFloats (text key, .int value)

def boolean (key : String) (value : Bool) : Text := text key ++ text " = " ++ text (if value then "true" else "false")

/-- The lines before the digest. -/
def headLines (status : Status) : List Text :=
  [string "schema_version" validationBatchSchema,
    string "id" status.id,
    text "kind = \"validation-run\"",
    text "state = \"materialized-disarmed\"",
    text "automatic_scheduling = true",
    text "production_queue_mutation = false",
    text "execute_target_binaries = false",
    string "authority_path" status.authorityPath,
    string "authority_sha256" status.authoritySha256]

def workUnit (projections index : Nat) (identity : Identity) : List Text :=
  [[],
    text "[[work_unit]]",
    number "position" index,
    string "id" (identity.routeId ++ ":" ++ identity.profileId),
    string "route_id" identity.routeId,
    string "profile_id" identity.profileId,
    string "treatment_id" identity.treatment,
    text "folds = [\"A\", \"B\"]",
    text "composite_programs = 2",
    number "query_projections" (2 * projections),
    text "state = \"planned-disarmed\""]

/-- The lines behind the digest. -/
def tailLines (status : Status) : List Text :=
  let job := status.hashDiscriminationJob
  [[],
    text "[summary]",
    number "work_units" status.summary.workUnits,
    number "composite_programs" status.summary.compositePrograms,
    number "query_projections" status.summary.queryProjections,
    [],
    text "[randomization]",
    string "algorithm" status.randomization.algorithm,
    string "seed" status.randomization.seed,
    strings "fold_a" status.randomization.foldA,
    strings "fold_b" status.randomization.foldB,
    [],
    text "[execution]",
    string "input_strategy" status.batch.inputStrategy,
    string "harness_mode" status.batch.harnessMode,
    string "truth_copy" status.batch.truthCopy,
    string "query_copy" status.batch.queryCopy,
    strings "primary_projections" status.primaryProjections,
    [],
    text "[hash_discrimination_job]",
    string "id" job.id,
    string "kind" job.kind,
    text "state = \"planned-disarmed\"",
    boolean "automatic" job.automatic,
    boolean "required_for_run_completion" job.requiredForRunCompletion,
    text "after = \"composite-build-analysis\"",
    string "method_authority" job.methodAuthority,
    string "method_authority_sha256" job.methodAuthoritySha256,
    string "corpus_authority" job.corpusAuthority,
    string "corpus_authority_sha256" job.corpusAuthoritySha256,
    string "backend_authority" job.backendAuthority,
    string "backend_authority_sha256" job.backendAuthoritySha256,
    strings "stages" job.stages,
    strings "outputs" job.outputs] ++
  (status.widthIdentities.mapIdx fun i identity => workUnit status.primaryProjections.length (i + 1) identity).flatten

def renderValidationBatch (materialization : Pinned → String) (status : Status) : Text :=
  joinLines (headLines status ++ string "materialization_digest" (materialization status.pinned) :: tailLines status)

def renderValidationSchedule (status : Status) (manifestPath : String) : Text :=
  let claimGate := if status.batch.firstRunRequiresCanary then "first-run-canary-after-cohort-complete" else "eligible"
  joinLines
    [string "schema_version" validationScheduleSchema,
      text "name = \"machine-validation\"",
      text "state = \"scheduled-claim-blocked\"",
      text "production_queue_mutation = false",
      [],
      text "[[trigger]]",
      string "id" status.id,
      text "kind = \"validation-run\"",
      string "authority" status.authorityPath,
      string "after" status.batch.trigger,
      text "automatic_materialization = true",
      text "automatic_scheduling = true",
      text "state = \"scheduled-claim-blocked\"",
      string "claim_gate" claimGate,
      string "manifest" manifestPath]

structure Document where
  id : String
  manifestPath : String
  manifestSha256 : String
  schedulePath : String
  scheduleSha256 : String
  summary : ValidationSummary
  renderedManifest : Text
  renderedSchedule : Text

def batchDocument (digests : Digests) (status : Status) (outputRoot schedulePath : String) : Document :=
  let manifestPath := outputRoot ++ "/" ++ status.id ++ "/manifest.toml"
  let rendered := renderValidationBatch digests.materialization status
  let renderedSchedule := renderValidationSchedule status manifestPath
  ⟨status.id, manifestPath, digests.sha256 rendered, schedulePath, digests.sha256 renderedSchedule, status.summary, rendered,
    renderedSchedule⟩

def compileValidationBatch (digests : Digests) (files : ReviewedFiles) (live : LiveState) : Result Document := do
  let status ← compileMachineValidation digests.compilation files live
  require (status.readiness.eligible = true)
    ("machine-validation batch is not eligible: " ++ "; ".intercalate status.readiness.blockers)
  let outputRoot ← files.inside status.batch.outputRoot
  let schedulePath ← files.inside status.batch.schedulerRegistry
  pure (batchDocument digests status outputRoot schedulePath)

end Rendering

section Toolchains

variable {tables : WidthTables} {first second : Host} {p : PlannedRoute × Slot}

/-- `toolchain_identity` of a qualified route. -/
def toolchainIdentity (tools : QualifiedRouteTools) : String := s!"qualified:{tools.routeMaterialDigest}:{tools.recordDigest}"

/-- Neither host qualifies the route, or both do with one identity. -/
def SameToolchain (first second : Host) (routeId : String) : Prop :=
  match first routeId, second routeId with
  | .ok tools, .ok tools' => toolchainIdentity tools = toolchainIdentity tools'
  | .error _, .error _ => True
  | _, _ => False

theorem managedRoute_same (id : String) (mechanics : Mechanics) (markers : List String) :
    ((managedRoute first id mechanics markers).toolchainState = (managedRoute second id mechanics markers).toolchainState ∧
      (managedRoute first id mechanics markers).toolchainIdentity =
        (managedRoute second id mechanics markers).toolchainIdentity) ↔ SameToolchain first second id := by
  unfold managedRoute SameToolchain
  cases first id with
  | error blocker =>
    cases second id with
    | error blocker' => simp
    | ok tools' => simp
  | ok tools =>
    cases second id with
    | error blocker' => simp
    | ok tools' => simp [toolchainIdentity]

theorem slot_same (slot : Slot) :
    ((slot.route first).toolchainState = (slot.route second).toolchainState ∧
      (slot.route first).toolchainIdentity = (slot.route second).toolchainIdentity) ↔
      (slot.shape.isManaged = true → SameToolchain first second slot.shape.id) := by
  cases slot with
  | listed row =>
    cases htools : row.tools with
    | managed =>
      have hmanaged : row.isManaged = true := by rw [RouteRow.isManaged, htools]
      simp only [Slot.route, Slot.shape, loadRoute, htools, hmanaged, forall_const]
      exact managedRoute_same row.id row.toMechanics row.compilerVersionMarkers
    | command compiler archiver ranlib =>
      have hmanaged : row.isManaged = false := by rw [RouteRow.isManaged, htools]
      simp [Slot.route, Slot.shape, loadRoute, htools, hmanaged]
  | made id mechanics markers =>
    simp only [Slot.route, Slot.shape, forall_const]
    exact managedRoute_same id mechanics markers

theorem summary_eq_iff : summary first p = summary second p ↔
    (p.2.shape.isManaged = true → SameToolchain first second p.2.shape.id) := by
  rw [← slot_same]
  constructor
  · intro h
    exact ⟨congrArg RouteSummary.toolchainState h, congrArg RouteSummary.toolchainIdentity h⟩
  · rintro ⟨hstate, hidentity⟩
    have hid : (p.2.route first).id = (p.2.route second).id := p.2.route_id.trans p.2.route_id.symm
    have hmechanics : (p.2.route first).toMechanics = (p.2.route second).toMechanics :=
      p.2.route_mechanics.trans p.2.route_mechanics.symm
    unfold summary summarizeRoute
    rw [hstate, hidentity, hid, hmechanics]

/-- The hosts agree on the toolchains of the width. -/
def SameToolchains (tables : WidthTables) (first second : Host) : Prop :=
  ∀ p ∈ tables.places, p.2.shape.isManaged = true → SameToolchain first second p.2.shape.id

/-- The compiled width is the same on two hosts exactly where they agree on its toolchains. -/
theorem width_eq_iff : tables.width first = tables.width second ↔ SameToolchains tables first second := by
  have hroutes : tables.places.map (summary first) = tables.places.map (summary second) ↔
      SameToolchains tables first second := by
    rw [List.map_inj_left]
    exact forall₂_congr fun p _ => summary_eq_iff
  rw [← hroutes]
  constructor
  · exact fun h => congrArg CWidth.routes h
  · intro h
    simp only [WidthTables.width, WidthTables.rows, h]

end Toolchains

section Lines

variable {xs ys zs : List Text}

theorem joinLines_cons (line : Text) (lines : List Text) : joinLines (line :: lines) = line ++ 10 :: joinLines lines := by
  have hne : lines ++ [[]] ≠ [] := by simp
  rw [joinLines, List.cons_append, List.intercalate_cons_of_ne_nil hne, joinLines, List.append_assoc]
  rfl

theorem joinLines_cancel (h : joinLines (xs ++ ys) = joinLines (xs ++ zs)) : joinLines ys = joinLines zs := by
  induction xs with
  | nil => exact h
  | cons line xs ih =>
    rw [List.cons_append, List.cons_append, joinLines_cons, joinLines_cons] at h
    exact ih (List.cons.inj (List.append_cancel_left h)).2

end Lines

section Manifests

variable {materialization : Pinned → String} {authority : Authority} {width width' : CWidth} {live live' : LiveState}
  {compilationDigest : CWidth → String}

/-- The manifest depends on the width alone. -/
theorem renderValidationBatch_congr (live live' : LiveState) :
    renderValidationBatch materialization (validationStatus compilationDigest authority width live) =
      renderValidationBatch materialization (validationStatus compilationDigest authority width live') := rfl

/-- A digest that begins with another letter makes another manifest. -/
theorem renderValidationBatch_ne
    (h : materialization (validationStatus compilationDigest authority width live).pinned = "a")
    (h' : materialization (validationStatus compilationDigest authority width' live').pinned = "b") :
    renderValidationBatch materialization (validationStatus compilationDigest authority width live) ≠
      renderValidationBatch materialization (validationStatus compilationDigest authority width' live') := by
  intro heq
  have hcancel := @joinLines_cancel (headLines (validationStatus compilationDigest authority width live)) _ _ heq
  rw [h, h', joinLines_cons, joinLines_cons] at hcancel
  have hline (letter : String) (rest : Text) : string "materialization_digest" letter ++ rest =
      (text "materialization_digest" ++ [32, 61, 32, 34]) ++ ((text letter).flatMap encodeRawChar ++ 34 :: rest) := by
    simp [string, TomlTables.renderPair, renderValue, dumpsRaw]
  rw [hline, hline] at hcancel
  have hletters := List.append_cancel_left hcancel
  have hfirst : (97 : CodePoint) = 98 := (List.cons.inj hletters).1
  exact absurd hfirst (by decide)

end Manifests

section Batches

variable {digests : Digests} {files : ReviewedFiles} {live first second : LiveState} {document : Document}

/-- The cohort is eligible and the width has not regressed. -/
structure Ready (authority : Authority) (width : CWidth) (live : LiveState) : Prop where
  distinct : (widthIdentities width).length = (expectedPairs (widthIdentities width)).card
  baseline : authority.baseline ≤ (expectedPairs (widthIdentities width)).card
  eligible : (validationStatus (fun _ => "") authority width live).readiness.eligible = true

/-- When the batch compiles, and what it is then. -/
theorem compileValidationBatch_eq_ok : compileValidationBatch digests files live = .ok document ↔
    ∃ authority tables outputRoot schedulePath, files.validation = .ok authority ∧
      readWidth files.toWidthFiles (widthId authority.widthAuthority) = .ok tables ∧
      Ready authority (tables.width live.host) live ∧
      files.inside authority.batch.outputRoot = .ok outputRoot ∧
      files.inside authority.batch.schedulerRegistry = .ok schedulePath ∧
      batchDocument digests (validationStatus digests.compilation authority (tables.width live.host) live) outputRoot
        schedulePath = document := by
  have hwidth (id : String) (width : CWidth) : compileCWidth live.host files.toWidthFiles id = .ok width ↔
      ∃ tables, readWidth files.toWidthFiles id = .ok tables ∧ tables.width live.host = width := by
    rw [compileCWidth_eq]
    exact map_eq_ok
  unfold compileValidationBatch compileMachineValidation
  simp only [bind_eq_ok, require_eq_ok, pure_eq_ok, hwidth]
  constructor
  · rintro ⟨_, ⟨authority, hauthority, _, ⟨tables, htables, rfl⟩, _, ⟨hdistinct, hbaseline⟩, rfl⟩, _, heligible, outputRoot,
      houtput, schedulePath, hschedule, hdocument⟩
    exact ⟨authority, tables, outputRoot, schedulePath, hauthority, htables, ⟨hdistinct, hbaseline, heligible⟩, houtput,
      hschedule, hdocument⟩
  · rintro ⟨authority, tables, outputRoot, schedulePath, hauthority, htables, hready, houtput, hschedule, hdocument⟩
    exact ⟨_, ⟨authority, hauthority, _, ⟨tables, htables, rfl⟩, ⟨⟩, ⟨hready.distinct, hready.baseline⟩, rfl⟩, ⟨⟩,
      hready.eligible, outputRoot, houtput, schedulePath, hschedule, hdocument⟩

/-- The state has an eligible cohort: the batch compiles in it. -/
def Accepted (files : ReviewedFiles) (live : LiveState) : Prop :=
  ∃ digests document, compileValidationBatch digests files live = .ok document

/-- No digest tells the manifests of two states apart. -/
def SameManifest (files : ReviewedFiles) (first second : LiveState) : Prop :=
  ∀ digests document document', compileValidationBatch digests files first = .ok document →
    compileValidationBatch digests files second = .ok document' → document.renderedManifest = document'.renderedManifest

/-- The hosts of two states agree on every toolchain of the width that the authority names. -/
def SameWidthToolchains (files : ReviewedFiles) (first second : LiveState) : Prop :=
  ∀ authority tables, files.validation = .ok authority →
    readWidth files.toWidthFiles (widthId authority.widthAuthority) = .ok tables →
    SameToolchains tables first.host second.host

/-- Two widths that differ have other manifests, once their digests do. -/
theorem width_eq_of_sameManifest (hsame : SameManifest files first second) {authority : Authority} {tables : WidthTables}
    {outputRoot schedulePath : String} (hauthority : files.validation = .ok authority)
    (htables : readWidth files.toWidthFiles (widthId authority.widthAuthority) = .ok tables)
    (hfirst : Ready authority (tables.width first.host) first) (hsecond : Ready authority (tables.width second.host) second)
    (houtput : files.inside authority.batch.outputRoot = .ok outputRoot)
    (hschedule : files.inside authority.batch.schedulerRegistry = .ok schedulePath) :
    tables.width first.host = tables.width second.host := by
  classical
  by_contra hne
  let digests : Digests :=
    ⟨fun width => if width = tables.width first.host then "a" else "b", fun pinned => pinned.authorities.widthCompilationDigest,
      fun _ => ""⟩
  have hmanifest := hsame digests _ _
    (compileValidationBatch_eq_ok.mpr ⟨authority, tables, _, _, hauthority, htables, hfirst, houtput, hschedule, rfl⟩)
    (compileValidationBatch_eq_ok.mpr ⟨authority, tables, _, _, hauthority, htables, hsecond, houtput, hschedule, rfl⟩)
  exact renderValidationBatch_ne (if_pos rfl) (if_neg fun h => hne h.symm) hmanifest

end Batches

namespace Requalified

def profileName (n : Nat) : String := String.ofList (List.replicate (n + 1) 'o')

theorem profileName_injective : Function.Injective profileName := by
  intro m n h
  have hlength := congrArg List.length (String.ofList_injective h)
  simpa using hlength

def treatment (n : Nat) : Treatment := ⟨profileName n, [], [], [], "compile", "static-archive-members", [], []⟩

def profile (n : Nat) : Profile := ⟨profileName n, "gcc", "c", some (profileName n)⟩

theorem routes_nodup : ([(⟨linuxMechanics, "linux-gcc", ["13.2"], .managed⟩ : RouteRow)].map RouteRow.id).Nodup := by decide

/-- One managed route and as many treatments as the baseline asks for, each for every route. -/
def worker : Worker where
  routes := [⟨linuxMechanics, "linux-gcc", ["13.2"], .managed⟩]
  treatments := (List.range 222).map treatment
  routeIds := routes_nodup
  treatmentIds := by
    rw [List.map_map]
    exact List.nodup_range.map profileName_injective

def authority : Authority where
  id := "cohort-001"
  label := "Cohort"
  languageId := "c"
  batchKind := "validation-run"
  sourcePack := "sources/c.toml"
  sourcePackSha256 := pin
  widthAuthority := "coverage/c-width-v1.toml"
  cohortSize := 2
  baseline := 222
  reportGlob := "artifacts/validation-runs/*/hash-report.json"
  randomization := ⟨"uniform", "sha256-ranked-v1", pin, ["lz4@1.10.0", "zstd@1.5.7"], ["zstd@1.5.7"], ["lz4@1.10.0"]⟩
  batch := ⟨true, true, "plans/validation-schedule.toml", false, true, "plans/validation-materialized",
    "rebuild-from-reviewed-recipes", "whole-archive-shared-image-symbolic-v2", false,
    "unstripped-shared-image-with-link-map-and-audit", "debug-stripped-symbol-indexed", "bounded-canary-only",
    "after-complete-ten-library-cohort"⟩
  primaryProjections := ["exact-signature-present-owner"]
  hashDiscriminationJob := ⟨"hash-discrimination", "validation-postprocess", true, true, "validation/method.toml",
    "validation/corpus.toml", "validation/backends.toml", ["classify-signatures", "analyse-hash-populations", "update-corpus-generation",
      "query-corpus-index", "publish-report", "retention"],
    ["hash-evidence.sqlite3", "hash-report.json", "corpus-lookup.json", "retention.json"], pin, pin, pin⟩
  authorityPath := "validation/machine-validation.toml"
  authoritySha256 := pin
  baselineFixed := rfl

def files : ReviewedFiles where
  authority _ := .ok excludingAuthority
  axes := .ok ⟨1, 1, 222, 1, 1, 1⟩
  coverageUniverse := .ok ((List.range 222).map profile)
  catalog := .ok ⟨[⟨"linux-gcc", "linux-x86_64", "gcc", "gcc-13"⟩], ["linux-gcc"], [⟨"gcc-13", "13.2"⟩]⟩
  routePlan _ := .ok ⟨[⟨"linux-gcc", "Linux GCC", "linux-x86_64", "gcc-13"⟩], pin⟩
  worker _ := .ok worker
  factorSpace := .ok ()
  validation := .ok authority
  inside := .ok

def identities : List Identity := (List.range 222).map fun n => ⟨"linux-gcc", profileName n, some (profileName n)⟩

/-- Every library has evidence for every identity. -/
def live (host : Host) (results : Results) : LiveState :=
  ⟨host, fun _ => expectedPairs identities, [], fun _ _ => results, fun _ _ => "scheduler-registry-absent"⟩

theorem widthId_eq : widthId authority.widthAuthority = "c-width-v1" := by decide

theorem expectedPairs_card : (expectedPairs identities).card = 222 := by
  have hnodup : (identities.map fun row => (row.routeId, row.treatment)).Nodup := by
    rw [identities, List.map_map]
    exact List.nodup_range.map fun m n h => profileName_injective (congrArg Prod.snd h)
  rw [expectedPairs, List.toFinset_card_of_nodup hnodup, identities, List.map_map, List.length_map, List.length_range]

theorem readWidth_ok : ∃ tables, readWidth files.toWidthFiles "c-width-v1" = .ok tables ∧
    tables.treatments = (List.range 222).map treatment ∧ tables.profiles = ((List.range 222).map profile).filter
      (fun row => row.languageId = "c") ∧
    tables.places = [(⟨"linux-gcc", "Linux GCC", "linux-x86_64", "gcc-13"⟩,
      .listed ⟨linuxMechanics, "linux-gcc", ["13.2"], .managed⟩)] :=
  ⟨_, rfl, rfl, rfl, rfl⟩

def place : PlannedRoute × Slot :=
  (⟨"linux-gcc", "Linux GCC", "linux-x86_64", "gcc-13"⟩, .listed ⟨linuxMechanics, "linux-gcc", ["13.2"], .managed⟩)

structure Read (tables : WidthTables) : Prop where
  treatments : tables.treatments = (List.range 222).map treatment
  profiles : tables.profiles = (List.range 222).map profile
  places : tables.places = [place]

theorem exists_read : ∃ tables, readWidth files.toWidthFiles (widthId authority.widthAuthority) = .ok tables ∧ Read tables := by
  obtain ⟨tables, htables, htreatments, hprofiles, hplaces⟩ := readWidth_ok
  refine ⟨tables, by rw [widthId_eq, htables], htreatments, ?_, hplaces⟩
  rw [hprofiles, List.filter_eq_self]
  intro row hrow
  obtain ⟨n, -, rfl⟩ := List.mem_map.mp hrow
  rfl

variable {tables : WidthTables} {host : Host}

theorem Read.offers (h : Read tables) {n : Nat} (hn : n < 222) : tables.Offers host place (profile n) := by
  refine ⟨treatment n, ?_, ⟨rfl, rfl⟩, .inl rfl⟩
  rw [h.treatments]
  exact List.mem_map_of_mem (List.mem_range.mpr hn)

theorem Read.offered (h : Read tables) : tables.offered host = (List.range 222).map fun n => (place, profile n) := by
  have hpairs : tables.pairs = (List.range 222).map fun n => (place, profile n) := by
    rw [WidthTables.pairs, h.places, h.profiles]
    simp [SProd.sprod, List.product]
  rw [WidthTables.offered, hpairs, List.filter_eq_self]
  intro k hk
  obtain ⟨n, hn, rfl⟩ := List.mem_map.mp hk
  exact decide_eq_true (h.offers (List.mem_range.mp hn))

/-- Whatever the host qualifies, every profile is an identity of the width. -/
theorem Read.identities (h : Read tables) : widthIdentities (tables.width host) = identities := by
  have hrows : selectedPairs (tables.rows host) = (tables.offered host).map (tables.row host) :=
    WidthTables.selectedPairs_eq
  have hroute : (summary host place).id = "linux-gcc" := WidthTables.summary_id
  show (selectedPairs (tables.rows host)).map _ = _
  rw [hrows, h.offered, List.map_map, List.map_map, Requalified.identities]
  refine List.map_congr_left fun n _ => ?_
  simp only [Function.comp_apply, WidthTables.row, applicabilityRow, hroute]
  rfl

theorem Read.ready (h : Read tables) (host other : Host) (results : Results) :
    Ready authority (tables.width host) (live other results) := by
  refine ⟨?_, ?_, ?_⟩
  · rw [h.identities, expectedPairs_card, Requalified.identities, List.length_map, List.length_range]
  · rw [h.identities, expectedPairs_card]
    exact le_rfl
  · have hcomplete (id : String) : (libraryRow authority.randomization (expectedPairs Requalified.identities)
        (fun _ => expectedPairs Requalified.identities) id).state = "complete" := by
      simp [libraryRow]
    simp only [validationStatus, h.identities, live, decide_eq_true_eq]
    have hall : ∀ id ∈ authority.randomization.canonicalIds, ((fun row : LibraryRow => decide (row.state = "complete")) ∘
        libraryRow authority.randomization (expectedPairs Requalified.identities)
          fun _ => expectedPairs Requalified.identities) id = true := by
      intro id _
      rw [Function.comp_apply, decide_eq_true_eq]
      exact hcomplete id
    have hsize : authority.randomization.canonicalIds.length = authority.cohortSize := rfl
    rw [List.countP_map, List.countP_eq_length.mpr hall, hsize]

theorem accepted (host : Host) (results : Results) : Accepted files (live host results) := by
  obtain ⟨tables, htables, hread⟩ := exists_read
  exact ⟨⟨fun _ => "", fun _ => "", fun _ => ""⟩, _, compileValidationBatch_eq_ok.mpr
    ⟨authority, tables, _, _, rfl, htables, hread.ready host host results, rfl, rfl, rfl⟩⟩

end Requalified

end FidbPoc.Width.Pinning
