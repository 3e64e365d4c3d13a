import FidbPoc.Lib.Json
import FidbPoc.Lib.Patterns
import FidbPoc.Width.Compile

namespace FidbPoc.Width

open FidbPoc.Lib FidbPoc.Lib.Checked FidbPoc.Lib.Patterns

def batchFields : List String :=
  ["schema_version", "id", "name", "label", "state", "language_id", "purpose", "source_pack", "source_pack_sha256",
    "source_ids", "width_authority", "width_authority_sha256", "width_route_profile_digest", "width_study",
    "width_study_sha256", "recipe_policy", "queue_policy", "expected"]

def expectedFields : List String :=
  ["libraries", "route_profiles", "compiler_identities", "executable_treatments", "executions_per_library",
    "total_executions"]

/-- `set(document) == fields`. -/
def hasFields (document : Json.Fields) (fields : List String) : Bool :=
  document.all (fun f => f.1 ∈ fields) && fields.all fun field => document.any fun f => f.1 = field

def nonEmpty (document : Json.Fields) (field : String) : Result String :=
  match (document.get? field).bind Json.str? with
  | none => .error s!"width batch {field} must be a non-empty string"
  | some text => do
    require (¬text.toList.all isSpace = true) s!"width batch {field} must be a non-empty string"
    pure text

/-- `str(value)` where it can be a digest: a text, or an integer of 64 digits. -/
def digestText : Option Json → Option String
  | some (.str text) => some text
  | some (.int value) => some (toString value)
  | _ => none

def digest (document : Json.Fields) (field : String) : Result String :=
  match (digestText (document.get? field)).filter isSha256 with
  | none => .error s!"width batch {field} must be a lowercase SHA-256"
  | some text => pure text

/-- `[a-z0-9][a-z0-9._+-]*`. -/
def isToken (text : String) : Bool :=
  match text.toList with
  | [] => false
  | c :: rest => isLower c && rest.all fun d => isLower d || d = '.' || d = '_' || d = '+' || d = '-'

/-- Where a path of the project leads once its links are followed. -/
inductive Place
  | outside
  | missing
  | file (name sha256 : String)

/-- The name without its last suffix. -/
def stem (name : String) : String :=
  let suffix := name.toList.reverse.takeWhile (· ≠ '.')
  let rest := name.toList.reverse.drop (suffix.length + 1)
  if suffix = [] ∨ rest = [] then name else String.ofList rest.reverse

structure Source where
  rank : Nat
  id : String
  label : String
  version : String
  url : String
  sha256 : String
  deriving DecidableEq

structure SourcePack where
  languageId : String
  studyPath : String
  sources : List Source

/-- A width study, or a priority overlay, which has no state to be disarmed. -/
structure Study where
  overlay : Bool
  languageId : String
  state : String
  sourceIds : List String

/-- The files that a batch binds, as their loaders return them. -/
structure BatchFiles extends WidthFiles where
  place : String → Place
  sourcePack : String → Result SourcePack
  study : String → Result Study
  batchPath : Option String
  batchSha256 : String

def projectFile (files : BatchFiles) (document : Json.Fields) (field : String) :
    Result (String × String × String) := do
  let text ← nonEmpty document field
  require (isAbsolute text = false ∧ ".." ∉ parts text) s!"width batch {field} must stay inside the project"
  match files.place text with
  | .outside => .error s!"width batch {field} must stay inside the project"
  | .missing => .error s!"width batch {field} does not exist: {text}"
  | .file name sha256 => pure (text, name, sha256)

def checkedDigest (document : Json.Fields) (field name actual : String) : Result String := do
  let pinned ← digest document field
  require (actual = pinned) s!"width batch {field} no longer matches {name}: expected {pinned}, got {actual}"
  pure actual

def sourceIds (document : Json.Fields) : Result (List String) := do
  let message := "width batch source_ids must be unique lowercase safe tokens"
  match (document.get? "source_ids").bind Json.items? with
  | none => .error message
  | some items =>
    require (items ≠ [] ∧ items.all (fun item => item.str?.any isToken) = true) message
    require ((items.filterMap Json.str?).Nodup) message
    pure (items.filterMap Json.str?)

/-- The counts that a batch expects, and those that the width gives. -/
structure Counts where
  libraries : Int
  routeProfiles : Int
  compilerIdentities : Int
  executableTreatments : Int
  executionsPerLibrary : Int
  totalExecutions : Int
  deriving DecidableEq

/-- The dictionary of the counts, as Python prints it. -/
def Counts.show (counts : Counts) : String :=
  s!"\x7b'libraries': {counts.libraries}, 'route_profiles': {counts.routeProfiles}, " ++
    s!"'compiler_identities': {counts.compilerIdentities}, " ++
    s!"'executable_treatments': {counts.executableTreatments}, " ++
    s!"'executions_per_library': {counts.executionsPerLibrary}, " ++
    s!"'total_executions': {counts.totalExecutions}\x7d"

def expectedCounts (document : Json.Fields) : Result Counts :=
  match ((document.get? "expected").bind Json.fields?).filter (hasFields · expectedFields) with
  | none => .error "width batch expected counts are incomplete or unsupported"
  | some expected => do
    let count (field : String) : Int := ((expected.get? field).bind Json.int?).getD 0
    require (∀ field ∈ expectedFields, 0 < count field) "width batch expected counts must be positive integers"
    pure ⟨count "libraries", count "route_profiles", count "compiler_identities", count "executable_treatments",
      count "executions_per_library", count "total_executions"⟩

/-- The texts of a batch that its compilation repeats. -/
structure Head where
  id : String
  name : String
  label : String
  state : String
  languageId : String
  purpose : String
  recipePolicy : String
  queuePolicy : String
  deriving DecidableEq

def readHead (document : Json.Fields) : Result Head := do
  require (hasFields document batchFields = true) "width batch has unsupported or missing fields"
  require ((document.get? "schema_version").any (Json.isText "fidb-width-batch/v1") = true)
    "unsupported width batch schema"
  let id ← nonEmpty document "id"
  let name ← nonEmpty document "name"
  let label ← nonEmpty document "label"
  let languageId ← nonEmpty document "language_id"
  let purpose ← nonEmpty document "purpose"
  let recipePolicy ← nonEmpty document "recipe_policy"
  let queuePolicy ← nonEmpty document "queue_policy"
  require (isToken id = true) "width batch id must be a lowercase safe token"
  require ((document.get? "state").any (Json.isText "defined-disarmed") = true)
    "width batch must remain explicitly defined-disarmed"
  require (languageId = "c") "width batch currently supports only C"
  pure ⟨id, name, label, "defined-disarmed", languageId, purpose, recipePolicy, queuePolicy⟩

/-- The files of a batch and the digests it pins them by. -/
structure Bindings where
  sourcePack : String
  sourcePackSha256 : String
  width : String
  widthName : String
  widthSha256 : String
  study : String
  studySha256 : String
  deriving DecidableEq

def readBindings (files : BatchFiles) (document : Json.Fields) : Result Bindings := do
  let source ← projectFile files document "source_pack"
  let width ← projectFile files document "width_authority"
  let study ← projectFile files document "width_study"
  let sourceSha256 ← checkedDigest document "source_pack_sha256" source.2.1 source.2.2
  let widthSha256 ← checkedDigest document "width_authority_sha256" width.2.1 width.2.2
  let studySha256 ← checkedDigest document "width_study_sha256" study.2.1 study.2.2
  pure ⟨source.1, sourceSha256, width.1, width.2.1, widthSha256, study.1, studySha256⟩

def selectSources (sources : List Source) (requested : List String) : Result (List Source) := do
  if requested = [] then
    pure sources
  else
    require requested.Nodup
      ("duplicate source id: " ++
        ", ".intercalate ((requested.filter fun item => 1 < requested.count item).dedup.mergeSort))
    let unknown := (requested.filter fun item => (lookupLast Source.id sources item).isNone).dedup
    require (unknown = []) ("unknown reviewed source id: " ++ ", ".intercalate unknown.mergeSort)
    pure (requested.filterMap (lookupLast Source.id sources))

def selectLibraries (files : BatchFiles) (head : Head) (ids : List String) (bindings : Bindings) :
    Result (List Source) := do
  let pack ← files.sourcePack bindings.sourcePack
  let selected ← selectSources pack.sources ids
  require (pack.languageId = head.languageId) "width batch source pack language does not match"
  require (pack.studyPath = bindings.study) "width batch source pack and width study do not match"
  let study ← files.study bindings.study
  require (study.overlay = true ∨ study.state = "defined-disarmed")
    "width batch study must remain explicitly defined-disarmed"
  require (study.languageId = head.languageId) "width batch study language does not match"
  require (∀ id ∈ ids, id ∈ study.sourceIds) "width batch selects sources outside its width study"
  pure selected

/-- The rows that a batch executes: those a qualified host can, and those of a route that is not qualified. -/
def selectedPairs (rows : List Applicability) : List Applicability :=
  rows.filter fun row => row.state = .executable ∨ row.state = .unavailable

def actualCounts (libraries : Nat) (width : CWidth) : Counts :=
  let pairs := selectedPairs width.applicability
  let executions := pairs.length * registeredRows width.artifactProfiles * registeredRows width.analysisProfiles *
    width.summary.selectedReplay
  { libraries := libraries
    routeProfiles := width.routes.length
    compilerIdentities := (width.routes.map RouteSummary.compilerId).dedup.length
    executableTreatments := (pairs.map Applicability.treatmentId).dedup.length
    executionsPerLibrary := executions
    totalExecutions := libraries * executions }

structure ExecutionPair where
  routeId : String
  treatmentId : Option String
  targetOs : String
  architecture : String
  compilerFamily : String
  deriving DecidableEq

/-- A selected row with the target of the first route of its id. -/
def executionPair (routes : List RouteSummary) (row : Applicability) : Option ExecutionPair :=
  (routes.find? fun route => route.id = row.routeId).map fun route =>
    ⟨row.routeId, row.treatmentId, route.targetOs, route.architecture, route.compilerFamily⟩

structure StableSummary extends Counts where
  applicablePairsPerLibrary : Nat
  unimplementedPairsPerLibrary : Nat
  declaredMaximumBuildCells : Nat
  deriving DecidableEq

/-- What the identity of a batch is taken of. -/
structure StableBody where
  head : Head
  authorityPath : String
  authoritySha256 : String
  bindings : Bindings
  routeProfileDigest : String
  libraries : List Source
  summary : StableSummary
  deriving DecidableEq

structure WidthBatch extends StableBody where
  executionPairs : List (Option ExecutionPair)
  locallyQualifiedRoutes : Nat
  locallyExecutablePerLibrary : Nat
  batchDigest : String
  deriving DecidableEq

def stableSummary (libraries : Nat) (width : CWidth) : StableSummary :=
  { actualCounts libraries width with
    applicablePairsPerLibrary := width.summary.applicableRouteProfilePairs
    unimplementedPairsPerLibrary := width.summary.unimplementedApplicablePairs
    declaredMaximumBuildCells := libraries * width.summary.declaredMaximumBuildCellsOneFamily }

/-- Load and cross-check one batch. `hash` is SHA-256 of the canonical JSON of a body. -/
def loadWidthBatch (hash : StableBody → String) (files : BatchFiles) (document : Json.Fields) (host : Host) :
    Result WidthBatch := do
  let head ← readHead document
  let ids ← sourceIds document
  let expected ← expectedCounts document
  let bindings ← readBindings files document
  let selected ← selectLibraries files head ids bindings
  let width ← compileCWidth host files.toWidthFiles (stem bindings.widthName)
  require (width.languageId = head.languageId) "width batch authority language does not match"
  require (width.widthPath = bindings.width) "width batch compiler resolved a different width authority"
  let pinned ← digest document "width_route_profile_digest"
  require (width.routeProfileDigest = pinned) "width batch route profile digest no longer matches reviewed width"
  require (actualCounts selected.length width = expected)
    ("width batch expected counts no longer match compiled authority: expected " ++ expected.show ++ ", got " ++
      (actualCounts selected.length width).show)
  match files.batchPath with
  | none => .error "the batch is not in the subpath of the project"
  | some authorityPath =>
    let body : StableBody :=
      ⟨head, authorityPath, files.batchSha256, bindings, pinned, selected, stableSummary selected.length width⟩
    pure
      { body with
        executionPairs := (selectedPairs width.applicability).map (executionPair width.routes)
        locallyQualifiedRoutes := width.summary.qualifiedRoutes
        locallyExecutablePerLibrary := width.summary.feasibleFullPathExecutions
        batchDigest := hash body }

end FidbPoc.Width
