import FidbPoc.Coordinator.Config
import FidbPoc.Lib.Dict
import FidbPoc.Lib.Leaders
import FidbPoc.Lib.Python
import FidbPoc.Width.Batch

namespace FidbPoc.Planning

open FidbPoc.Lib FidbPoc.Lib.Checked FidbPoc.Lib.Patterns FidbPoc.Width

/-- The instance that membership tests of pairs are decided by, under one name. -/
scoped instance lawfulBEqPair : LawfulBEq (String × String) := inferInstance

/-- `list(dict.fromkeys(texts))`. -/
def fromKeys (texts : List String) : List String := Leaders.firstBy id texts

/-- `SAFE_PATH_COMPONENT`: `[A-Za-z0-9][A-Za-z0-9._+-]*`. -/
def isPathComponent (text : String) : Bool :=
  match text.toList with
  | [] => false
  | c :: rest => c.isAlphanum && rest.all fun d => d.isAlphanum || d = '.' || d = '_' || d = '+' || d = '-'

/-- What planning reads of a reviewed native recipe. -/
structure Library where
  name : String
  version : String
  supportedTargetOs : List String
  supportedArchitectures : List String
  supportedCompilerFamilies : List String
  unsupportedRoutes : List String
  safeName : isPathComponent name = true
  safeVersion : isPathComponent version = true

def Library.identifier (library : Library) : String := library.name ++ "-" ++ library.version

def recipeIdentity (name version : String) : String := name ++ "@" ++ version

def Library.identity (library : Library) : String := recipeIdentity library.name library.version

/-- An empty axis is unbounded. -/
def Library.appliesTo (library : Library) (targetOs architecture compilerFamily routeId : String) : Bool :=
  (library.supportedTargetOs.isEmpty || targetOs ∈ library.supportedTargetOs) &&
    (library.supportedArchitectures.isEmpty || architecture ∈ library.supportedArchitectures) &&
    (library.supportedCompilerFamilies.isEmpty || compilerFamily ∈ library.supportedCompilerFamilies) &&
    decide (routeId ∉ library.unsupportedRoutes)

def addKey (library : Library) (recipes : Dict String Library) (key : String) : Result (Dict String Library) := do
  require ((recipes.get? key).isNone = true) s!"duplicate recipe request key: {key}"
  pure (recipes.set key library)

def addRecipe (recipes : Dict String Library) (library : Library) : Result (Dict String Library) :=
  [library.identifier, library.identity].foldlM (addKey library) recipes

/-- A name alone stands for its only version. -/
def addFamily (libraries : List Library) (recipes : Dict String Library) (name : String) : Dict String Library :=
  match libraries.filter fun library => library.name = name with
  | [library] => recipes.set name library
  | _ => recipes

def recipeCatalog (libraries : List Library) : Result (Dict String Library) := do
  let recipes ← libraries.foldlM addRecipe Dict.empty
  pure ((fromKeys (libraries.map Library.name)).foldl (addFamily libraries) recipes)

def resolveRequests (libraries : List Library) (requests : List String) : Result (List Library) := do
  require (requests ≠ []) "at least one library request is required"
  let catalog ← recipeCatalog libraries
  let missing := requests.filter fun request => (catalog.get? request).isNone
  require (missing = []) ("no approved recipes for " ++ ", ".intercalate missing)
  let resolved := requests.filterMap catalog.get?
  require (resolved.map Library.identifier).Nodup "library requests resolve to duplicate recipes"
  pure resolved

/-- The routes and treatments that a matrix names, in its order. -/
def selectConfiguration (configuration : Configuration) (routeIds treatmentIds : List String) : Result Configuration := do
  let missingRoutes := routeIds.filter fun id => (lookupLast Route.id configuration.routes id).isNone
  require (missingRoutes = []) ("unknown routes: " ++ ", ".intercalate missingRoutes.mergeSort)
  let missingTreatments := treatmentIds.filter fun id => (lookupLast Treatment.id configuration.treatments id).isNone
  require (missingTreatments = []) ("unknown treatments: " ++ ", ".intercalate missingTreatments.mergeSort)
  pure
    ⟨routeIds.filterMap (lookupLast Route.id configuration.routes),
      treatmentIds.filterMap (lookupLast Treatment.id configuration.treatments)⟩

/-- The current qualification of a batch that is not exempt. -/
structure Qualification where
  authorityPath : String
  authoritySha256 : String
  pipelineAuthorityPath : String
  pipelineAuthoritySha256 : String
  inputDigest : String
  qualificationDigest : String
  evidencePath : String
  evidenceSha256 : String
  deriving DecidableEq

structure Gate extends Qualification where
  batchId : String
  batchDigest : String
  deriving DecidableEq

/-- The authorities of a project, as their loaders return them. -/
structure PlanFiles where
  batch : String → Result (BatchFiles × Json.Fields)
  width : WidthFiles
  recipes : List Library
  /-- the exempt batches of the qualification pipeline, each with its digest -/
  exemptions : List (String × String)
  /-- what the qualification of a batch says, where it is satisfied; with or without its routes validated -/
  qualification : Bool → WidthBatch → Option Qualification
  /-- the sensitivity factors, the factor variants and the toolchain registry can be read -/
  catalogs : Result Unit

def recipeId (source : Source) : String := recipeIdentity source.id source.version

section Gates

variable (hash : StableBody → String) (files : PlanFiles) (host : Host)

def loadBatch (path : String) : Result WidthBatch := do
  let loaded ← files.batch path
  loadWidthBatch hash loaded.1 loaded.2 host

def qualificationGate (validateRoutes : Bool) (batch : WidthBatch) : Result (Option Gate) :=
  let blocked := s!"campaign materialization blocked by qualification: {batch.head.id}"
  match files.exemptions.find? fun exemption => exemption.1 = batch.head.id with
  | some exemption => if exemption.2 = batch.batchDigest then .ok none else .error blocked
  | none =>
    match files.qualification validateRoutes batch with
    | none => .error blocked
    | some qualification => .ok (some ⟨qualification, batch.head.id, batch.batchDigest⟩)

/-- The gates of the batches that are not exempt; none may be blocked. -/
def requireQualificationGates (validateRoutes : Bool) (batches : List WidthBatch) : Result (List Gate) := do
  let gates ← batches.mapM (qualificationGate files validateRoutes)
  pure (gates.filterMap id)

def validateEmbeddedGates (batches : List WidthBatch) (embedded : List Gate) : Result Unit := do
  let current ← requireQualificationGates files false batches
  require (embedded.map Gate.batchId).Nodup "plan qualification gates contain duplicate batch ids"
  require ((∀ gate ∈ current, gate.batchId ∈ embedded.map Gate.batchId) ∧
      ∀ gate ∈ embedded, gate.batchId ∈ current.map Gate.batchId)
    "plan qualification gates do not cover its future width batches"
  require (∀ gate ∈ current, embedded.find? (fun row => row.batchId = gate.batchId) = some gate)
    "plan qualification gate is stale"

end Gates

end FidbPoc.Planning
