import FidbPoc.Width.Config

namespace FidbPoc.Width

open FidbPoc.Lib.Checked

/-- `{row.id: row for row in rows}.get(id)`: the last row of an id stands. -/
def lookupLast {α : Type} (key : α → String) (rows : List α) (id : String) : Option α :=
  rows.reverse.find? fun row => key row = id

structure CatalogRoute where
  id : String
  targetId : String
  compilerFamily : String
  compilerId : String
  deriving DecidableEq

structure Compiler where
  id : String
  version : String
  deriving DecidableEq

/-- What the width reads of the toolchain pack catalogue. -/
structure Catalog where
  routes : List CatalogRoute
  qualifications : List String
  compilers : List Compiler

structure PlannedRoute where
  id : String
  label : String
  targetId : String
  compilerId : String
  deriving DecidableEq

/-- A resolved toolchain profile. Neither part depends on what the host has cached. -/
structure RoutePlan where
  routes : List PlannedRoute
  profileDigest : String

abbrev Templates := List ((String × String) × Mechanics)

def template? (templates : Templates) (targetId family : String) : Option Mechanics :=
  (templates.find? fun t => t.1 = (targetId, family)).map Prod.snd

/-- One worker route in the search for the mechanics of a target and a compiler family. -/
def addTemplate (catalog : Catalog) (templates : Templates) (worker : Route) : Result Templates :=
  match worker.managedToolchainRoute.bind (lookupLast CatalogRoute.id catalog.routes) with
  | none => pure templates
  | some catalogRoute =>
    match template? templates catalogRoute.targetId worker.compilerFamily with
    | none => pure (templates ++ [((catalogRoute.targetId, worker.compilerFamily), worker.toMechanics)])
    | some existing => do
      require (worker.toMechanics = existing)
        (s!"conflicting worker templates for target/compiler ('{catalogRoute.targetId}', " ++
          s!"'{worker.compilerFamily}')")
      pure templates

def versionMarkers (catalogRoute : CatalogRoute) (compiler : Compiler) : List String :=
  if catalogRoute.compilerFamily = "llvm-clang" then [s!"clang version {compiler.version}"]
  else [compiler.version, "Free Software Foundation"]

/-- The worker of one planned route: the one that `worker.toml` lists, or one made of its target's template. -/
def materializeRoute (host : Host) (catalog : Catalog) (routes : List Route) (templates : Templates) (routeId : String) :
    Result Route :=
  match lookupLast Route.id routes routeId with
  | some existing => pure existing
  | none =>
    match lookupLast CatalogRoute.id catalog.routes routeId, decide (routeId ∈ catalog.qualifications) with
    | some catalogRoute, true =>
      match template? templates catalogRoute.targetId catalogRoute.compilerFamily with
      | none => .error s!"width route has no target worker template: {routeId}"
      | some mechanics =>
        match lookupLast Compiler.id catalog.compilers catalogRoute.compilerId with
        | none => .error catalogRoute.compilerId
        | some compiler => pure (managedRoute host routeId mechanics (versionMarkers catalogRoute compiler))
    | _, _ => .error s!"width route lacks managed authority: {routeId}"

def materializeWidthConfiguration (host : Host) (worker : Worker) (catalog : Catalog) (plan : RoutePlan) :
    Result Configuration := do
  let configuration := loadConfiguration host worker
  let templates ← configuration.routes.foldlM (addTemplate catalog) []
  let materialized ← plan.routes.mapM fun planned =>
    materializeRoute host catalog configuration.routes templates planned.id
  pure { configuration with routes := materialized }

structure Profile where
  id : String
  compilerFamily : String
  languageId : String
  executionTreatment : Option String
  deriving DecidableEq

inductive ProfileState
  | registered
  | desired
  | guarded
  deriving DecidableEq

/-- A row of an artifact, analysis or admission profile. -/
structure StatedRow where
  id : String
  state : ProfileState
  deriving DecidableEq

/-- What `load_c_width_authority` accepts. -/
structure WidthAuthority where
  id : String
  label : String
  languageId : String
  state : String
  fixedRecipe : String
  toolchainProfile : String
  selectedReplay : Nat
  purpose : String
  artifactProfiles : List StatedRow
  analysisProfiles : List StatedRow
  admissionProfiles : List StatedRow
  replayBound : 1 ≤ selectedReplay ∧ selectedReplay ≤ 3

/-- The maxima of the study's axes. -/
structure Axes where
  releases : Nat
  routes : Nat
  buildProfiles : Nat
  artifactShapes : Nat
  analysisProfiles : Nat
  admissionProfiles : Nat

structure RouteSummary extends Mechanics where
  id : String
  label : String
  targetId : String
  compilerId : String
  toolchainState : ToolchainState
  toolchainIdentity : String
  deriving DecidableEq

def summarizeRoute (planned : PlannedRoute) (worker : Route) : RouteSummary :=
  { worker.toMechanics with
    id := worker.id, label := planned.label, targetId := planned.targetId, compilerId := planned.compilerId,
    toolchainState := worker.toolchainState, toolchainIdentity := worker.toolchainIdentity }

inductive PairState
  | inapplicable
  | unimplemented
  | unavailable
  | executable
  deriving DecidableEq

/-- The state of a route and a profile, and the reason for it. -/
def pairState (treatments : List Treatment) (route : RouteSummary) (profile : Profile) : PairState × List String :=
  if route.compilerFamily ≠ profile.compilerFamily then
    (.inapplicable, ["compiler family does not match route"])
  else
    match profile.executionTreatment with
    | none => (.unimplemented, ["no reviewed execution treatment"])
    | some treatmentId =>
      match lookupLast Treatment.id treatments treatmentId with
      | none => (.unimplemented, ["execution treatment is not registered"])
      | some treatment =>
        -- local qualification is asked before what the treatment says of the route
        if route.toolchainState ≠ .qualified then (.unavailable, ["route toolchain is not qualified"])
        else if treatment.appliesTo route.id = false then (.inapplicable, ["treatment excludes route"])
        else (.executable, [])

structure Applicability where
  routeId : String
  profileId : String
  treatmentId : Option String
  state : PairState
  reasons : List String
  deriving DecidableEq

def applicabilityRow (treatments : List Treatment) (route : RouteSummary) (profile : Profile) : Applicability :=
  ⟨route.id, profile.id, profile.executionTreatment, (pairState treatments route profile).1,
    (pairState treatments route profile).2⟩

def applicability (treatments : List Treatment) (routes : List RouteSummary) (profiles : List Profile) :
    List Applicability :=
  routes.flatMap fun route => profiles.map (applicabilityRow treatments route)

def registeredRows (rows : List StatedRow) : Nat := rows.countP fun row => row.state = .registered

def countState (state : PairState) (rows : List Applicability) : Nat := rows.countP fun row => row.state = state

structure WidthSummary where
  implementedRoutes : Nat
  qualifiedRoutes : Nat
  cataloguedBuildProfiles : Nat
  applicableRouteProfilePairs : Nat
  executableRouteProfilePairs : Nat
  unimplementedApplicablePairs : Nat
  inapplicablePairs : Nat
  feasibleBuildCells : Nat
  feasibleAnalysisRuns : Nat
  feasiblePolicyEvaluations : Nat
  selectedReplay : Nat
  feasibleFullPathExecutions : Nat
  declaredMaximumBuildCellsOneFamily : Nat
  declaredMaximumAnalysisRunsOneFamily : Nat
  declaredMaximumPolicyEvaluationsOneFamily : Nat
  deriving DecidableEq

structure CWidth where
  id : String
  languageId : String
  routeProfileDigest : String
  widthPath : String
  routes : List RouteSummary
  buildProfiles : List Profile
  artifactProfiles : List StatedRow
  analysisProfiles : List StatedRow
  admissionProfiles : List StatedRow
  applicability : List Applicability
  summary : WidthSummary

def summarizeWidth (authority : WidthAuthority) (axes : Axes) (routes : List RouteSummary) (profiles : List Profile)
    (rows : List Applicability) : WidthSummary :=
  let executablePairs := countState .executable rows
  let buildCells := executablePairs * registeredRows authority.artifactProfiles
  let analysisRuns := buildCells * registeredRows authority.analysisProfiles
  let declaredBuildCells := axes.releases * axes.routes * axes.buildProfiles * axes.artifactShapes
  { implementedRoutes := routes.length
    qualifiedRoutes := routes.countP fun row => row.toolchainState = .qualified
    cataloguedBuildProfiles := profiles.length
    applicableRouteProfilePairs := rows.countP fun row => row.state ≠ .inapplicable
    executableRouteProfilePairs := executablePairs
    unimplementedApplicablePairs := countState .unimplemented rows
    inapplicablePairs := countState .inapplicable rows
    feasibleBuildCells := buildCells
    feasibleAnalysisRuns := analysisRuns
    feasiblePolicyEvaluations := analysisRuns * registeredRows authority.admissionProfiles
    selectedReplay := authority.selectedReplay
    feasibleFullPathExecutions := analysisRuns * authority.selectedReplay
    declaredMaximumBuildCellsOneFamily := declaredBuildCells
    declaredMaximumAnalysisRunsOneFamily := declaredBuildCells * axes.analysisProfiles
    declaredMaximumPolicyEvaluationsOneFamily :=
      declaredBuildCells * axes.analysisProfiles * axes.admissionProfiles }

/-- The files of the width besides the authority itself, as their loaders return them. -/
structure WidthFiles where
  authority : String → Result WidthAuthority
  axes : Result Axes
  coverageUniverse : Result (List Profile)
  catalog : Result Catalog
  routePlan : String → Result RoutePlan
  worker : String → Result Worker
  factorSpace : Result Unit

def isLower (c : Char) : Bool := ('a' ≤ c && c ≤ 'z') || ('0' ≤ c && c ≤ '9')

/-- `[a-z0-9][a-z0-9._-]*`. -/
def isWidthId (text : String) : Bool :=
  match text.toList with
  | [] => false
  | c :: rest => isLower c && rest.all fun d => isLower d || d = '.' || d = '_' || d = '-'

/-- The rows of the planned routes, each with its worker. -/
def routeSummaries (configuration : Configuration) (plan : RoutePlan) : Result (List RouteSummary) :=
  plan.routes.mapM fun planned =>
    match lookupLast Route.id configuration.routes planned.id with
    | none => .error s!"width route has no worker definition: {planned.id}"
    | some worker => pure (summarizeRoute planned worker)

def compileCWidth (host : Host) (files : WidthFiles) (authorityId : String) : Result CWidth := do
  require (isWidthId authorityId = true) "C width authority id is not safe"
  let widthPath := s!"coverage/{authorityId}.toml"
  let authority ← files.authority widthPath
  let axes ← files.axes
  let allProfiles ← files.coverageUniverse
  let catalog ← files.catalog
  let plan ← files.routePlan authority.toolchainProfile
  let worker ← files.worker authority.fixedRecipe
  let configuration ← materializeWidthConfiguration host worker catalog plan
  let routes ← routeSummaries configuration plan
  let profiles := allProfiles.filter fun row => row.languageId = authority.languageId
  let rows := applicability configuration.treatments routes profiles
  let _ ← files.factorSpace
  pure
    { id := authority.id, languageId := authority.languageId, routeProfileDigest := plan.profileDigest,
      widthPath := widthPath, routes := routes, buildProfiles := profiles,
      artifactProfiles := authority.artifactProfiles, analysisProfiles := authority.analysisProfiles,
      admissionProfiles := authority.admissionProfiles, applicability := rows,
      summary := summarizeWidth authority axes routes profiles rows }

end FidbPoc.Width
