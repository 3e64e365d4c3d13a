import FidbPoc.Lib.Checked
import Mathlib.Data.List.Dedup

namespace FidbPoc.Width

open FidbPoc.Lib.Checked

abbrev Result := Except String

inductive ToolchainState
  | hostCommand
  | unavailable
  | qualified
  deriving DecidableEq

/-- What the compiler generations of one target have in common. -/
structure Mechanics where
  targetOs : String
  architecture : String
  binaryFormat : String
  compilerFamily : String
  compilerFlags : List String
  objectFileMarkers : List String
  linkedSuffix : String
  linkedFileMarkers : List String
  ghidraLanguage : String
  ghidraCompilerSpec : String
  deriving DecidableEq

structure Route extends Mechanics where
  id : String
  compiler : List String
  archiver : List String
  ranlib : List String
  compilerVersionMarkers : List String
  managedToolchainRoute : Option String
  toolchainState : ToolchainState
  toolchainIdentity : String
  toolchainBlocker : String
  deriving DecidableEq

structure Treatment where
  id : String
  removeFlags : List String
  appendFlags : List String
  supportedRoutes : List String
  phase : String
  artifactShape : String
  factorValues : List (String × String)
  factorVariants : List String
  deriving DecidableEq

def Treatment.appliesTo (treatment : Treatment) (routeId : String) : Bool :=
  treatment.supportedRoutes.isEmpty || routeId ∈ treatment.supportedRoutes

/-- What `resolve_qualified_route_tools` returns. -/
structure QualifiedRouteTools where
  compiler : String
  archiver : String
  ranlib : String
  routeMaterialDigest : String
  recordDigest : String

/-- What a host's caches say of each managed route: its tools, or why it is not qualified. -/
abbrev Host := String → Except String QualifiedRouteTools

def Qualifies (host : Host) (routeId : String) : Prop := (host routeId).isOk = true

instance (host : Host) (routeId : String) : Decidable (Qualifies host routeId) :=
  inferInstanceAs (Decidable (_ = true))

/-- The tools of a row of `worker.toml`: commands of the host, or a managed route. -/
inductive RowTools
  | command (compiler archiver ranlib : List String)
  | managed

/-- A route row of `worker.toml`. A managed row names its own id as its managed route. -/
structure RouteRow extends Mechanics where
  id : String
  compilerVersionMarkers : List String
  tools : RowTools

def RouteRow.isManaged (row : RouteRow) : Bool :=
  match row.tools with
  | .managed => true
  | .command .. => false

/-- A managed route as a host has it. -/
def managedRoute (host : Host) (id : String) (mechanics : Mechanics) (markers : List String) : Route :=
  match host id with
  | .error blocker =>
    { mechanics with
      id := id, compiler := [s!"@managed/{id}/c"], archiver := [s!"@managed/{id}/archiver"],
      ranlib := [s!"@managed/{id}/ranlib"], compilerVersionMarkers := markers,
      managedToolchainRoute := some id, toolchainState := .unavailable,
      toolchainIdentity := "unresolved", toolchainBlocker := blocker }
  | .ok tools =>
    { mechanics with
      id := id, compiler := [tools.compiler], archiver := [tools.archiver], ranlib := [tools.ranlib],
      compilerVersionMarkers := markers, managedToolchainRoute := some id, toolchainState := .qualified,
      toolchainIdentity := s!"qualified:{tools.routeMaterialDigest}:{tools.recordDigest}",
      toolchainBlocker := "" }

def loadRoute (host : Host) (row : RouteRow) : Route :=
  match row.tools with
  | .managed => managedRoute host row.id row.toMechanics row.compilerVersionMarkers
  | .command compiler archiver ranlib =>
    { row.toMechanics with
      id := row.id, compiler := compiler, archiver := archiver, ranlib := ranlib,
      compilerVersionMarkers := row.compilerVersionMarkers, managedToolchainRoute := none,
      toolchainState := .hostCommand, toolchainIdentity := "execution-probed", toolchainBlocker := "" }

/-- What `load_configuration` accepts of `worker.toml`. -/
structure Worker where
  routes : List RouteRow
  treatments : List Treatment
  routeIds : (routes.map RouteRow.id).Nodup
  treatmentIds : (treatments.map Treatment.id).Nodup

structure Configuration where
  routes : List Route
  treatments : List Treatment

def loadConfiguration (host : Host) (worker : Worker) : Configuration :=
  ⟨worker.routes.map (loadRoute host), worker.treatments⟩

/-- What of a route no host changes. -/
structure Shape extends Mechanics where
  id : String
  isManaged : Bool

def Route.shape (route : Route) : Shape :=
  { route.toMechanics with id := route.id, isManaged := route.managedToolchainRoute.isSome }

/-- The host qualifies the route. -/
def Shape.Qualified (host : Host) (shape : Shape) : Prop := shape.isManaged = true ∧ Qualifies host shape.id

section Shape

variable {host : Host}

@[simp] theorem managedRoute_shape (id : String) (mechanics : Mechanics) (markers : List String) :
    (managedRoute host id mechanics markers).shape = { mechanics with id := id, isManaged := true } := by
  unfold managedRoute
  split <;> rfl

theorem managedRoute_qualified (id : String) (mechanics : Mechanics) (markers : List String) :
    (managedRoute host id mechanics markers).toolchainState = .qualified ↔ Qualifies host id := by
  unfold managedRoute Qualifies
  split <;> rename_i h <;> simp [h, Except.isOk, Except.toBool]

@[simp] theorem loadRoute_shape (row : RouteRow) :
    (loadRoute host row).shape = { row.toMechanics with id := row.id, isManaged := row.isManaged } := by
  unfold loadRoute RouteRow.isManaged
  split
  · exact managedRoute_shape row.id row.toMechanics row.compilerVersionMarkers
  · rfl

/-- A route is qualified exactly where its shape is. -/
def Route.Placed (host : Host) (route : Route) : Prop :=
  route.toolchainState = .qualified ↔ route.shape.Qualified host

theorem managedRoute_placed (id : String) (mechanics : Mechanics) (markers : List String) :
    (managedRoute host id mechanics markers).Placed host := by
  unfold Route.Placed Shape.Qualified
  rw [managedRoute_qualified, managedRoute_shape]
  simp

theorem loadRoute_placed (row : RouteRow) : (loadRoute host row).Placed host := by
  cases htools : row.tools with
  | managed =>
    unfold loadRoute
    rw [htools]
    exact managedRoute_placed row.id row.toMechanics row.compilerVersionMarkers
  | command compiler archiver ranlib =>
    unfold loadRoute
    rw [htools]
    simp [Route.Placed, Route.shape, Shape.Qualified]

end Shape

end FidbPoc.Width
