import FidbPoc.Width.Batch
import FidbPoc.Lib.Table
import Mathlib.Data.List.ProdSigma

namespace FidbPoc.Width

open FidbPoc.Lib FidbPoc.Lib.Checked

/-- The place of a width route before a host is asked for its tools. -/
inductive Slot
  | listed (row : RouteRow)
  | made (id : String) (mechanics : Mechanics) (markers : List String)

namespace Slot

def route (host : Host) : Slot → Route
  | .listed row => loadRoute host row
  | .made id mechanics markers => managedRoute host id mechanics markers

def shape : Slot → Shape
  | .listed row => { row.toMechanics with id := row.id, isManaged := row.isManaged }
  | .made id mechanics _ => { mechanics with id := id, isManaged := true }

variable {host : Host}

@[simp] theorem route_shape (slot : Slot) : (slot.route host).shape = slot.shape := by
  cases slot with
  | listed row => exact loadRoute_shape row
  | made id mechanics markers => exact managedRoute_shape id mechanics markers

theorem route_id (slot : Slot) : (slot.route host).id = slot.shape.id := congrArg Shape.id slot.route_shape

theorem route_mechanics (slot : Slot) : (slot.route host).toMechanics = slot.shape.toMechanics :=
  congrArg Shape.toMechanics slot.route_shape

theorem route_qualified (slot : Slot) :
    (slot.route host).toolchainState = .qualified ↔ slot.shape.Qualified host := by
  have hplaced : (slot.route host).Placed host := by
    cases slot with
    | listed row => exact loadRoute_placed row
    | made id mechanics markers => exact managedRoute_placed id mechanics markers
  unfold Route.Placed at hplaced
  rwa [route_shape] at hplaced

end Slot

section Lookup

variable {α β : Type} (key : α → String) {rows : List α} {id : String}

theorem lookupLast_map {key' : β → String} {f : α → β} (h : ∀ a, key' (f a) = key a) (rows : List α) (id : String) :
    lookupLast key' (rows.map f) id = (lookupLast key rows id).map f := by
  unfold lookupLast
  rw [← List.map_reverse, List.find?_map]
  congr 2
  funext a
  simp [h]

variable {key} in
theorem lookupLast_eq_some {a : α} (h : lookupLast key rows id = some a) : a ∈ rows ∧ key a = id := by
  unfold lookupLast at h
  have hmem := List.mem_of_find?_eq_some h
  have hkey := List.find?_some h
  exact ⟨by simpa using hmem, by simpa using hkey⟩

theorem lookupLast_of_mem {a : α} (ha : a ∈ rows) (hid : key a = id) : ∃ b, lookupLast key rows id = some b := by
  unfold lookupLast
  refine Option.isSome_iff_exists.mp (List.find?_isSome.mpr ⟨a, by simpa using ha, by simpa using hid⟩)

variable {key} in
theorem lookupLast_of_nodup (hnodup : (rows.map key).Nodup) {a : α} (ha : a ∈ rows) :
    lookupLast key rows (key a) = some a := by
  unfold lookupLast
  refine Table.find?_key ?_ (by simpa using ha)
  rw [List.map_reverse]
  exact List.nodup_reverse.mpr hnodup

end Lookup

section Layout

variable {worker : Worker} {catalog : Catalog} {plan : RoutePlan} {host : Host}

def findTemplates (worker : Worker) (catalog : Catalog) : Result Templates :=
  worker.routes.foldlM (fun templates row =>
    addTemplate catalog templates (loadRoute (fun _ => .error "") row)) []

/-- The slot of one planned route. -/
def findSlot (worker : Worker) (catalog : Catalog) (templates : Templates) (routeId : String) : Result Slot :=
  match lookupLast RouteRow.id worker.routes routeId with
  | some row => pure (.listed row)
  | none =>
    match lookupLast CatalogRoute.id catalog.routes routeId, decide (routeId ∈ catalog.qualifications) with
    | some catalogRoute, true =>
      match template? templates catalogRoute.targetId catalogRoute.compilerFamily with
      | none => .error s!"width route has no target worker template: {routeId}"
      | some mechanics =>
        match lookupLast Compiler.id catalog.compilers catalogRoute.compilerId with
        | none => .error catalogRoute.compilerId
        | some compiler => pure (.made routeId mechanics (versionMarkers catalogRoute compiler))
    | _, _ => .error s!"width route lacks managed authority: {routeId}"

/-- The planned routes with their slots, the same on every host. -/
def layout (worker : Worker) (catalog : Catalog) (plan : RoutePlan) : Result (List (PlannedRoute × Slot)) := do
  let templates ← findTemplates worker catalog
  plan.routes.mapM fun planned => (findSlot worker catalog templates planned.id).map (Prod.mk planned)

theorem addTemplate_congr {first second : Route} (hshape : first.shape = second.shape)
    (hmanaged : first.managedToolchainRoute = second.managedToolchainRoute) (templates : Templates) :
    addTemplate catalog templates first = addTemplate catalog templates second := by
  have hmechanics : first.toMechanics = second.toMechanics := congrArg Shape.toMechanics hshape
  unfold addTemplate
  rw [hmanaged, hmechanics]

theorem loadRoute_managed (row : RouteRow) :
    (loadRoute host row).managedToolchainRoute = if row.isManaged then some row.id else none := by
  unfold loadRoute RouteRow.isManaged
  split
  · unfold managedRoute
    split <;> rfl
  · rfl

theorem foldlM_addTemplate (host : Host) (worker : Worker) (catalog : Catalog) :
    (loadConfiguration host worker).routes.foldlM (addTemplate catalog) [] = findTemplates worker catalog := by
  unfold loadConfiguration findTemplates
  rw [List.foldlM_map]
  congr 1
  funext templates row
  apply addTemplate_congr
  · rw [loadRoute_shape, loadRoute_shape]
  · rw [loadRoute_managed, loadRoute_managed]

theorem loadRoute_id (row : RouteRow) : (loadRoute host row).id = row.id := congrArg Shape.id (loadRoute_shape row)

theorem materializeRoute_eq (host : Host) (worker : Worker) (catalog : Catalog) (templates : Templates)
    (routeId : String) :
    materializeRoute host catalog (loadConfiguration host worker).routes templates routeId =
      (findSlot worker catalog templates routeId).map (Slot.route host) := by
  unfold materializeRoute findSlot loadConfiguration
  rw [lookupLast_map RouteRow.id fun row => loadRoute_id row]
  cases lookupLast RouteRow.id worker.routes routeId with
  | some row => rfl
  | none =>
    simp only [Option.map_none]
    cases lookupLast CatalogRoute.id catalog.routes routeId with
    | none => rfl
    | some catalogRoute =>
      cases decide (routeId ∈ catalog.qualifications) with
      | false => rfl
      | true =>
        simp only
        cases template? templates catalogRoute.targetId catalogRoute.compilerFamily with
        | none => rfl
        | some mechanics =>
          simp only
          cases lookupLast Compiler.id catalog.compilers catalogRoute.compilerId <;> rfl

/-- A host only fills the slots. -/
theorem materialize_eq_layout (host : Host) (worker : Worker) (catalog : Catalog) (plan : RoutePlan) :
    materializeWidthConfiguration host worker catalog plan =
      (layout worker catalog plan).map fun places => ⟨places.map fun p => p.2.route host, worker.treatments⟩ := by
  unfold materializeWidthConfiguration layout
  simp only [foldlM_addTemplate, materializeRoute_eq]
  cases findTemplates worker catalog with
  | error e => rfl
  | ok templates =>
    simp only [ok_bind]
    have hslots (planned : PlannedRoute) : (findSlot worker catalog templates planned.id).map (Slot.route host) =
        ((findSlot worker catalog templates planned.id).map (Prod.mk planned)).map fun p => p.2.route host := by
      cases findSlot worker catalog templates planned.id <;> rfl
    simp only [hslots, mapM_map _ fun p : PlannedRoute × Slot => p.2.route host]
    cases plan.routes.mapM fun planned => (findSlot worker catalog templates planned.id).map (Prod.mk planned) <;> rfl

theorem findSlot_id {templates : Templates} {routeId : String} {slot : Slot}
    (h : findSlot worker catalog templates routeId = .ok slot) : slot.shape.id = routeId := by
  unfold findSlot at h
  split at h
  · rename_i row hrow
    obtain rfl := Except.ok.inj h
    exact (lookupLast_eq_some hrow).2
  · split at h
    · split at h
      · cases h
      · split at h
        · cases h
        · obtain rfl := Except.ok.inj h
          rfl
    · cases h

def slotId (p : PlannedRoute × Slot) : String := p.2.shape.id

/-- A planned route has the slot of its id, and equal ids have one slot. -/
structure Placed (places : List (PlannedRoute × Slot)) : Prop where
  named : ∀ p ∈ places, slotId p = p.1.id
  unique : ∀ p ∈ places, ∀ q ∈ places, p.1.id = q.1.id → p.2 = q.2

theorem layout_placed {places : List (PlannedRoute × Slot)} (h : layout worker catalog plan = .ok places) :
    Placed places := by
  unfold layout at h
  obtain ⟨templates, -, h⟩ := bind_eq_ok.mp h
  have hof : ∀ p ∈ places, findSlot worker catalog templates p.1.id = .ok p.2 := by
    intro p hp
    obtain ⟨planned, -, hplanned⟩ := mem_mapM h p hp
    cases hslot : findSlot worker catalog templates planned.id with
    | error e =>
      rw [hslot] at hplanned
      cases hplanned
    | ok slot =>
      rw [hslot] at hplanned
      obtain rfl := Except.ok.inj hplanned
      exact hslot
  refine ⟨fun p hp => findSlot_id (hof p hp), fun p hp q hq hid => ?_⟩
  have hboth := hof p hp
  rw [hid, hof q hq] at hboth
  exact (Except.ok.inj hboth).symm

def summary (host : Host) (p : PlannedRoute × Slot) : RouteSummary := summarizeRoute p.1 (p.2.route host)

theorem routeSummaries_eq {places : List (PlannedRoute × Slot)} (treatments : List Treatment)
    (h : layout worker catalog plan = .ok places) :
    routeSummaries ⟨places.map fun p => p.2.route host, treatments⟩ plan = .ok (places.map (summary host)) := by
  have hplaced := layout_placed h
  have hplan : places.map Prod.fst = plan.routes := by
    unfold layout at h
    obtain ⟨templates, -, h⟩ := bind_eq_ok.mp h
    refine (Checked.map_mapM h fun planned hplanned => ?_).trans (List.map_id _)
    obtain ⟨p, -, hp⟩ := mapM_mem h planned hplanned
    refine ⟨p, hp, ?_⟩
    cases hslot : findSlot worker catalog templates planned.id with
    | error e =>
      rw [hslot] at hp
      cases hp
    | ok slot =>
      rw [hslot] at hp
      exact congrArg Prod.fst (Except.ok.inj hp).symm
  have hlookup : ∀ p ∈ places, lookupLast Route.id (places.map fun p => p.2.route host) p.1.id =
      some (p.2.route host) := by
    intro p hp
    rw [lookupLast_map slotId fun p => p.2.route_id]
    obtain ⟨q, hq⟩ := lookupLast_of_mem slotId hp (hplaced.named p hp)
    obtain ⟨hmem, hid⟩ := lookupLast_eq_some hq
    rw [hq, Option.map_some, hplaced.unique q hmem p hp ((hplaced.named q hmem).symm.trans hid)]
  unfold routeSummaries
  rw [← hplan, List.mapM_map]
  refine mapM_of_ok fun p hp => ?_
  rw [Function.comp_apply, hlookup p hp]
  rfl

end Layout

/-- What a width reads of its files. No part depends on the host. -/
structure WidthTables where
  widthPath : String
  authority : WidthAuthority
  axes : Axes
  profileDigest : String
  profiles : List Profile
  treatments : List Treatment
  places : List (PlannedRoute × Slot)
  treatmentIds : (treatments.map Treatment.id).Nodup
  placed : Placed places

def readWidth (files : WidthFiles) (authorityId : String) : Result WidthTables := do
  require (isWidthId authorityId = true) "C width authority id is not safe"
  let widthPath := s!"coverage/{authorityId}.toml"
  let authority ← files.authority widthPath
  let axes ← files.axes
  let allProfiles ← files.coverageUniverse
  let catalog ← files.catalog
  let plan ← files.routePlan authority.toolchainProfile
  let worker ← files.worker authority.fixedRecipe
  match hlayout : layout worker catalog plan with
  | .error e => .error e
  | .ok places =>
    let _ ← files.factorSpace
    pure ⟨widthPath, authority, axes, plan.profileDigest,
      allProfiles.filter fun row => row.languageId = authority.languageId, worker.treatments, places,
      worker.treatmentIds, layout_placed hlayout⟩

namespace WidthTables

def rows (tables : WidthTables) (host : Host) : List Applicability :=
  applicability tables.treatments (tables.places.map (summary host)) tables.profiles

def width (tables : WidthTables) (host : Host) : CWidth :=
  { id := tables.authority.id, languageId := tables.authority.languageId,
    routeProfileDigest := tables.profileDigest, widthPath := tables.widthPath,
    routes := tables.places.map (summary host), buildProfiles := tables.profiles,
    artifactProfiles := tables.authority.artifactProfiles, analysisProfiles := tables.authority.analysisProfiles,
    admissionProfiles := tables.authority.admissionProfiles, applicability := tables.rows host,
    summary := summarizeWidth tables.authority tables.axes (tables.places.map (summary host)) tables.profiles
      (tables.rows host) }

end WidthTables

theorem compileCWidth_eq (host : Host) (files : WidthFiles) (authorityId : String) :
    compileCWidth host files authorityId = (readWidth files authorityId).map fun tables => tables.width host := by
  unfold compileCWidth readWidth
  refine bind_map fun _ => bind_map fun authority => bind_map fun axes => bind_map fun allProfiles => ?_
  refine bind_map fun catalog => bind_map fun plan => bind_map fun worker => ?_
  rw [materialize_eq_layout]
  split
  · rename_i e hlayout
    rw [hlayout]
    rfl
  · rename_i places hlayout
    simp only [hlayout, Except.map, ok_bind, routeSummaries_eq worker.treatments hlayout]
    cases files.factorSpace <;> rfl

end FidbPoc.Width
