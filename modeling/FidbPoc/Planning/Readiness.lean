import FidbPoc.Planning.Resolution
import FidbPoc.Width.Identity
import Mathlib.Algebra.BigOperators.Group.List.Basic
import Mathlib.Algebra.Order.BigOperators.Group.List
import Mathlib.Tactic.Ring

namespace FidbPoc.Planning

open FidbPoc.Lib FidbPoc.Lib.Checked FidbPoc.Width FidbPoc.Width.WidthTables

/-- A reviewed native recipe and the source that it pins. -/
structure NativeRecipe where
  library : Library
  url : String
  sha256 : String

/-- A row of the reviewed recipes; those of another kind are not asked for more. -/
inductive ReviewedRecipe
  | native (recipe : NativeRecipe)
  | other (id kind : String)

def ReviewedRecipe.native? : ReviewedRecipe → Option NativeRecipe
  | .native recipe => some recipe
  | .other .. => none

/-- The recipes by their ids, the last one of an id. -/
def recipeOf (reviewed : List ReviewedRecipe) (id : String) : Option NativeRecipe :=
  lookupLast (fun recipe => recipe.library.identity) (reviewed.filterMap ReviewedRecipe.native?) id

inductive RecipeState
  | required
  | sourceMismatch
  | ready
  deriving DecidableEq

/-- The state of a library's recipe and its blocker. -/
def recipeState (source : Source) : Option NativeRecipe → RecipeState × String
  | none => (.required, s!"{source.label} {source.version} needs a reviewed native recipe")
  | some recipe =>
    if recipe.url ≠ source.url ∨ recipe.sha256 ≠ source.sha256 then
      (.sourceMismatch, s!"{source.label} recipe does not match the pinned source authority")
    else (.ready, "")

/-- The test of the applicability lists against a pair. -/
def pairApplies (recipe : Option NativeRecipe) (pair : ExecutionPair) : Bool :=
  match recipe with
  | none => true
  | some recipe =>
    (recipe.library.supportedTargetOs.isEmpty || pair.targetOs ∈ recipe.library.supportedTargetOs) &&
      (recipe.library.supportedArchitectures.isEmpty || pair.architecture ∈ recipe.library.supportedArchitectures) &&
      (recipe.library.supportedCompilerFamilies.isEmpty ||
        pair.compilerFamily ∈ recipe.library.supportedCompilerFamilies) &&
      decide (pair.routeId ∉ recipe.library.unsupportedRoutes)

structure LibraryReadiness where
  source : Source
  recipeState : RecipeState
  blocker : String
  applicableRouteIds : List String
  applicableExecutions : Nat

def projectLibrary (batch : WidthBatch) (reviewed : List ReviewedRecipe) (source : Source) : LibraryReadiness :=
  let recipe := recipeOf reviewed (recipeId source)
  let applicable := (batch.executionPairs.filterMap id).filter (pairApplies recipe)
  ⟨source, (recipeState source recipe).1, (recipeState source recipe).2, fromKeys (applicable.map ExecutionPair.routeId),
    applicable.length⟩

structure Readiness where
  sourcePins : Nat
  recipeReadyLibraries : Nat
  recipeBlockedLibraries : Int
  toolchainReadyRoutes : Nat
  toolchainBlockedRoutes : Int
  materializableExecutions : Nat
  blockedExecutions : Int
  queueState : String
  blockers : List String

structure Projection where
  libraries : List LibraryReadiness
  readiness : Readiness

def projectWidthBatchReadiness (batch : WidthBatch) (reviewed : List ReviewedRecipe) : Projection :=
  let libraries := batch.libraries.map (projectLibrary batch reviewed)
  let ready := libraries.filter fun row => row.recipeState = .ready
  let materializable := (ready.map LibraryReadiness.applicableExecutions).sum
  let unqualified := batch.summary.routeProfiles - batch.locallyQualifiedRoutes
  ⟨libraries,
    { sourcePins := libraries.length
      recipeReadyLibraries := ready.length
      recipeBlockedLibraries := libraries.length - ready.length
      toolchainReadyRoutes := batch.locallyQualifiedRoutes
      toolchainBlockedRoutes := unqualified
      materializableExecutions := materializable
      blockedExecutions := libraries.length * batch.summary.executionsPerLibrary - materializable
      queueState := "not-materialized-disarmed"
      blockers := (libraries.filter fun row => row.recipeState ≠ .ready).map LibraryReadiness.blocker ++
        if 0 < unqualified then
          [s!"{unqualified} of {batch.summary.routeProfiles} route profiles are not locally qualified"]
        else [] }⟩

section Planner

variable (tables : WidthTables) (host : Host)

/-- The routes of the width as the planner's configuration has them. -/
def configurationRoutes : List Route := tables.places.map fun p => p.2.route host

/-- The cell that the planner creates for a pair. -/
def pairCell (matrix : Matrix) (library : Library) (pair : String × String) : Option Cell :=
  (lookupLast Route.id (configurationRoutes tables host) pair.1).bind fun route =>
    (lookupLast Treatment.id tables.treatments pair.2).map (nativeCell matrix library route)

/-- The cells that the planner creates for a library over all executable pairs. -/
def plannerCells (matrix : Matrix) (library : Library) : List Cell :=
  (executablePairs (tables.rows host)).dedup.filterMap (pairCell tables host matrix library)

/-- The cells whose route the recipe supports. -/
def supportedCells (matrix : Matrix) (library : Library) : Nat :=
  (plannerCells tables host matrix library).countP fun cell =>
    decide ("library recipe does not support route" ∉ cell.blockers)

/-- The executions of one cell. -/
def multiplier : Nat :=
  registeredRows tables.authority.artifactProfiles * registeredRows tables.authority.analysisProfiles *
    tables.authority.selectedReplay

end Planner

section Support

variable {tables : WidthTables} {host : Host} {library : Library} {p : PlannedRoute × Slot}

/-- The recipe supports the mechanics of a route. -/
def Library.supports (library : Library) (shape : Shape) : Bool :=
  library.appliesTo shape.targetOs shape.architecture shape.compilerFamily shape.id

/-- The recipe supports the route of that id. -/
def supportsRoute (tables : WidthTables) (library : Library) (routeId : String) : Bool :=
  tables.places.any fun p => decide (slotId p = routeId) && library.supports p.2.shape

theorem shape_eq {q : PlannedRoute × Slot} (hp : p ∈ tables.places) (hq : q ∈ tables.places) (h : slotId q = slotId p) :
    q.2 = p.2 := by
  refine tables.placed.unique q hq p hp ?_
  rw [← tables.placed.named q hq, h, tables.placed.named p hp]

theorem supportsRoute_slotId (hp : p ∈ tables.places) :
    supportsRoute tables library (slotId p) = library.supports p.2.shape := by
  rw [Bool.eq_iff_iff, supportsRoute, List.any_eq_true]
  constructor
  · rintro ⟨q, hq, hsame⟩
    rw [Bool.and_eq_true, decide_eq_true_iff] at hsame
    rw [← shape_eq hp hq hsame.1]
    exact hsame.2
  · intro h
    exact ⟨p, hp, by rw [Bool.and_eq_true, decide_eq_true_iff]; exact ⟨rfl, h⟩⟩

theorem mem_executablePairs {pair : String × String} :
    pair ∈ executablePairs (tables.rows host) ↔ ∃ k ∈ tables.pairs, (tables.row host k).state = .executable ∧
      k.2.executionTreatment = some pair.2 ∧ slotId k.1 = pair.1 := by
  obtain ⟨routeId, treatmentId⟩ := pair
  have hid : ∀ k, (tables.row host k).routeId = slotId k.1 := fun _ => summary_id
  simp only [executablePairs, rows_eq, List.mem_filterMap, List.mem_filter, List.mem_map, decide_eq_true_eq,
    Option.map_eq_some_iff, Prod.mk.injEq]
  constructor
  · rintro ⟨_, ⟨⟨k, hk, rfl⟩, hstate⟩, treatment, htreatment, hroute, rfl⟩
    exact ⟨k, hk, hstate, htreatment, (hid k).symm.trans hroute⟩
  · rintro ⟨k, hk, hstate, htreatment, hroute⟩
    exact ⟨_, ⟨⟨k, hk, rfl⟩, hstate⟩, treatmentId, htreatment, (hid k).trans hroute, rfl⟩

theorem executable_row {k : (PlannedRoute × Slot) × Profile} (h : (tables.row host k).state = .executable) :
    ∃ treatment ∈ tables.treatments, Binds k.1 k.2 treatment ∧ treatment.appliesTo (slotId k.1) = true ∧
      k.1.2.shape.Qualified host := by
  have hstate : (tables.row host k).state = (pairState tables.treatments (summary host k.1) k.2).1 := rfl
  by_cases hbound : ∃ treatment ∈ tables.treatments, Binds k.1 k.2 treatment
  · obtain ⟨treatment, ht, hbinds⟩ := hbound
    refine ⟨treatment, ht, hbinds, ?_⟩
    rw [hstate, pairState_of_binds ht hbinds] at h
    by_cases hqualified : k.1.2.shape.Qualified host
    · by_cases happlies : treatment.appliesTo (slotId k.1) = true
      · exact ⟨happlies, hqualified⟩
      · simp [hqualified, happlies] at h
    · simp [hqualified] at h
  · rw [hstate, pairState_unbound fun treatment ht hb => hbound ⟨treatment, ht, hb⟩] at h
    by_cases hfamily : k.1.2.shape.compilerFamily = k.2.compilerFamily <;> simp [hfamily] at h

/-- The planner has a cell for every executable pair, blocked by nothing but the recipe. -/
theorem pairCell_executable (matrix : Matrix) (library : Library) {pair : String × String}
    (h : pair ∈ executablePairs (tables.rows host)) :
    ∃ cell, pairCell tables host matrix library pair = some cell ∧
      ("library recipe does not support route" ∉ cell.blockers ↔ supportsRoute tables library pair.1 = true) := by
  obtain ⟨k, hk, hstate, htreatment, hroute⟩ := mem_executablePairs.mp h
  obtain ⟨treatment, ht, hbinds, happlies, hqualified⟩ := executable_row hstate
  have hplace := (mem_pairs.mp hk).1
  have htreatmentId : treatment.id = pair.2 := Option.some.inj (hbinds.2.symm.trans htreatment)
  have hlookup : lookupLast Treatment.id tables.treatments pair.2 = some treatment := by
    rw [← htreatmentId]
    exact lookupLast_of_nodup tables.treatmentIds ht
  obtain ⟨route, hfound⟩ : ∃ route, lookupLast Route.id (configurationRoutes tables host) pair.1 = some route := by
    refine lookupLast_of_mem Route.id (a := k.1.2.route host) (List.mem_map_of_mem hplace) ?_
    exact k.1.2.route_id.trans hroute
  obtain ⟨hmem, hid⟩ := lookupLast_eq_some hfound
  obtain ⟨q, hq, rfl⟩ := List.mem_map.mp hmem
  have hslot : q.2 = k.1.2 := shape_eq hplace hq ((q.2.route_id.symm.trans hid).trans hroute.symm)
  rw [hslot] at hid hfound
  refine ⟨nativeCell matrix library (k.1.2.route host) treatment, ?_, ?_⟩
  · rw [pairCell, hfound, Option.bind_some, hlookup, Option.map_some]
  · have hstate' : (k.1.2.route host).toolchainState ≠ .unavailable := by
      rw [k.1.2.route_qualified.mpr hqualified]
      decide
    have happlies' : treatment.appliesTo (k.1.2.route host).id = true := by
      rw [k.1.2.route_id]
      exact happlies
    have hsupports : library.appliesTo (k.1.2.route host).targetOs (k.1.2.route host).architecture
        (k.1.2.route host).compilerFamily (k.1.2.route host).id = library.supports k.1.2.shape := by
      rw [k.1.2.route_id, k.1.2.route_mechanics]
      rfl
    rw [← hroute, supportsRoute_slotId hplace, nativeCell, hsupports, if_pos happlies', if_neg hstate']
    by_cases hsupported : library.supports k.1.2.shape = true
    · simp [hsupported]
    · simp [hsupported]

end Support

section Counts

variable (tables : WidthTables) (host : Host) (library : Library)

/-- The executable pairs that the recipe supports, each once. -/
def supportedPairs : Nat :=
  (executablePairs (tables.rows host)).dedup.countP fun pair => supportsRoute tables library pair.1

/-- The supported rows of a batch that are no further pair of the planner: those that repeat a pair, -/
def repeatedRows : Nat :=
  ((executablePairs (tables.rows host)).countP fun pair => supportsRoute tables library pair.1) -
    supportedPairs tables host library

/-- and those of a route that the host does not qualify. -/
def unavailableRows : Nat :=
  ((tables.rows host).filter fun row => row.state = .unavailable).countP fun row => supportsRoute tables library row.routeId

variable {tables host library}

theorem supportedCells_eq (matrix : Matrix) : supportedCells tables host matrix library = supportedPairs tables host library := by
  rw [supportedCells, plannerCells, List.countP_filterMap, supportedPairs]
  refine List.countP_congr fun pair hpair => ?_
  obtain ⟨cell, hcell, hsupported⟩ := pairCell_executable matrix library (List.mem_dedup.mp hpair)
  simp [hcell, hsupported]

theorem supportedPairs_le : supportedPairs tables host library ≤
    (executablePairs (tables.rows host)).countP fun pair => supportsRoute tables library pair.1 :=
  (List.dedup_sublist _).countP_le

theorem executable_treatment {row : Applicability} (hrow : row ∈ tables.rows host) (h : row.state = .executable) :
    ∃ treatmentId, row.treatmentId = some treatmentId := by
  rw [rows_eq] at hrow
  obtain ⟨k, -, rfl⟩ := List.mem_map.mp hrow
  obtain ⟨treatment, -, hbinds, -⟩ := executable_row h
  exact ⟨treatment.id, hbinds.2⟩

theorem countP_executable : ((tables.rows host).filter fun row => row.state = .executable).countP
      (fun row => supportsRoute tables library row.routeId) =
    (executablePairs (tables.rows host)).countP fun pair => supportsRoute tables library pair.1 := by
  rw [executablePairs, List.countP_filterMap]
  refine List.countP_congr fun row hrow => ?_
  rw [List.mem_filter, decide_eq_true_iff] at hrow
  obtain ⟨treatmentId, htreatment⟩ := executable_treatment hrow.1 hrow.2
  simp [htreatment]

/-- The selected rows are the executable and the unavailable ones. -/
theorem countP_selectedPairs (rows : List Applicability) (p : Applicability → Bool) :
    (selectedPairs rows).countP p = (rows.filter fun row => row.state = .executable).countP p +
      (rows.filter fun row => row.state = .unavailable).countP p := by
  unfold selectedPairs
  induction rows with
  | nil => rfl
  | cons row rows ih =>
    rw [List.filter_cons, List.filter_cons, List.filter_cons]
    cases hstate : row.state with
    | inapplicable => simpa [hstate] using ih
    | unimplemented => simpa [hstate] using ih
    | unavailable =>
      simp only [reduceCtorEq, or_true, decide_true, if_true, decide_false, Bool.false_eq_true, if_false, List.countP_cons]
      omega
    | executable =>
      simp only [reduceCtorEq, true_or, decide_true, if_true, decide_false, Bool.false_eq_true, if_false, List.countP_cons]
      omega

theorem supports_executionOf {k : (PlannedRoute × Slot) × Profile} (recipe : NativeRecipe) (hk : k.1 ∈ tables.places) :
    pairApplies (some recipe) (executionOf k) = supportsRoute tables recipe.library (slotId k.1) := by
  rw [supportsRoute_slotId hk]
  rfl

theorem countP_executionPairs (recipe : NativeRecipe) :
    ((tables.offered host).map executionOf).countP (pairApplies (some recipe)) =
      (supportedPairs tables host recipe.library + repeatedRows tables host recipe.library) +
        unavailableRows tables host recipe.library := by
  have hrows : ((tables.offered host).map executionOf).countP (pairApplies (some recipe)) =
      (selectedPairs (tables.rows host)).countP fun row => supportsRoute tables recipe.library row.routeId := by
    rw [selectedPairs_eq, List.countP_map, List.countP_map]
    refine List.countP_congr fun k hk => ?_
    have hroute : (tables.row host k).routeId = slotId k.1 := summary_id
    rw [Function.comp_apply, Function.comp_apply, supports_executionOf recipe (mem_offered.mp hk).1.1, hroute]
  have hle := @supportedPairs_le tables host recipe.library
  rw [hrows, countP_selectedPairs, countP_executable, unavailableRows, repeatedRows]
  omega

end Counts

section Consistency

variable {hash : StableBody → String} {files : BatchFiles} {document : Json.Fields} {tables : BatchTables} {host : Host}
  {batch : WidthBatch} {reviewed : List ReviewedRecipe} {source : Source} {recipe : NativeRecipe} {matrix : Matrix}

/-- The recipe of a library is reviewed and pins its source. -/
def Ready (reviewed : List ReviewedRecipe) (source : Source) (recipe : NativeRecipe) : Prop :=
  recipeOf reviewed (recipeId source) = some recipe ∧ recipe.url = source.url ∧ recipe.sha256 = source.sha256

def Library.Unrestricted (library : Library) : Prop :=
  library.supportedTargetOs = [] ∧ library.supportedArchitectures = [] ∧ library.supportedCompilerFamilies = [] ∧
    library.unsupportedRoutes = []

/-- The readiness of a batch and the plans of its libraries count the same executions. -/
structure Consistent (tables : WidthTables) (host : Host) (batch : WidthBatch) (reviewed : List ReviewedRecipe)
    (matrix : Matrix) : Prop where
  nonneg : 0 ≤ (projectWidthBatchReadiness batch reviewed).readiness.blockedExecutions
  total : (projectWidthBatchReadiness batch reviewed).readiness.materializableExecutions +
      (projectWidthBatchReadiness batch reviewed).readiness.blockedExecutions = batch.summary.totalExecutions
  unblocked : (∀ source ∈ batch.libraries, ∃ recipe, Ready reviewed source recipe ∧ recipe.library.Unrestricted) →
    (projectWidthBatchReadiness batch reviewed).readiness.blockedExecutions = 0
  planned : ∀ row ∈ (projectWidthBatchReadiness batch reviewed).libraries, ∀ recipe, Ready reviewed row.source recipe →
    row.applicableExecutions = supportedCells tables host matrix recipe.library * multiplier tables

theorem recipeState_ready : (recipeState source (recipeOf reviewed (recipeId source))).1 = .ready ↔
    ∃ recipe, Ready reviewed source recipe := by
  unfold Ready
  cases hrecipe : recipeOf reviewed (recipeId source) with
  | none => simp [recipeState]
  | some recipe =>
    by_cases hsource : recipe.url ≠ source.url ∨ recipe.sha256 ≠ source.sha256
    · simp only [recipeState, if_pos hsource, reduceCtorEq, false_iff]
      rintro ⟨_, ⟨⟩, hurl, hsha256⟩
      exact hsource.elim (· hurl) (· hsha256)
    · rw [not_or, not_not, not_not] at hsource
      simp [recipeState, hsource]

theorem expectedCounts_pos {counts : Counts} (h : expectedCounts document = .ok counts) :
    0 < counts.libraries ∧ 0 < counts.executionsPerLibrary := by
  unfold expectedCounts at h
  split at h
  · cases h
  · simp only [bind_eq_ok, require_eq_ok, pure_eq_ok, exists_const] at h
    obtain ⟨hpos, rfl⟩ := h
    exact ⟨hpos "libraries" (by decide), hpos "executions_per_library" (by decide)⟩

theorem readBatch_expected (h : readBatch files document = .ok tables) :
    0 < tables.expected.libraries ∧ 0 < tables.expected.executionsPerLibrary := by
  unfold readBatch at h
  simp only [bind_eq_ok, require_eq_ok, exists_const] at h
  obtain ⟨_, -, _, -, expected, hexpected, _, -, _, -, _, -, -, -, _, -, -, h⟩ := h
  split at h
  · cases h
  · obtain rfl := Except.ok.inj h
    exact expectedCounts_pos hexpected

theorem batch_pairs : (tables.batch hash host).executionPairs.filterMap id = (tables.offered host).map executionOf := by
  rw [BatchTables.batch, List.filterMap_map]
  exact congrFun List.filterMap_eq_map (tables.offered host)

theorem batch_summary : (tables.batch hash host).summary.executionsPerLibrary =
      ((tables.offered host).length * multiplier tables.toWidthTables : Nat) ∧
    (tables.batch hash host).summary.totalExecutions =
      (tables.libraries.length * ((tables.offered host).length * multiplier tables.toWidthTables) : Nat) := by
  have hcounts : (tables.batch hash host).summary.toCounts = tables.counts tables.libraries.length host :=
    WidthTables.actualCounts_eq tables.libraries.length
  constructor
  · rw [hcounts]
    simp only [WidthTables.counts, multiplier]
    push_cast
    ring
  · rw [hcounts]
    simp only [WidthTables.counts, multiplier]
    push_cast
    ring

theorem applicable_ready (h : Ready reviewed source recipe) :
    (projectLibrary (tables.batch hash host) reviewed source).applicableExecutions =
      (supportedPairs tables.toWidthTables host recipe.library + repeatedRows tables.toWidthTables host recipe.library) +
        unavailableRows tables.toWidthTables host recipe.library := by
  rw [projectLibrary, h.1, batch_pairs, ← countP_executionPairs recipe, List.countP_eq_length_filter]

theorem applicable_le (source : Source) :
    (projectLibrary (tables.batch hash host) reviewed source).applicableExecutions ≤ (tables.offered host).length := by
  rw [projectLibrary, batch_pairs]
  refine (List.length_filter_le _ _).trans ?_
  rw [List.length_map]

theorem applicable_unrestricted (h : Ready reviewed source recipe) (hfree : recipe.library.Unrestricted) :
    (projectLibrary (tables.batch hash host) reviewed source).applicableExecutions = (tables.offered host).length := by
  obtain ⟨h1, h2, h3, h4⟩ := hfree
  have hall : ∀ pair, pairApplies (some recipe) pair = true := fun pair => by simp [pairApplies, h1, h2, h3, h4]
  rw [projectLibrary, h.1, batch_pairs, List.filter_eq_self.mpr fun pair _ => hall pair, List.length_map]

theorem materializable_le : (projectWidthBatchReadiness (tables.batch hash host) reviewed).readiness.materializableExecutions ≤
    tables.libraries.length * (tables.offered host).length := by
  have hsum : (((tables.libraries.map (projectLibrary (tables.batch hash host) reviewed)).filter fun row =>
      row.recipeState = .ready).map LibraryReadiness.applicableExecutions).sum ≤ _ :=
    List.sum_le_card_nsmul _ (tables.offered host).length fun executions h => by
      obtain ⟨row, hrow, rfl⟩ := List.mem_map.mp h
      obtain ⟨source, -, rfl⟩ := List.mem_map.mp (List.mem_filter.mp hrow).1
      exact applicable_le source
  refine hsum.trans (Nat.mul_le_mul_right _ ?_)
  rw [List.length_map]
  refine (List.length_filter_le _ _).trans ?_
  rw [List.length_map]

/-- Where every recipe is ready for every pair, all the pairs count. -/
theorem materializable_unrestricted
    (h : ∀ source ∈ tables.libraries, ∃ recipe, Ready reviewed source recipe ∧ recipe.library.Unrestricted) :
    (projectWidthBatchReadiness (tables.batch hash host) reviewed).readiness.materializableExecutions =
      tables.libraries.length * (tables.offered host).length := by
  have hready : ∀ row ∈ tables.libraries.map (projectLibrary (tables.batch hash host) reviewed),
      decide (row.recipeState = .ready) = true ∧ row.applicableExecutions = (tables.offered host).length := by
    intro row hrow
    obtain ⟨source, hsource, rfl⟩ := List.mem_map.mp hrow
    obtain ⟨recipe, hrecipe, hfree⟩ := h source hsource
    exact ⟨decide_eq_true (recipeState_ready.mpr ⟨recipe, hrecipe⟩), applicable_unrestricted hrecipe hfree⟩
  have hall : (tables.libraries.map (projectLibrary (tables.batch hash host) reviewed)).map
      LibraryReadiness.applicableExecutions = List.replicate tables.libraries.length (tables.offered host).length := by
    refine List.eq_replicate_iff.mpr ⟨by rw [List.length_map, List.length_map], fun executions hexecutions => ?_⟩
    obtain ⟨row, hrow, rfl⟩ := List.mem_map.mp hexecutions
    exact (hready row hrow).2
  show (((tables.libraries.map (projectLibrary (tables.batch hash host) reviewed)).filter fun row =>
      row.recipeState = .ready).map LibraryReadiness.applicableExecutions).sum = _
  rw [List.filter_eq_self.mpr fun row hrow => (hready row hrow).1, hall, List.sum_replicate_nat]

theorem blocked_eq : (projectWidthBatchReadiness (tables.batch hash host) reviewed).readiness.blockedExecutions =
    (tables.libraries.length * ((tables.offered host).length * multiplier tables.toWidthTables) : Nat) -
      (projectWidthBatchReadiness (tables.batch hash host) reviewed).readiness.materializableExecutions := by
  have hlength : ((tables.libraries.map (projectLibrary (tables.batch hash host) reviewed)).length : Int) =
      tables.libraries.length := by
    rw [List.length_map]
  show ((tables.libraries.map (projectLibrary (tables.batch hash host) reviewed)).length : Int) *
      (tables.batch hash host).summary.executionsPerLibrary - _ = _
  rw [hlength, batch_summary.1, Nat.cast_mul tables.libraries.length]
  rfl

/-- The readiness of a batch agrees with its plans exactly when an execution is one pair, or some library is not open to
every pair, and every ready recipe supports as many rows beyond its pairs as the further executions of those pairs. -/
theorem readiness_consistent_iff (htables : readBatch files document = .ok tables)
    (hload : loadWidthBatch hash files document host = .ok batch) (reviewed : List ReviewedRecipe) (matrix : Matrix) :
    Consistent tables.toWidthTables host batch reviewed matrix ↔
      (multiplier tables.toWidthTables = 1 ∨
        ∃ source ∈ batch.libraries, ∀ recipe, Ready reviewed source recipe → ¬ recipe.library.Unrestricted) ∧
      ∀ source ∈ batch.libraries, ∀ recipe, Ready reviewed source recipe →
        unavailableRows tables.toWidthTables host recipe.library + repeatedRows tables.toWidthTables host recipe.library =
          (multiplier tables.toWidthTables - 1) * supportedPairs tables.toWidthTables host recipe.library := by
  obtain ⟨tables', htables', hfits, rfl⟩ := loadWidthBatch_eq_ok.mp hload
  obtain rfl := Except.ok.inj (htables.symm.trans htables')
  obtain ⟨hlibraries, hexecutions⟩ := readBatch_expected htables
  rw [← hfits] at hlibraries hexecutions
  have hn : 0 < tables.libraries.length := Int.ofNat_lt.mp hlibraries
  have hproduct : 0 < (tables.offered host).length * multiplier tables.toWidthTables := by
    have hsummary := (@batch_summary hash tables host).1
    have hcounts : (tables.batch hash host).summary.toCounts = tables.counts tables.libraries.length host :=
      WidthTables.actualCounts_eq tables.libraries.length
    rw [hcounts] at hsummary
    rw [hsummary] at hexecutions
    exact_mod_cast hexecutions
  have hpairs : 0 < (tables.offered host).length := Nat.pos_of_mul_pos_right hproduct
  have hm : 0 < multiplier tables.toWidthTables := Nat.pos_of_mul_pos_left hproduct
  have hle := @materializable_le hash tables host reviewed
  have hblocked := @blocked_eq hash tables host reviewed
  -- a pair more or less of a recipe's rows against the executions of its cells
  have hplanned : ∀ source recipe, Ready reviewed source recipe →
      ((projectLibrary (tables.batch hash host) reviewed source).applicableExecutions =
          supportedCells tables.toWidthTables host matrix recipe.library * multiplier tables.toWidthTables ↔
        unavailableRows tables.toWidthTables host recipe.library + repeatedRows tables.toWidthTables host recipe.library =
          (multiplier tables.toWidthTables - 1) * supportedPairs tables.toWidthTables host recipe.library) := by
    intro source recipe hrecipe
    rw [applicable_ready hrecipe, supportedCells_eq]
    obtain ⟨further, hfurther⟩ := Nat.exists_eq_add_of_lt hm
    rw [hfurther, Nat.zero_add, Nat.add_sub_cancel, Nat.mul_add, Nat.mul_one, Nat.mul_comm]
    omega
  constructor
  · intro h
    refine ⟨?_, fun source hsource recipe hrecipe => ?_⟩
    · by_contra hnot
      push Not at hnot
      obtain ⟨hone, hall⟩ := hnot
      have hzero := h.unblocked hall
      rw [hblocked, materializable_unrestricted hall] at hzero
      have hequal : tables.libraries.length * ((tables.offered host).length * multiplier tables.toWidthTables) =
          tables.libraries.length * (tables.offered host).length := by
        have := sub_eq_zero.mp hzero
        exact_mod_cast this
      have hpairs' := Nat.eq_of_mul_eq_mul_left hn hequal
      exact hone (Nat.eq_of_mul_eq_mul_left hpairs (hpairs'.trans (Nat.mul_one _).symm))
    · exact (hplanned source recipe hrecipe).mp (h.planned _ (List.mem_map_of_mem hsource) recipe hrecipe)
  · rintro ⟨hone, hrows⟩
    have hmore : tables.libraries.length * (tables.offered host).length ≤
        tables.libraries.length * ((tables.offered host).length * multiplier tables.toWidthTables) :=
      Nat.mul_le_mul_left _ (Nat.le_mul_of_pos_right _ hm)
    refine ⟨?_, ?_, fun hall => ?_, fun row hrow recipe hrecipe => ?_⟩
    · rw [hblocked]
      omega
    · rw [hblocked, batch_summary.2]
      omega
    · rcases hone with hone | ⟨source, hsource, hnone⟩
      · rw [hblocked, materializable_unrestricted hall, hone, Nat.mul_one]
        omega
      · obtain ⟨recipe, hrecipe, hfree⟩ := hall source hsource
        exact absurd hfree (hnone recipe hrecipe)
    · obtain ⟨source, hsource, rfl⟩ := List.mem_map.mp hrow
      exact (hplanned source recipe hrecipe).mpr (hrows source hsource recipe hrecipe)

end Consistency

namespace Shapes

theorem zlib_safeName : isPathComponent "zlib" = true := by decide

theorem zlib_safeVersion : isPathComponent "1.3.1" = true := by decide

def zlib : Library := ⟨"zlib", "1.3.1", [], [], [], [], zlib_safeName, zlib_safeVersion⟩

def zlibRecipe : NativeRecipe := ⟨zlib, "https://zlib.net/zlib.tar.gz", pin⟩

def matrix : Matrix := ⟨"zlib", "batches/zlib.toml", ["zlib@1.3.1"], ["linux-gcc"], ["o2"]⟩

/-- The excluding batch without its excluded pair, built into `shapes` artifact shapes. -/
def files (shapes : List StatedRow) : BatchFiles :=
  { excludingFiles with
    authority := fun _ => .ok { excludingAuthority with artifactProfiles := shapes }
    coverageUniverse := .ok [⟨"gcc-o2", "gcc", "c", some "o2"⟩] }

def archive : StatedRow := ⟨"archive", .registered⟩

def linked : StatedRow := ⟨"linked", .registered⟩

def document (executions : Int) : Json.Fields :=
  excludingDocument.dropLast ++
    [("expected", .obj [("libraries", .int 1), ("route_profiles", .int 1), ("compiler_identities", .int 1),
      ("executable_treatments", .int 1), ("executions_per_library", .int executions),
      ("total_executions", .int executions)])]

def load (shapes : List StatedRow) (executions : Int) : Result WidthBatch :=
  loadWidthBatch (fun _ => pin) (files shapes) (document executions) qualifiedHost

theorem load_map {α : Type} {f : WidthBatch → α} {value : α} {shapes : List StatedRow} {executions : Int}
    (h : (load shapes executions).map f = .ok value) :
    ∃ tables batch, readBatch (files shapes) (document executions) = .ok tables ∧ load shapes executions = .ok batch ∧
      f batch = value := by
  cases hload : load shapes executions with
  | error e =>
    rw [hload] at h
    cases h
  | ok batch =>
    obtain ⟨tables, htables, -⟩ := loadWidthBatch_eq_ok.mp hload
    rw [hload] at h
    exact ⟨tables, batch, htables, rfl, Except.ok.inj h⟩

/-- With one artifact shape the readiness counts what the planner creates. -/
theorem archive_consistent : ∃ tables batch, readBatch (files [archive]) (document 1) = .ok tables ∧
    load [archive] 1 = .ok batch ∧
    Consistent tables.toWidthTables qualifiedHost batch [.native zlibRecipe] matrix := by
  have hloads : (load [archive] 1).map (fun _ => ()) = .ok () := by decide
  obtain ⟨tables, batch, htables, hload, -⟩ := load_map hloads
  have hrows : (readBatch (files [archive]) (document 1)).map (fun tables =>
      (unavailableRows tables.toWidthTables qualifiedHost zlib, repeatedRows tables.toWidthTables qualifiedHost zlib,
        multiplier tables.toWidthTables)) = .ok (0, 0, 1) := by
    decide
  rw [htables] at hrows
  obtain ⟨hunavailable, hrest⟩ := Prod.mk.inj (Except.ok.inj hrows)
  obtain ⟨hrepeated, hmultiplier⟩ := Prod.mk.inj hrest
  refine ⟨tables, batch, htables, hload, (readiness_consistent_iff htables hload _ _).mpr ⟨.inl hmultiplier, ?_⟩⟩
  intro source _ recipe hrecipe
  obtain rfl := List.mem_singleton.mp (lookupLast_eq_some hrecipe.1).1
  show unavailableRows tables.toWidthTables qualifiedHost zlib + repeatedRows tables.toWidthTables qualifiedHost zlib = _
  rw [hunavailable, hrepeated, hmultiplier, Nat.sub_self, Nat.zero_mul]

/-- With two artifact shapes a batch whose only recipe is ready and unrestricted has a blocked execution. -/
theorem shapes_block_executions : ∃ tables batch, readBatch (files [archive, linked]) (document 2) = .ok tables ∧
    load [archive, linked] 2 = .ok batch ∧
    (projectWidthBatchReadiness batch [.native zlibRecipe]).readiness.blockedExecutions = 1 ∧
    ¬ Consistent tables.toWidthTables qualifiedHost batch [.native zlibRecipe] matrix := by
  have hloads : (load [archive, linked] 2).map (fun batch =>
      ((projectWidthBatchReadiness batch [.native zlibRecipe]).readiness.blockedExecutions,
        batch.libraries.all fun source =>
          decide (recipeId source = zlib.identity ∧ zlibRecipe.url = source.url ∧ zlibRecipe.sha256 = source.sha256))) =
      .ok (1, true) := by
    decide
  obtain ⟨tables, batch, htables, hload, hvalues⟩ := load_map hloads
  obtain ⟨hblocked, hready⟩ := Prod.mk.inj hvalues
  refine ⟨tables, batch, htables, hload, hblocked, fun h => ?_⟩
  have hzero := h.unblocked fun source hsource => by
    obtain ⟨hid, hurl, hsha256⟩ := of_decide_eq_true (List.all_eq_true.mp hready source hsource)
    refine ⟨zlibRecipe, ⟨?_, hurl, hsha256⟩, rfl, rfl, rfl, rfl⟩
    rw [hid]
    rfl
  rw [hblocked] at hzero
  cases hzero

end Shapes

end FidbPoc.Planning
