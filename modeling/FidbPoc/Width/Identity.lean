import FidbPoc.Width.Tables

namespace FidbPoc.Width

open FidbPoc.Lib FidbPoc.Lib.Checked

instance (host : Host) (shape : Shape) : Decidable (shape.Qualified host) := inferInstanceAs (Decidable (_ ∧ _))

namespace WidthTables

variable {tables : WidthTables} {host first second : Host} {p : PlannedRoute × Slot} {profile : Profile}
  {treatment : Treatment}

/-- The profile has the route's compiler family and names a registered treatment. -/
def Binds (p : PlannedRoute × Slot) (profile : Profile) (treatment : Treatment) : Prop :=
  p.2.shape.compilerFamily = profile.compilerFamily ∧ profile.executionTreatment = some treatment.id

instance (p : PlannedRoute × Slot) (profile : Profile) (treatment : Treatment) :
    Decidable (Binds p profile treatment) := inferInstanceAs (Decidable (_ ∧ _))

/-- What a batch on the host takes in: a route that the treatment covers, or one that the host does not qualify. -/
def Offers (tables : WidthTables) (host : Host) (p : PlannedRoute × Slot) (profile : Profile) : Prop :=
  ∃ treatment ∈ tables.treatments, Binds p profile treatment ∧
    (treatment.appliesTo (slotId p) = true ∨ ¬p.2.shape.Qualified host)

instance (tables : WidthTables) (host : Host) (p : PlannedRoute × Slot) (profile : Profile) :
    Decidable (tables.Offers host p profile) := inferInstanceAs (Decidable (∃ _ ∈ _, _))

/-- Whatever a treatment excludes is qualified on both hosts or on neither. -/
def Agree (tables : WidthTables) (first second : Host) : Prop :=
  ∀ p ∈ tables.places, ∀ profile ∈ tables.profiles, ∀ treatment ∈ tables.treatments, Binds p profile treatment →
    treatment.appliesTo (slotId p) = false → (p.2.shape.Qualified first ↔ p.2.shape.Qualified second)

theorem Agree.symm (h : tables.Agree first second) : tables.Agree second first :=
  fun p hp profile hprofile treatment ht hbinds hexcludes => (h p hp profile hprofile treatment ht hbinds hexcludes).symm

def pairs (tables : WidthTables) : List ((PlannedRoute × Slot) × Profile) := tables.places ×ˢ tables.profiles

def offered (tables : WidthTables) (host : Host) : List ((PlannedRoute × Slot) × Profile) :=
  tables.pairs.filter fun k => tables.Offers host k.1 k.2

theorem treatment_eq {other : Treatment} (h : other ∈ tables.treatments) (ht : treatment ∈ tables.treatments)
    (hid : other.id = treatment.id) : other = treatment :=
  List.inj_on_of_nodup_map tables.treatmentIds h ht hid

section States

theorem summary_family : (summary host p).compilerFamily = p.2.shape.compilerFamily :=
  congrArg Mechanics.compilerFamily p.2.route_mechanics

theorem summary_id : (summary host p).id = slotId p := p.2.route_id

theorem summary_qualified : (summary host p).toolchainState = .qualified ↔ p.2.shape.Qualified host :=
  p.2.route_qualified

theorem pairState_of_binds (ht : treatment ∈ tables.treatments) (h : Binds p profile treatment) :
    (pairState tables.treatments (summary host p) profile).1 =
      if p.2.shape.Qualified host then
        if treatment.appliesTo (slotId p) = true then .executable else .inapplicable
      else .unavailable := by
  unfold pairState
  simp only [summary_family, h.1, h.2, summary_id, lookupLast_of_nodup tables.treatmentIds ht]
  by_cases hqualified : p.2.shape.Qualified host
  · have hstate : (summary host p).toolchainState = .qualified := summary_qualified.mpr hqualified
    by_cases happlies : treatment.appliesTo (slotId p) = true
    · simp [hqualified, hstate, happlies]
    · simp [hqualified, hstate, happlies]
  · have hstate : (summary host p).toolchainState ≠ .qualified := fun h => hqualified (summary_qualified.mp h)
    simp [hqualified, hstate]

/-- Without a registered treatment no host is asked. -/
theorem pairState_unbound (h : ∀ treatment ∈ tables.treatments, ¬Binds p profile treatment) :
    (pairState tables.treatments (summary host p) profile).1 =
      if p.2.shape.compilerFamily = profile.compilerFamily then .unimplemented else .inapplicable := by
  unfold pairState
  rw [summary_family]
  by_cases hfamily : p.2.shape.compilerFamily = profile.compilerFamily
  · rw [if_neg (not_not.mpr hfamily), if_pos hfamily]
    cases htreatment : profile.executionTreatment with
    | none => rfl
    | some treatmentId =>
      cases hlookup : lookupLast Treatment.id tables.treatments treatmentId with
      | none => simp only [hlookup]
      | some treatment =>
        obtain ⟨hmem, hid⟩ := lookupLast_eq_some hlookup
        exact absurd ⟨hfamily, htreatment.trans (congrArg some hid.symm)⟩ (h treatment hmem)
  · rw [if_pos hfamily, if_neg hfamily]

def row (tables : WidthTables) (host : Host) (k : (PlannedRoute × Slot) × Profile) : Applicability :=
  applicabilityRow tables.treatments (summary host k.1) k.2

theorem rows_eq : tables.rows host = tables.pairs.map (tables.row host) := by
  have hpairs : tables.pairs = tables.places.flatMap fun p => tables.profiles.map (Prod.mk p) := rfl
  unfold rows applicability
  rw [hpairs, List.flatMap_map, List.map_flatMap]
  simp only [List.map_map]
  rfl

theorem row_selected (k : (PlannedRoute × Slot) × Profile) :
    ((tables.row host k).state = .executable ∨ (tables.row host k).state = .unavailable) ↔
      tables.Offers host k.1 k.2 := by
  have hstate : (tables.row host k).state = (pairState tables.treatments (summary host k.1) k.2).1 := rfl
  by_cases hbound : ∃ treatment ∈ tables.treatments, Binds k.1 k.2 treatment
  · obtain ⟨treatment, ht, hbinds⟩ := hbound
    rw [hstate, pairState_of_binds ht hbinds]
    constructor
    · intro h
      refine ⟨treatment, ht, hbinds, ?_⟩
      by_cases happlies : treatment.appliesTo (slotId k.1) = true
      · exact .inl happlies
      · refine .inr fun hqualified => ?_
        simp [hqualified, happlies] at h
    · intro ⟨other, hother, hbinds', hoffer⟩
      obtain rfl := treatment_eq hother ht (Option.some.inj (hbinds'.2.symm.trans hbinds.2))
      by_cases hqualified : k.1.2.shape.Qualified host
      · have happlies := hoffer.resolve_right (not_not.mpr hqualified)
        simp [hqualified, happlies]
      · simp [hqualified]
  · have hunbound : ∀ treatment ∈ tables.treatments, ¬Binds k.1 k.2 treatment := fun t ht hb => hbound ⟨t, ht, hb⟩
    rw [hstate, pairState_unbound hunbound]
    constructor
    · intro h
      by_cases hfamily : k.1.2.shape.compilerFamily = k.2.compilerFamily <;> simp [hfamily] at h
    · intro ⟨treatment, ht, hbinds, _⟩
      exact absurd hbinds (hunbound treatment ht)

theorem selectedPairs_eq : selectedPairs (tables.rows host) = (tables.offered host).map (tables.row host) := by
  unfold selectedPairs offered
  rw [rows_eq, List.filter_map]
  congr 2
  funext k
  simp only [Function.comp_apply, row_selected]

end States

section Pairs

/-- The execution pair of a route and a profile. -/
def executionOf (k : (PlannedRoute × Slot) × Profile) : ExecutionPair :=
  ⟨slotId k.1, k.2.executionTreatment, k.1.2.shape.targetOs, k.1.2.shape.architecture, k.1.2.shape.compilerFamily⟩

theorem mem_pairs {k : (PlannedRoute × Slot) × Profile} :
    k ∈ tables.pairs ↔ k.1 ∈ tables.places ∧ k.2 ∈ tables.profiles := List.pair_mem_product

theorem mem_offered {k : (PlannedRoute × Slot) × Profile} :
    k ∈ tables.offered host ↔ (k.1 ∈ tables.places ∧ k.2 ∈ tables.profiles) ∧ tables.Offers host k.1 k.2 := by
  unfold offered
  rw [List.mem_filter, mem_pairs, decide_eq_true_iff]

theorem executionPair_row {k : (PlannedRoute × Slot) × Profile} (hk : k.1 ∈ tables.places) :
    executionPair (tables.places.map (summary host)) (tables.row host k) = some (executionOf k) := by
  have hroute : (tables.row host k).routeId = slotId k.1 := summary_id
  obtain ⟨route, hfound⟩ : ∃ route, (tables.places.map (summary host)).find?
      (fun route => route.id = (tables.row host k).routeId) = some route := by
    refine Option.isSome_iff_exists.mp (List.find?_isSome.mpr ⟨summary host k.1, List.mem_map_of_mem hk, ?_⟩)
    rw [hroute, decide_eq_true_iff]
    exact summary_id
  obtain ⟨q, hq, rfl⟩ := List.mem_map.mp (List.mem_of_find?_eq_some hfound)
  have hid : slotId q = slotId k.1 := by
    have h := List.find?_some hfound
    rw [decide_eq_true_iff, hroute] at h
    exact summary_id.symm.trans h
  have hslot : q.2 = k.1.2 := by
    refine tables.placed.unique q hq k.1 hk ?_
    rw [← tables.placed.named q hq, hid, tables.placed.named k.1 hk]
  have hmechanics : (summary host q).toMechanics = k.1.2.shape.toMechanics := by
    rw [← hslot]
    exact q.2.route_mechanics
  unfold executionPair
  rw [hfound, Option.map_some, hroute, hmechanics]
  rfl

theorem executionPairs_eq : (selectedPairs (tables.rows host)).map (executionPair (tables.places.map (summary host))) =
    (tables.offered host).map fun k => some (executionOf k) := by
  rw [selectedPairs_eq, List.map_map]
  exact List.map_congr_left fun k hk => executionPair_row (mem_offered.mp hk).1.1

/-- Hosts that agree on what the treatments exclude offer the same pairs. -/
theorem offers_of_agree (h : tables.Agree first second) {k : (PlannedRoute × Slot) × Profile} (hk : k ∈ tables.pairs)
    (hoffers : tables.Offers first k.1 k.2) : tables.Offers second k.1 k.2 := by
  obtain ⟨hplace, hprofile⟩ := mem_pairs.mp hk
  obtain ⟨treatment, ht, hbinds, hoffer⟩ := hoffers
  refine ⟨treatment, ht, hbinds, ?_⟩
  by_cases happlies : treatment.appliesTo (slotId k.1) = true
  · exact .inl happlies
  · have hsame := h k.1 hplace k.2 hprofile treatment ht hbinds (by simpa using happlies)
    exact .inr fun hqualified => hoffer.resolve_left happlies (hsame.mpr hqualified)

theorem offered_of_agree (h : tables.Agree first second) : tables.offered first = tables.offered second := by
  unfold offered
  refine List.filter_congr fun k hk => ?_
  rw [decide_eq_decide]
  exact ⟨offers_of_agree h hk, offers_of_agree h.symm hk⟩

/-- An excluded pair is among the execution pairs exactly where its route is not qualified. -/
theorem excluded_offered (host : Host) {k : (PlannedRoute × Slot) × Profile} (hk : k ∈ tables.pairs)
    (ht : treatment ∈ tables.treatments) (hbinds : Binds k.1 k.2 treatment)
    (hexcludes : treatment.appliesTo (slotId k.1) = false) :
    executionOf k ∈ (tables.offered host).map executionOf ↔ ¬k.1.2.shape.Qualified host := by
  obtain ⟨hplace, hprofile⟩ := mem_pairs.mp hk
  constructor
  · intro h
    obtain ⟨q, hq, hsame⟩ := List.mem_map.mp h
    obtain ⟨⟨hqplace, -⟩, other, hother, hbinds', hoffer⟩ := mem_offered.mp hq
    have hid : slotId q.1 = slotId k.1 := congrArg ExecutionPair.routeId hsame
    have htreatment : q.2.executionTreatment = k.2.executionTreatment := congrArg ExecutionPair.treatmentId hsame
    have hsame : other = treatment :=
      treatment_eq hother ht (Option.some.inj ((hbinds'.2.symm.trans htreatment).trans hbinds.2))
    have hslot : q.1.2 = k.1.2 := by
      refine tables.placed.unique q.1 hqplace k.1 hplace ?_
      rw [← tables.placed.named q.1 hqplace, hid, tables.placed.named k.1 hplace]
    rw [← hslot]
    refine hoffer.resolve_left ?_
    rw [hsame, hid, hexcludes]
    exact Bool.false_ne_true
  · intro h
    exact List.mem_map_of_mem (mem_offered.mpr ⟨⟨hplace, hprofile⟩, treatment, ht, hbinds, .inr h⟩)

theorem agree_of_executionPairs
    (h : (tables.offered first).map executionOf = (tables.offered second).map executionOf) :
    tables.Agree first second := by
  intro p hp profile hprofile treatment ht hbinds hexcludes
  have hk : (p, profile) ∈ tables.pairs := mem_pairs.mpr ⟨hp, hprofile⟩
  have hfirst := excluded_offered first hk ht hbinds hexcludes
  have hsecond := excluded_offered second hk ht hbinds hexcludes
  rw [h] at hfirst
  exact not_iff_not.mp (hfirst.symm.trans hsecond)

end Pairs

section Counts

/-- The counts of the pairs that a host offers. -/
def counts (tables : WidthTables) (libraries : Nat) (host : Host) : Counts :=
  let executions := (tables.offered host).length * registeredRows tables.authority.artifactProfiles *
    registeredRows tables.authority.analysisProfiles * tables.authority.selectedReplay
  { libraries := libraries
    routeProfiles := tables.places.length
    compilerIdentities := (tables.places.map fun p => p.1.compilerId).dedup.length
    executableTreatments := ((tables.offered host).map fun k => k.2.executionTreatment).dedup.length
    executionsPerLibrary := executions
    totalExecutions := libraries * executions }

theorem actualCounts_eq (libraries : Nat) : actualCounts libraries (tables.width host) = tables.counts libraries host := by
  have hcompilers : (tables.places.map (summary host)).map RouteSummary.compilerId =
      tables.places.map fun p => p.1.compilerId := by
    rw [List.map_map]
    rfl
  have htreatments : (selectedPairs (tables.rows host)).map Applicability.treatmentId =
      (tables.offered host).map fun k => k.2.executionTreatment := by
    rw [selectedPairs_eq, List.map_map]
    rfl
  have hlength : (selectedPairs (tables.rows host)).length = (tables.offered host).length := by
    rw [selectedPairs_eq, List.length_map]
  simp only [actualCounts, counts, width, hcompilers, htreatments, hlength, List.length_map]
  rfl

theorem pairState_of_agree (h : tables.Agree first second) {k : (PlannedRoute × Slot) × Profile}
    (hk : k ∈ tables.pairs) (state : PairState) (hstate : state = .inapplicable ∨ state = .unimplemented) :
    (tables.row first k).state = state ↔ (tables.row second k).state = state := by
  obtain ⟨hplace, hprofile⟩ := mem_pairs.mp hk
  have hrow (host : Host) : (tables.row host k).state =
      (pairState tables.treatments (summary host k.1) k.2).1 := rfl
  by_cases hbound : ∃ treatment ∈ tables.treatments, Binds k.1 k.2 treatment
  · obtain ⟨treatment, ht, hbinds⟩ := hbound
    rw [hrow, hrow, pairState_of_binds ht hbinds, pairState_of_binds ht hbinds]
    by_cases happlies : treatment.appliesTo (slotId k.1) = true
    · have hother (c : Prop) [Decidable c] : (if c then PairState.executable else .unavailable) ≠ state := by
        obtain rfl | rfl := hstate <;> split <;> exact nofun
      simp only [happlies, if_true, hother]
    · have hsame := h k.1 hplace k.2 hprofile treatment ht hbinds (by simpa using happlies)
      simp only [hsame]
  · have hunbound : ∀ treatment ∈ tables.treatments, ¬Binds k.1 k.2 treatment := fun t ht hb => hbound ⟨t, ht, hb⟩
    rw [hrow, hrow, pairState_unbound hunbound, pairState_unbound hunbound]

theorem stableSummary_of_agree (h : tables.Agree first second) (libraries : Nat) :
    stableSummary libraries (tables.width first) = stableSummary libraries (tables.width second) := by
  have hcounts : tables.counts libraries first = tables.counts libraries second := by
    unfold counts
    rw [offered_of_agree h]
  have happlicable : (tables.rows first).countP (fun row => row.state ≠ .inapplicable) =
      (tables.rows second).countP fun row => row.state ≠ .inapplicable := by
    rw [rows_eq, rows_eq, List.countP_map, List.countP_map]
    refine List.countP_congr fun k hk => ?_
    simpa using not_congr (pairState_of_agree h hk .inapplicable (.inl rfl))
  have hunimplemented : countState .unimplemented (tables.rows first) =
      countState .unimplemented (tables.rows second) := by
    unfold countState
    rw [rows_eq, rows_eq, List.countP_map, List.countP_map]
    refine List.countP_congr fun k hk => ?_
    simpa using pairState_of_agree h hk .unimplemented (.inr rfl)
  unfold stableSummary
  rw [actualCounts_eq, actualCounts_eq, hcounts]
  simp only [width, summarizeWidth, happlicable, hunimplemented]

end Counts

end WidthTables

/-- What a batch reads of its document and its files. No part depends on the host. -/
structure BatchTables extends WidthTables where
  head : Head
  bindings : Bindings
  libraries : List Source
  expected : Counts
  authorityPath : String
  authoritySha256 : String

/-- The checks of `load_width_batch` except the one of the counts. -/
def readBatch (files : BatchFiles) (document : Json.Fields) : Result BatchTables := do
  let head ← readHead document
  let ids ← sourceIds document
  let expected ← expectedCounts document
  let bindings ← readBindings files document
  let selected ← selectLibraries files head ids bindings
  let tables ← readWidth files.toWidthFiles (stem bindings.widthName)
  require (tables.authority.languageId = head.languageId) "width batch authority language does not match"
  require (tables.widthPath = bindings.width) "width batch compiler resolved a different width authority"
  let pinned ← digest document "width_route_profile_digest"
  require (tables.profileDigest = pinned) "width batch route profile digest no longer matches reviewed width"
  match files.batchPath with
  | none => .error "the batch is not in the subpath of the project"
  | some authorityPath => pure ⟨tables, head, bindings, selected, expected, authorityPath, files.batchSha256⟩

namespace BatchTables

variable {tables : BatchTables} {hash : StableBody → String} {first second host : Host}

/-- The batch expects the counts of the pairs that the host offers. -/
def Fits (tables : BatchTables) (host : Host) : Prop :=
  tables.counts tables.libraries.length host = tables.expected

def body (tables : BatchTables) (host : Host) : StableBody :=
  ⟨tables.head, tables.authorityPath, tables.authoritySha256, tables.bindings, tables.profileDigest, tables.libraries,
    stableSummary tables.libraries.length (tables.width host)⟩

def batch (tables : BatchTables) (hash : StableBody → String) (host : Host) : WidthBatch :=
  { tables.body host with
    executionPairs := (tables.offered host).map fun k => some (WidthTables.executionOf k)
    locallyQualifiedRoutes := (tables.width host).summary.qualifiedRoutes
    locallyExecutablePerLibrary := (tables.width host).summary.feasibleFullPathExecutions
    batchDigest := hash (tables.body host) }

end BatchTables

/-- A batch loads where its tables are read and fit the host. -/
theorem loadWidthBatch_eq_ok {hash : StableBody → String} {files : BatchFiles} {document : Json.Fields} {host : Host}
    {batch : WidthBatch} :
    loadWidthBatch hash files document host = .ok batch ↔
      ∃ tables, readBatch files document = .ok tables ∧ tables.Fits host ∧ batch = tables.batch hash host := by
  have hwidth (id : String) (width : CWidth) : compileCWidth host files.toWidthFiles id = .ok width ↔
      ∃ tables, readWidth files.toWidthFiles id = .ok tables ∧ tables.width host = width := by
    rw [compileCWidth_eq]
    exact map_eq_ok
  unfold loadWidthBatch readBatch
  simp only [bind_eq_ok, require_eq_ok, hwidth]
  constructor
  · rintro ⟨head, hhead, ids, hids, expected, hexpected, bindings, hbindings, selected, hselected, width,
      ⟨tables, htables, rfl⟩, u₁, hlanguage, u₂, hpath, pinned, hpinned, u₃, hdigest, u₄, hcounts, h⟩
    cases hbatch : files.batchPath with
    | none =>
      rw [hbatch] at h
      cases h
    | some authorityPath =>
      rw [hbatch] at h
      refine ⟨⟨tables, head, bindings, selected, expected, authorityPath, files.batchSha256⟩, ?_, ?_, ?_⟩
      · exact ⟨head, hhead, ids, hids, expected, hexpected, bindings, hbindings, selected, hselected, tables, htables,
          u₁, hlanguage, u₂, hpath, pinned, hpinned, u₃, hdigest, rfl⟩
      · exact (WidthTables.actualCounts_eq selected.length).symm.trans hcounts
      · obtain rfl := hdigest
        rw [← Except.ok.inj h]
        simp only [BatchTables.batch, BatchTables.body, WidthTables.width, WidthTables.executionPairs_eq]
  · rintro ⟨tables, ⟨head, hhead, ids, hids, expected, hexpected, bindings, hbindings, selected, hselected, width,
      hwidth, u₁, hlanguage, u₂, hpath, pinned, hpinned, u₃, hdigest, h⟩, hfits, rfl⟩
    refine ⟨head, hhead, ids, hids, expected, hexpected, bindings, hbindings, selected, hselected, width.width host,
      ⟨width, hwidth, rfl⟩, u₁, hlanguage, u₂, hpath, pinned, hpinned, u₃, hdigest, ?_⟩
    cases hbatch : files.batchPath with
    | none =>
      rw [hbatch] at h
      cases h
    | some authorityPath =>
      rw [hbatch] at h
      obtain rfl := Except.ok.inj h
      obtain rfl := hdigest
      refine ⟨⟨⟩, (WidthTables.actualCounts_eq selected.length).trans hfits, ?_⟩
      simp only [BatchTables.batch, BatchTables.body, WidthTables.width, WidthTables.executionPairs_eq]
      rfl

/-- Both are refused, or both are accepted with one digest, one count of executions and one list of pairs. -/
def SameBehaviour : Result WidthBatch → Result WidthBatch → Prop
  | .error _, .error _ => True
  | .ok batch, .ok batch' =>
    batch.batchDigest = batch'.batchDigest ∧
      batch.summary.executionsPerLibrary = batch'.summary.executionsPerLibrary ∧
      batch.executionPairs = batch'.executionPairs
  | _, _ => False

theorem load_refused {files : BatchFiles} {document : Json.Fields} {host : Host} (hash : StableBody → String)
    (h : ∀ tables, readBatch files document = .ok tables → ¬tables.Fits host) :
    ∃ e, loadWidthBatch hash files document host = .error e := by
  cases hload : loadWidthBatch hash files document host with
  | error e => exact ⟨e, rfl⟩
  | ok batch =>
    obtain ⟨tables, htables, hfits, -⟩ := loadWidthBatch_eq_ok.mp hload
    exact absurd hfits (h tables htables)

namespace BatchTables

variable {tables : BatchTables} {first second : Host}

theorem fits_of_agree (h : tables.Agree first second) (hfits : tables.Fits first) : tables.Fits second := by
  unfold Fits WidthTables.counts at hfits ⊢
  rwa [← WidthTables.offered_of_agree h]

theorem body_of_agree (h : tables.Agree first second) : tables.body first = tables.body second := by
  unfold body
  rw [WidthTables.stableSummary_of_agree h]

theorem batch_same_iff (tables : BatchTables) (hash : StableBody → String) (first second : Host) :
    SameBehaviour (.ok (tables.batch hash first)) (.ok (tables.batch hash second)) ↔ tables.Agree first second := by
  constructor
  · intro h
    refine WidthTables.agree_of_executionPairs ?_
    have hpairs := congrArg (List.filterMap id) h.2.2
    simpa [batch, List.filterMap_map, Function.comp_def] using hpairs
  · intro h
    refine ⟨congrArg hash (body_of_agree h), ?_, ?_⟩
    · exact congrArg (fun body : StableBody => body.summary.executionsPerLibrary) (body_of_agree h)
    · exact congrArg (List.map fun k => some (WidthTables.executionOf k)) (WidthTables.offered_of_agree h)

end BatchTables

section Load

variable {hash : StableBody → String} {files : BatchFiles} {document : Json.Fields} {tables : BatchTables} {host : Host}

theorem load_of_fits (htables : readBatch files document = .ok tables) (hfits : tables.Fits host) :
    loadWidthBatch hash files document host = .ok (tables.batch hash host) :=
  loadWidthBatch_eq_ok.mpr ⟨tables, htables, hfits, rfl⟩

theorem load_of_not_fits (hash : StableBody → String) (htables : readBatch files document = .ok tables) (hfits : ¬tables.Fits host) :
    ∃ e, loadWidthBatch hash files document host = .error e := by
  refine load_refused hash fun tables' htables' => ?_
  rwa [← Except.ok.inj (htables.symm.trans htables')]

end Load

/-- A batch behaves the same on two hosts exactly where, if it fits one of them, they
agree on the routes that its treatments exclude. -/
theorem loadWidthBatch_same_iff (hash : StableBody → String) (files : BatchFiles) (document : Json.Fields)
    (first second : Host) :
    SameBehaviour (loadWidthBatch hash files document first) (loadWidthBatch hash files document second) ↔
      ∀ tables, readBatch files document = .ok tables → tables.Fits first ∨ tables.Fits second →
        tables.Agree first second := by
  constructor
  · intro hsame tables htables hfits
    by_cases hfirst : tables.Fits first
    · by_cases hsecond : tables.Fits second
      · rw [load_of_fits htables hfirst, load_of_fits htables hsecond] at hsame
        exact (tables.batch_same_iff hash first second).mp hsame
      · obtain ⟨e, he⟩ := load_of_not_fits hash htables hsecond
        rw [load_of_fits htables hfirst, he] at hsame
        exact hsame.elim
    · obtain ⟨e, he⟩ := load_of_not_fits hash htables hfirst
      rw [load_of_fits htables (hfits.resolve_left hfirst), he] at hsame
      exact hsame.elim
  · intro h
    by_cases hread : ∃ tables, readBatch files document = .ok tables ∧ (tables.Fits first ∨ tables.Fits second)
    · obtain ⟨tables, htables, hfits⟩ := hread
      have hagree := h tables htables hfits
      have hfirst : tables.Fits first := hfits.elim id (BatchTables.fits_of_agree hagree.symm)
      rw [load_of_fits htables hfirst, load_of_fits htables (BatchTables.fits_of_agree hagree hfirst)]
      exact (tables.batch_same_iff hash first second).mpr hagree
    · obtain ⟨e, he⟩ := load_refused hash fun tables htables hfits => hread ⟨tables, htables, .inl hfits⟩
      obtain ⟨e', he'⟩ := load_refused hash fun tables htables hfits => hread ⟨tables, htables, .inr hfits⟩
      rw [he, he']
      exact trivial

section Excluded

instance (result result' : Result WidthBatch) : Decidable (SameBehaviour result result') :=
  match result, result' with
  | .error _, .error _ => isTrue trivial
  | .ok _, .ok _ => inferInstanceAs (Decidable (_ ∧ _ ∧ _))
  | .ok _, .error _ => isFalse id
  | .error _, .ok _ => isFalse id

def pin : String := String.ofList (List.replicate 64 'a')

def linuxMechanics : Mechanics :=
  ⟨"linux", "x86_64", "elf", "gcc", [], ["ELF 64-bit"], ".elf", ["ELF 64-bit"], "x86:LE:64:default", "gcc"⟩

/-- One managed route, and two treatments: one for every route, one for another route only. -/
def excludingWorker : Worker where
  routes := [⟨linuxMechanics, "linux-gcc", ["13.2"], .managed⟩]
  treatments := [⟨"o2", [], ["-O2"], [], "compile", "static-archive-members", [], []⟩,
    ⟨"lto", [], ["-flto"], ["macos-clang"], "compile", "static-archive-members", [], []⟩]
  routeIds := by decide
  treatmentIds := by decide

def excludingAuthority : WidthAuthority where
  id := "c-width-v1"
  label := "C width"
  languageId := "c"
  state := "candidate-disarmed"
  fixedRecipe := "zlib@1.3.1"
  toolchainProfile := "linux"
  selectedReplay := 1
  purpose := "width"
  artifactProfiles := [⟨"archive", .registered⟩]
  analysisProfiles := [⟨"fid", .registered⟩]
  admissionProfiles := [⟨"default", .registered⟩]
  replayBound := by decide

def excludingFiles : BatchFiles where
  authority _ := .ok excludingAuthority
  axes := .ok ⟨1, 1, 2, 1, 1, 1⟩
  coverageUniverse := .ok [⟨"gcc-o2", "gcc", "c", some "o2"⟩, ⟨"gcc-lto", "gcc", "c", some "lto"⟩]
  catalog := .ok ⟨[⟨"linux-gcc", "linux-x86_64", "gcc", "gcc-13"⟩], ["linux-gcc"], [⟨"gcc-13", "13.2"⟩]⟩
  routePlan _ := .ok ⟨[⟨"linux-gcc", "Linux GCC", "linux-x86_64", "gcc-13"⟩], pin⟩
  worker _ := .ok excludingWorker
  factorSpace := .ok ()
  place text := .file (if text = "coverage/c-width-v1.toml" then "c-width-v1.toml" else text) pin
  sourcePack _ := .ok ⟨"c", "coverage/study.toml", [⟨1, "zlib", "zlib", "1.3.1", "https://zlib.net/zlib.tar.gz", pin⟩]⟩
  study _ := .ok ⟨false, "c", "defined-disarmed", ["zlib"]⟩
  batchPath := some "batches/zlib.toml"
  batchSha256 := pin

/-- A batch that expects one execution: the pair that the second treatment excludes is left out. -/
def excludingDocument : Json.Fields :=
  [("schema_version", .str "fidb-width-batch/v1"), ("id", .str "zlib-width"), ("name", .str "zlib"),
    ("label", .str "zlib"), ("state", .str "defined-disarmed"), ("language_id", .str "c"), ("purpose", .str "width"),
    ("source_pack", .str "sources/c.toml"), ("source_pack_sha256", .str pin), ("source_ids", .arr [.str "zlib"]),
    ("width_authority", .str "coverage/c-width-v1.toml"), ("width_authority_sha256", .str pin),
    ("width_route_profile_digest", .str pin), ("width_study", .str "coverage/study.toml"),
    ("width_study_sha256", .str pin), ("recipe_policy", .str "reviewed"), ("queue_policy", .str "disarmed"),
    ("expected", .obj [("libraries", .int 1), ("route_profiles", .int 1), ("compiler_identities", .int 1),
      ("executable_treatments", .int 1), ("executions_per_library", .int 1), ("total_executions", .int 1)])]

def qualifiedHost : Host := fun _ => .ok ⟨"/tools/gcc", "/tools/ar", "/tools/ranlib", pin, pin⟩

def bareHost : Host := fun _ => .error "route linux-gcc is not qualified: missing"

/-- The batch loads where the route is qualified, and is refused where it is not. -/
theorem qualification_decides_excluded :
    ¬SameBehaviour (loadWidthBatch (fun _ => pin) excludingFiles excludingDocument qualifiedHost)
      (loadWidthBatch (fun _ => pin) excludingFiles excludingDocument bareHost) := by
  decide

end Excluded

end FidbPoc.Width
