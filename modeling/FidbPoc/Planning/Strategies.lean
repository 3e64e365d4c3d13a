import FidbPoc.Planning.Variants
import Mathlib.Algebra.Order.BigOperators.Group.List

namespace FidbPoc.Planning

open FidbPoc.Lib FidbPoc.Lib.Checked FidbPoc.Lib.Grouping FidbPoc.Width
open FidbPoc.Coordinator (QueueRow RowState)

section Combinations

variable {selected : List FactorVariant} {groups : Dict String (List FactorVariant)} {counts : Dict String Nat}

/-- The counts of the factors are those of their groups. -/
theorem countFactor_foldl (h : counts.entries = groups.entries.map (Prod.map id List.length)) :
    (selected.foldl countFactor counts).entries =
      (selected.foldl groupVariant groups).entries.map (Prod.map id List.length) := by
  induction selected generalizing groups counts with
  | nil => exact h
  | cons row selected ih =>
    refine ih ?_
    have hcount : (counts.get? row.factor).getD 0 + 1 = ((groups.get? row.factor).getD [] ++ [row]).length := by
      rw [get?_map h, List.length_append, List.length_singleton]
      cases groups.get? row.factor with
      | none => rfl
      | some group => rfl
    rw [countFactor, groupVariant, Dict.entries_set, Dict.entries_set, hcount, h]
    exact (map_assign List.length row.factor _ groups.entries).symm

/-- A matrix has as many combinations as its summary says. -/
theorem length_variantCombinations (selected : List FactorVariant) :
    (variantCombinations selected).length = (summarizeVariants selected).combinations := by
  have hentries := @countFactor_foldl selected Dict.empty Dict.empty rfl
  have hvalues : (selected.foldl countFactor Dict.empty).values =
      (selected.foldl groupVariant Dict.empty).values.map List.length := by
    rw [Dict.values, Dict.values, hentries, List.map_map, List.map_map]
    rfl
  rw [variantCombinations, length_product, ← hvalues, summarizeVariants]
  cases selected with
  | nil => rfl
  | cons row selected => rw [if_neg (List.cons_ne_nil row selected), List.prod_eq_foldl]

end Combinations

section Drawn

variable {rows : List FactorVariant} {knownFactors requested : List String} {catalog : Dict String FactorVariant}
  {selected selected' : List FactorVariant} {summary : VariantSummary}

/-- The variants are rows of one catalog. -/
def Drawn (catalog : Dict String FactorVariant) (selected : List FactorVariant) : Prop :=
  ∀ variant ∈ selected, catalog.get? variant.id = some variant

theorem Drawn.eq_filterMap (h : Drawn catalog selected) :
    (selected.map FactorVariant.id).filterMap catalog.get? = selected := by
  rw [List.filterMap_map]
  have hsome : selected.filterMap (catalog.get? ∘ FactorVariant.id) = selected.filterMap some :=
    List.filterMap_congr h
  rw [hsome, List.filterMap_some]

/-- Rows of one catalog are known by their ids. -/
theorem Drawn.ext (h : Drawn catalog selected) (h' : Drawn catalog selected')
    (hids : selected.map FactorVariant.id = selected'.map FactorVariant.id) : selected = selected' := by
  rw [← h.eq_filterMap, hids, h'.eq_filterMap]

theorem addVariant_keyed {catalog' : Dict String FactorVariant} {row : FactorVariant}
    (h : catalog.KeyedBy FactorVariant.id) (hadd : addVariant knownFactors catalog row = .ok catalog') :
    catalog'.KeyedBy FactorVariant.id := by
  simp only [addVariant, bind_eq_ok, pure_eq_ok] at hadd
  obtain ⟨_, -, _, -, _, -, _, -, _, -, _, -, _, -, _, -, rfl⟩ := hadd
  exact h.set rfl

theorem factorVariants_eq_ok (h : factorVariants rows knownFactors requested = .ok (selected, summary)) :
    ∃ catalog, rows.foldlM (addVariant knownFactors) Dict.empty = .ok catalog ∧ Drawn catalog selected ∧
      summary = summarizeVariants selected := by
  simp only [factorVariants, bind_eq_ok, pure_eq_ok, Prod.mk.injEq] at h
  obtain ⟨_, -, catalog, hcatalog, _, -, rfl, rfl⟩ := h
  refine ⟨catalog, hcatalog, fun variant hvariant => ?_, rfl⟩
  have hkeyed : catalog.KeyedBy FactorVariant.id :=
    foldlM_invariant (fun _ _ _ _ hkeyed hadd => addVariant_keyed hkeyed hadd) (Dict.keyedBy_empty _) hcatalog
  obtain ⟨id, -, hid⟩ := List.mem_filterMap.mp hvariant
  rw [hkeyed id variant hid]
  exact hid

/-- Every matrix has variants of the one catalog, with their counts. -/
structure Resolved (catalog : Dict String FactorVariant) (variants : VariantsByMatrix) : Prop where
  drawn : ∀ matrix selected summary, variants.get? matrix = some (selected, summary) → Drawn catalog selected
  summary : ∀ matrix selected summary, variants.get? matrix = some (selected, summary) →
    summary = summarizeVariants selected

theorem Resolved.set {variants : VariantsByMatrix} (h : Resolved catalog variants) (hdrawn : Drawn catalog selected)
    (matrix : String) : Resolved catalog (variants.set matrix (selected, summarizeVariants selected)) := by
  constructor
  · intro matrix' selected' summary' hget
    rw [Dict.get?_set] at hget
    split at hget
    · obtain ⟨rfl, -⟩ := Prod.mk.inj (Option.some.inj hget)
      exact hdrawn
    · exact h.drawn _ _ _ hget
  · intro matrix' selected' summary' hget
    rw [Dict.get?_set] at hget
    split at hget
    · obtain ⟨rfl, rfl⟩ := Prod.mk.inj (Option.some.inj hget)
      rfl
    · exact h.summary _ _ _ hget

end Drawn

section Matrices

variable {rows : List FactorVariant} {knownFactors planVariants : List String} {matrices : List MatrixVariants}
  {variants variants' : VariantsByMatrix} {catalog : Dict String FactorVariant}
  {plan : List FactorVariant × VariantSummary}

theorem selectVariants_eq_ok {matrix : MatrixVariants}
    (hcatalog : rows.foldlM (addVariant knownFactors) Dict.empty = .ok catalog)
    (hplan : Drawn catalog plan.1 ∧ plan.2 = summarizeVariants plan.1)
    (h : selectVariants rows knownFactors plan variants matrix = .ok variants') :
    ∃ selected, Drawn catalog selected ∧ variants' = variants.set matrix.id (selected, summarizeVariants selected) := by
  obtain ⟨⟨selected, summary⟩, hselected, hset⟩ := bind_eq_ok.mp h
  obtain rfl := pure_eq_ok.mp hset
  cases hoverride : matrix.factorVariants with
  | none =>
    rw [hoverride] at hselected
    obtain rfl := pure_eq_ok.mp hselected
    exact ⟨selected, hplan.1, by rw [← hplan.2]⟩
  | some requested =>
    rw [hoverride] at hselected
    obtain ⟨catalog', hcatalog', hdrawn, rfl⟩ := factorVariants_eq_ok hselected
    obtain rfl := Except.ok.inj (hcatalog.symm.trans hcatalog')
    exact ⟨selected, hdrawn, rfl⟩

theorem foldlM_selectVariants (hcatalog : rows.foldlM (addVariant knownFactors) Dict.empty = .ok catalog)
    (hplan : Drawn catalog plan.1 ∧ plan.2 = summarizeVariants plan.1) (hresolved : Resolved catalog variants)
    (h : matrices.foldlM (selectVariants rows knownFactors plan) variants = .ok variants') :
    Resolved catalog variants' ∧
      ∀ matrix, (variants.get? matrix).isSome ∨ matrix ∈ matrices.map MatrixVariants.id → (variants'.get? matrix).isSome := by
  induction matrices generalizing variants with
  | nil =>
    obtain rfl := pure_eq_ok.mp h
    exact ⟨hresolved, fun matrix hmatrix => hmatrix.resolve_right List.not_mem_nil⟩
  | cons matrix matrices ih =>
    obtain ⟨next, hnext, h⟩ := bind_eq_ok.mp h
    obtain ⟨selected, hdrawn, rfl⟩ := selectVariants_eq_ok hcatalog hplan hnext
    obtain ⟨hlast, hkeys⟩ := ih (hresolved.set hdrawn matrix.id) h
    refine ⟨hlast, fun id hid => hkeys id ?_⟩
    rw [Dict.get?_set]
    by_cases hsame : id = matrix.id
    · simp [hsame]
    · simpa [hsame] using hid

/-- The variants of all matrices come from one catalog. -/
theorem resolveVariants_eq_ok (h : resolveVariants rows knownFactors planVariants matrices = .ok variants) :
    ∃ catalog, Resolved catalog variants ∧ ∀ matrix ∈ matrices.map MatrixVariants.id, (variants.get? matrix).isSome := by
  obtain ⟨⟨selected, summary⟩, hplan, h⟩ := bind_eq_ok.mp h
  obtain ⟨catalog, hcatalog, hdrawn, hsummary⟩ := factorVariants_eq_ok hplan
  have hempty : Resolved catalog Dict.empty := ⟨fun _ _ _ h => (by cases h), fun _ _ _ h => by cases h⟩
  obtain ⟨hresolved, hkeys⟩ := foldlM_selectVariants hcatalog ⟨hdrawn, hsummary⟩ hempty h
  exact ⟨catalog, hresolved, fun matrix hmatrix => hkeys matrix (.inr hmatrix)⟩

end Matrices

section Queue

variable {catalog : Dict String FactorVariant} {variants : VariantsByMatrix} {strategy : Strategy}
  {cells : List FactoredCell} {pairs seen : List (FactoredCell × List FactorVariant)} {profiles : Profiles}

/-- Each cell with each of its combinations. -/
def combined (pairs : List (FactoredCell × List FactorVariant)) : List (FactoredCell × List FactorVariant) :=
  pairs.flatMap fun row => (variantCombinations row.2).map (Prod.mk row.1)

/-- The profiles list the cells that were seen, each with its own variants. -/
structure Profiled (catalog : Dict String FactorVariant) (seen : List (FactoredCell × List FactorVariant))
    (profiles : Profiles) : Prop where
  keyed : profiles.KeyedBy fun profile => profile.1.map FactorVariant.id
  drawn : ∀ key profile, profiles.get? key = some profile → Drawn catalog profile.1
  perm : (profiles.values.flatMap fun profile => profile.2.map fun cell => (cell, profile.1)).Perm seen

theorem Profiled.add (h : Profiled catalog seen profiles) {row : FactoredCell × List FactorVariant}
    (hrow : Drawn catalog row.2) : Profiled catalog (seen ++ [row]) (addProfile profiles row) := by
  obtain ⟨cell, selected⟩ := row
  -- the profile that takes the cell has its variants, known before or not
  obtain ⟨known, hknown, hdefault⟩ : ∃ known, (profiles.get? (selected.map FactorVariant.id)).getD (selected, []) = known ∧
      known.1 = selected := by
    refine ⟨_, rfl, ?_⟩
    cases hget : profiles.get? (selected.map FactorVariant.id) with
    | none => rfl
    | some profile => exact (h.drawn _ _ hget).ext hrow (h.keyed _ _ hget)
  have hadd : addProfile profiles (cell, selected) =
      profiles.set (selected.map FactorVariant.id) (selected, known.2 ++ [cell]) := by
    rw [addProfile, hknown, hdefault]
  rw [hadd]
  refine ⟨h.keyed.set rfl, fun key profile hget => ?_, ?_⟩
  · rw [Dict.get?_set] at hget
    split at hget
    · obtain rfl := Option.some.inj hget
      exact hrow
    · exact h.drawn key profile hget
  · cases hget : profiles.get? (selected.map FactorVariant.id) with
    | none =>
      rw [hget] at hknown
      rw [Dict.values_set_of_none hget, List.flatMap_append, ← hknown]
      exact h.perm.append_right _
    | some profile =>
      rw [hget] at hknown
      obtain rfl : profile = known := hknown
      refine (flatMap_values_set hget ?_).trans (h.perm.append_right [(cell, selected)])
      rw [List.map_append, hdefault]
      rfl

theorem profiled_foldl (h : Profiled catalog seen profiles) (hpairs : ∀ row ∈ pairs, Drawn catalog row.2) :
    Profiled catalog (seen ++ pairs) (pairs.foldl addProfile profiles) := by
  induction pairs generalizing seen profiles with
  | nil =>
    rw [List.append_nil]
    exact h
  | cons row pairs ih =>
    obtain ⟨hrow, hrest⟩ := List.forall_mem_cons.mp hpairs
    have hfold := ih (h.add hrow) hrest
    rwa [List.append_assoc] at hfold

/-- Either strategy queues every cell with every combination of its variants. -/
theorem queuePairs_perm (strategy : Strategy) (hpairs : ∀ row ∈ pairs, Drawn catalog row.2) :
    (queuePairs strategy pairs).Perm (combined pairs) := by
  cases strategy with
  | recipeThenVariant => exact .refl _
  | variantThenRecipe =>
    have hprofiled : Profiled catalog pairs (pairs.foldl addProfile Dict.empty) := by
      have hempty : Profiled catalog [] Dict.empty := ⟨Dict.keyedBy_empty _, fun _ _ h => (by cases h), .refl _⟩
      exact profiled_foldl hempty hpairs
    refine List.Perm.trans ?_ (hprofiled.perm.flatMap_right _)
    rw [List.flatMap_assoc]
    refine List.Perm.flatMap_left _ fun profile _ => ?_
    rw [List.flatMap_map]
    exact flatMap_exchange (fun combination cell => (cell, combination)) (variantCombinations profile.1) profile.2

/-- What a row of the queue says of its cell, besides its position. -/
def rowContent (row : QueueRow) : String × List String × RowState × List String :=
  (row.baseCell, row.factorVariants, row.state, row.blockers)

def pairContent (pair : FactoredCell × List FactorVariant) : String × List String × RowState × List String :=
  rowContent (queueRow 0 pair)

theorem position_mapIdx (pairs : List (FactoredCell × List FactorVariant)) :
    (pairs.mapIdx queueRow).map QueueRow.position = List.range' 1 pairs.length := by
  apply List.ext_getElem
  · simp
  · intro i hi hi'
    simp [queueRow, Nat.add_comm]

theorem content_mapIdx (pairs : List (FactoredCell × List FactorVariant)) :
    (pairs.mapIdx queueRow).map rowContent = pairs.map pairContent := by
  apply List.ext_getElem
  · simp
  · intro i hi hi'
    simp [pairContent, rowContent, queueRow]

/-- A resolved cell with the variants of its matrix. -/
def withVariants (variants : VariantsByMatrix) (cell : FactoredCell) : FactoredCell × List FactorVariant :=
  (cell, ((variants.get? cell.matrix).map Prod.fst).getD [])

/-- Every cell with every combination of its matrix's variants, as the queue reports it. -/
def population (variants : VariantsByMatrix) (cells : List FactoredCell) :
    List (String × List String × RowState × List String) :=
  (combined (cells.map (withVariants variants))).map pairContent

theorem cellVariants_known (hcells : ∀ cell ∈ cells, (variants.get? cell.matrix).isSome) :
    ∃ rows, cells.mapM (cellVariants variants) = .ok rows ∧
      rows.map (fun row => (row.1, row.2.1)) = cells.map (withVariants variants) ∧
      ∀ row ∈ rows, variants.get? row.1.matrix = some row.2 := by
  have hok : ∀ cell ∈ cells, ∃ selected, variants.get? cell.matrix = some selected ∧
      cellVariants variants cell = .ok (cell, selected) := by
    intro cell hcell
    obtain ⟨selected, hselected⟩ := Option.isSome_iff_exists.mp (hcells cell hcell)
    exact ⟨selected, hselected, by rw [cellVariants, hselected]⟩
  obtain ⟨rows, hrows⟩ : ∃ rows, cells.mapM (cellVariants variants) = .ok rows :=
    mapM_total fun cell hcell => by
      obtain ⟨selected, -, hcellVariants⟩ := hok cell hcell
      exact ⟨_, hcellVariants⟩
  refine ⟨rows, hrows, ?_, fun row hrow => ?_⟩
  · refine map_mapM hrows fun cell hcell => ?_
    obtain ⟨selected, hselected, hcellVariants⟩ := hok cell hcell
    exact ⟨_, hcellVariants, by rw [withVariants, hselected]; rfl⟩
  · obtain ⟨cell, hcell, hrow'⟩ := mem_mapM hrows row hrow
    obtain ⟨selected, hselected, hcellVariants⟩ := hok cell hcell
    obtain rfl := Except.ok.inj (hcellVariants.symm.trans hrow')
    exact hselected

theorem countP_states (preview : List QueueRow) : preview.countP (fun row => row.state = .planned) +
    preview.countP (fun row => row.state = .blocked) = preview.length := by
  induction preview with
  | nil => rfl
  | cons row preview ih =>
    rw [List.countP_cons, List.countP_cons, List.length_cons]
    cases hstate : row.state with
    | planned => simp; omega
    | blocked => simp; omega

end Queue

section Strategies

variable {rows : List FactorVariant} {knownFactors planVariants : List String} {matrices : List MatrixVariants}
  {variants : VariantsByMatrix} {cells : List FactoredCell}

end Strategies

namespace Levels

def variant (id factor : String) : FactorVariant := ⟨id, factor, "compiler", id, "registered", "worker.toml"⟩

def catalog : List FactorVariant := [variant "o2" "level", variant "o3" "level", variant "lto" "link"]

def cell (id matrix : String) : FactoredCell := ⟨⟨id, matrix, "zlib@1.3.1", [], "library-local"⟩, "o2", Dict.empty⟩

end Levels

end FidbPoc.Planning
