import FidbPoc.Planning.Resolution

namespace FidbPoc.Planning

open FidbPoc.Lib FidbPoc.Lib.Checked FidbPoc.Lib.Patterns FidbPoc.Width

theorem mem_fromKeys {text : String} {texts : List String} : text ∈ fromKeys texts ↔ text ∈ texts := by
  have h : text ∈ (Leaders.firstBy id texts).map id ↔ text ∈ texts.map id := Leaders.mem_keys_firstBy id
  simpa [fromKeys] using h

theorem nodup_fromKeys (texts : List String) : (fromKeys texts).Nodup := by
  simpa [fromKeys] using Leaders.nodup_firstBy id texts

section Recipes

variable {libraries : List Library} {library : Library} {key : String}

/-- The keys that a recipe may be asked for by. -/
def Library.keys (library : Library) : List String := [library.identifier, library.identity, library.name]

def Keyed (recipes : Dict String Library) : Prop := ∀ key library, recipes.get? key = some library → key ∈ library.keys

theorem Keyed.set {recipes : Dict String Library} (h : Keyed recipes) (hkey : key ∈ library.keys) :
    Keyed (recipes.set key library) := by
  intro key' library' hget
  rw [Dict.get?_set] at hget
  split at hget
  · rename_i he
    cases hget
    exact he ▸ hkey
  · exact h key' library' hget

theorem keyed_addKey {recipes recipes' : Dict String Library} (h : Keyed recipes) (hkey : key ∈ library.keys)
    (hadd : addKey library recipes key = .ok recipes') : Keyed recipes' := by
  simp only [addKey, bind_eq_ok, require_eq_ok, pure_eq_ok] at hadd
  obtain ⟨_, -, rfl⟩ := hadd
  exact h.set hkey

theorem keyed_addRecipe {recipes recipes' : Dict String Library} (h : Keyed recipes)
    (hadd : addRecipe recipes library = .ok recipes') : Keyed recipes' := by
  refine foldlM_invariant (P := Keyed) (fun u v key hkey hu hv => keyed_addKey hu ?_ hv) h hadd
  simp only [List.mem_cons, List.not_mem_nil, or_false] at hkey
  obtain rfl | rfl := hkey
  · simp [Library.keys]
  · simp [Library.keys]

theorem keyed_addFamily {recipes : Dict String Library} (h : Keyed recipes) (name : String) :
    Keyed (addFamily libraries recipes name) := by
  unfold addFamily
  split
  · rename_i library hfamily
    have hname : library ∈ libraries.filter fun library => library.name = name := by simp [hfamily]
    apply h.set
    simp [Library.keys, ← of_decide_eq_true (List.mem_filter.mp hname).2]
  · exact h

theorem keyed_recipeCatalog {catalog : Dict String Library} (h : recipeCatalog libraries = .ok catalog) : Keyed catalog := by
  simp only [recipeCatalog, bind_eq_ok, pure_eq_ok] at h
  obtain ⟨recipes, hrecipes, rfl⟩ := h
  have hempty : Keyed Dict.empty := by
    intro key library hget
    cases hget
  have hkeyed : Keyed recipes := foldlM_invariant (fun _ _ _ _ hu hv => keyed_addRecipe hu hv) hempty hrecipes
  clear hrecipes
  induction fromKeys (libraries.map Library.name) generalizing recipes with
  | nil => exact hkeyed
  | cons name names ih => exact ih _ (keyed_addFamily hkeyed name)

theorem not_mem_of_isPathComponent {text : String} {c : Char} (h : isPathComponent text = true)
    (hc : c.isAlphanum = false ∧ c ∉ ['.', '_', '+', '-']) : c ∉ text.toList := by
  obtain ⟨halpha, hother⟩ := hc
  unfold isPathComponent at h
  split at h
  · cases h
  · rename_i d rest htext
    simp only [Bool.and_eq_true, List.all_eq_true, Bool.or_eq_true, decide_eq_true_eq] at h
    rw [htext]
    intro hmem
    obtain rfl | hmem := List.mem_cons.mp hmem
    · rw [h.1] at halpha
      cases halpha
    · have hd := h.2 c hmem
      simp only [List.mem_cons, List.not_mem_nil, or_false, not_or] at hother
      simp [halpha, hother] at hd

/-- A request with a version names its recipe. -/
theorem identity_of_keys {name version : String} (hkey : recipeIdentity name version ∈ library.keys) :
    library.identity = recipeIdentity name version := by
  have hat : '@' ∈ (recipeIdentity name version).toList := by simp [recipeIdentity]
  have hsafe (text : String) (h : isPathComponent text = true) : '@' ∉ text.toList :=
    not_mem_of_isPathComponent h ⟨by decide, by decide⟩
  simp only [Library.keys, List.mem_cons, List.not_mem_nil, or_false] at hkey
  obtain hkey | hkey | hkey := hkey
  · have hidentifier : '@' ∉ library.identifier.toList := by
      simp [Library.identifier, hsafe _ library.safeName, hsafe _ library.safeVersion]
    exact absurd (hkey ▸ hat) hidentifier
  · exact hkey.symm
  · exact absurd (hkey ▸ hat) (hsafe _ library.safeName)

theorem resolveRequests_eq_ok {requests : List String} {resolved : List Library}
    (h : resolveRequests libraries requests = .ok resolved) :
    (∀ library ∈ resolved, ∃ request ∈ requests, request ∈ library.keys) ∧
      ∀ request ∈ requests, ∃ library ∈ resolved, request ∈ library.keys := by
  simp only [resolveRequests, bind_eq_ok, require_eq_ok, pure_eq_ok] at h
  obtain ⟨_, -, catalog, hcatalog, _, hmissing, _, -, rfl⟩ := h
  have hkeyed := keyed_recipeCatalog hcatalog
  constructor
  · intro library hlibrary
    obtain ⟨request, hrequest, hget⟩ := List.mem_filterMap.mp hlibrary
    exact ⟨request, hrequest, hkeyed _ _ hget⟩
  · intro request hrequest
    have hfound := List.filter_eq_nil_iff.mp hmissing request hrequest
    cases hget : catalog.get? request with
    | none => simp [hget] at hfound
    | some library => exact ⟨library, List.mem_filterMap.mpr ⟨request, hrequest, hget⟩, hkeyed _ _ hget⟩

end Recipes

section Cells

variable {files : PlanFiles} {host : Host} {matrix : Matrix} {batch : WidthBatch} {cells : List Cell}

theorem filterMap_ne_nil {α β : Type} {f : α → Option β} {xs : List α} (hxs : xs ≠ [])
    (hf : (xs.filter fun x => (f x).isNone) = []) : xs.filterMap f ≠ [] := by
  obtain ⟨x, hx⟩ := List.exists_mem_of_ne_nil xs hxs
  have hsome := List.filter_eq_nil_iff.mp hf x hx
  cases hfx : f x with
  | none => simp [hfx] at hsome
  | some y => exact List.ne_nil_of_mem (List.mem_filterMap.mpr ⟨x, hx, hfx⟩)

theorem selectConfiguration_ne_nil {configuration selected : Configuration} {routeIds treatmentIds : List String}
    (h : selectConfiguration configuration routeIds treatmentIds = .ok selected) (hroutes : routeIds ≠ [])
    (htreatments : treatmentIds ≠ []) : selected.routes ≠ [] ∧ selected.treatments ≠ [] := by
  simp only [selectConfiguration, bind_eq_ok, require_eq_ok, pure_eq_ok] at h
  obtain ⟨_, hmissing, _, hmissing', rfl⟩ := h
  exact ⟨filterMap_ne_nil hroutes hmissing, filterMap_ne_nil htreatments hmissing'⟩

theorem mem_nativeCells {libraries : List Library} {configuration : Configuration} {cell : Cell} :
    cell ∈ nativeCellsFromConfiguration matrix libraries configuration ↔
      ∃ library ∈ libraries, ∃ route ∈ configuration.routes, ∃ treatment ∈ configuration.treatments,
        nativeCell matrix library route treatment = cell := by
  simp only [nativeCellsFromConfiguration, List.mem_flatMap, List.mem_map]

/-- What the cells of a matrix of one recipe have in common. -/
structure CellsOf (matrix : Matrix) (recipe : String) (cells : List Cell) : Prop where
  ne_nil : cells ≠ []
  placed : ∀ cell ∈ cells, cell.matrix = matrix.id
  named : ∀ cell ∈ cells, ∃ rest, cell.id = matrix.id ++ ":" ++ rest
  recipe : ∀ cell ∈ cells, cell.recipe = recipe

theorem widthNativeCells_spec {name version : String} (hrecipes : matrix.recipes = [recipeIdentity name version])
    (hroutes : matrix.routes ≠ []) (htreatments : matrix.treatments ≠ [])
    (h : widthNativeCells files host matrix batch = .ok cells) : CellsOf matrix (recipeIdentity name version) cells := by
  simp only [widthNativeCells, bind_eq_ok, require_eq_ok, pure_eq_ok] at h
  obtain ⟨_, -, _, -, _, -, _, -, _, -, _, -, _, -, libraries, hlibraries, selected, hselected, _, -, _, -, rfl⟩ := h
  obtain ⟨hkeys, hresolved⟩ := resolveRequests_eq_ok hlibraries
  obtain ⟨hselectedRoutes, hselectedTreatments⟩ := selectConfiguration_ne_nil hselected hroutes htreatments
  rw [hrecipes] at hkeys hresolved
  refine ⟨?_, ?_, ?_, ?_⟩
  · obtain ⟨library, hlibrary, -⟩ := hresolved _ List.mem_cons_self
    obtain ⟨route, hroute⟩ := List.exists_mem_of_ne_nil _ hselectedRoutes
    obtain ⟨treatment, htreatment⟩ := List.exists_mem_of_ne_nil _ hselectedTreatments
    exact List.ne_nil_of_mem (mem_nativeCells.mpr ⟨library, hlibrary, route, hroute, treatment, htreatment, rfl⟩)
  · intro cell hcell
    obtain ⟨library, -, route, -, treatment, -, rfl⟩ := mem_nativeCells.mp hcell
    rfl
  · intro cell hcell
    obtain ⟨library, -, route, -, treatment, -, rfl⟩ := mem_nativeCells.mp hcell
    refine ⟨library.identifier ++ ":" ++ route.id ++ ":" ++ treatment.id, ?_⟩
    simp only [nativeCell, String.append_assoc]
  · intro cell hcell
    obtain ⟨library, hlibrary, route, -, treatment, -, rfl⟩ := mem_nativeCells.mp hcell
    obtain ⟨request, hrequest, hkey⟩ := hkeys library hlibrary
    rw [List.mem_singleton] at hrequest
    exact identity_of_keys (hrequest ▸ hkey)

end Cells

section Request

variable {document request : Document}

theorem mapM_checks {α : Type} {f : α → Result Unit} {xs : List α} :
    (∃ us, xs.mapM f = .ok us) ↔ ∀ x ∈ xs, f x = .ok () := by
  constructor
  · rintro ⟨us, hus⟩ x hx
    obtain ⟨u, -, hu⟩ := mapM_mem hus x hx
    exact hu
  · intro h
    exact mapM_total fun x hx => ⟨(), h x hx⟩

/-- A matrix that a plan may list. -/
structure Listable (row : Matrix) : Prop where
  id : token row.id "matrix id" = .ok ()
  recipes : tokens row.recipes s!"matrix {row.id} recipes" = .ok ()
  routes : tokens row.routes s!"matrix {row.id} routes" = .ok ()
  treatments : tokens row.treatments s!"matrix {row.id} treatments" = .ok ()
  widthBatch : token row.widthBatch s!"matrix {row.id} width_batch" = .ok ()

theorem loadMatrix_eq_ok {seen seen' : List String} {row : Matrix} :
    loadMatrix seen row = .ok seen' ↔ Listable row ∧ row.id ∉ seen ∧ seen' = seen ++ [row.id] := by
  simp only [loadMatrix, bind_eq_ok, require_eq_ok, pure_eq_ok]
  constructor
  · rintro ⟨_, hid, _, hseen, _, hrecipes, _, hroutes, _, htreatments, _, hbatch, rfl⟩
    exact ⟨⟨hid, hrecipes, hroutes, htreatments, hbatch⟩, hseen, rfl⟩
  · rintro ⟨⟨hid, hrecipes, hroutes, htreatments, hbatch⟩, hseen, rfl⟩
    exact ⟨(), hid, (), hseen, (), hrecipes, (), hroutes, (), htreatments, (), hbatch, rfl⟩

theorem foldlM_loadMatrix {seen seen' : List String} {rows : List Matrix} :
    rows.foldlM loadMatrix seen = .ok seen' ↔
      (∀ row ∈ rows, Listable row ∧ row.id ∉ seen) ∧ (rows.map Matrix.id).Nodup ∧ seen' = seen ++ rows.map Matrix.id := by
  induction rows generalizing seen with
  | nil =>
    rw [List.foldlM_nil, pure_eq_ok]
    simp [eq_comm]
  | cons row rows ih =>
    simp only [List.foldlM_cons, bind_eq_ok, loadMatrix_eq_ok]
    constructor
    · rintro ⟨_, ⟨hlistable, hid, rfl⟩, hrest⟩
      obtain ⟨hrows, hnodup, rfl⟩ := ih.mp hrest
      refine ⟨List.forall_mem_cons.mpr ⟨⟨hlistable, hid⟩, fun row' hrow' => ⟨(hrows row' hrow').1, ?_⟩⟩, ?_, by simp⟩
      · intro hmem
        exact (hrows row' hrow').2 (List.mem_append_left _ hmem)
      · rw [List.map_cons, List.nodup_cons]
        refine ⟨fun hmem => ?_, hnodup⟩
        obtain ⟨row', hrow', he⟩ := List.mem_map.mp hmem
        exact (hrows row' hrow').2 (by simp [he])
    · rintro ⟨hrows, hnodup, rfl⟩
      obtain ⟨⟨hlistable, hid⟩, hrows⟩ := List.forall_mem_cons.mp hrows
      rw [List.map_cons, List.nodup_cons] at hnodup
      refine ⟨_, ⟨hlistable, hid, rfl⟩, ih.mpr ⟨fun row' hrow' => ⟨(hrows row' hrow').1, ?_⟩, hnodup.2, by simp⟩⟩
      rw [List.mem_append, List.mem_singleton]
      rintro (hmem | he)
      · exact (hrows row' hrow').2 hmem
      · exact hnodup.1 (List.mem_map.mpr ⟨row', hrow', he⟩)

/-- A plan with an order of its recipes that can be loaded. -/
structure Loadable (document : Document) : Prop where
  name : token document.name "plan name" = .ok ()
  maxCells : 1 ≤ document.maxCells
  recipes : ∀ recipe ∈ document.recipeOrder, token recipe "plan queue recipe_order" = .ok ()
  recipes_nodup : document.recipeOrder.Nodup
  gates : ∀ gate ∈ document.gates, loadGate gate = .ok ()
  gates_nodup : (document.gates.map Gate.batchId).Nodup
  matrices_ne_nil : document.matrices ≠ []
  matrices : ∀ row ∈ document.matrices, Listable row
  matrices_nodup : (document.matrices.map Matrix.id).Nodup

theorem loadPlanRequest_eq_ok (horder : ∀ recipe, recipe ∈ document.recipeOrder ↔ recipe ∈ document.matrices.flatMap Matrix.recipes)
    (hne : document.recipeOrder ≠ []) :
    loadPlanRequest document = .ok request ↔ Loadable document ∧ request = document := by
  simp only [loadPlanRequest, bind_eq_ok, require_eq_ok, pure_eq_ok, foldlM_loadMatrix, if_neg hne]
  constructor
  · rintro ⟨_, hname, _, hmax, _, hrecipes, _, hnodup, _, hgates, _, hgatesNodup, _, hmatrices, _, ⟨hrows, hrowsNodup, -⟩, _, -, rfl⟩
    exact ⟨⟨hname, hmax, mapM_checks.mp ⟨_, hrecipes⟩, hnodup, mapM_checks.mp ⟨_, hgates⟩, hgatesNodup, hmatrices,
      fun row hrow => (hrows row hrow).1, hrowsNodup⟩, rfl⟩
  · rintro ⟨h, rfl⟩
    obtain ⟨us, hus⟩ := mapM_checks.mpr h.recipes
    obtain ⟨vs, hvs⟩ := mapM_checks.mpr h.gates
    exact ⟨(), h.name, (), h.maxCells, us, hus, (), h.recipes_nodup, vs, hvs, (), h.gates_nodup, (), h.matrices_ne_nil, _,
      ⟨fun row hrow => ⟨h.matrices row hrow, by simp⟩, h.matrices_nodup, rfl⟩, (),
      .inr ⟨fun recipe hrecipe => (horder recipe).mp hrecipe, fun recipe hrecipe => (horder recipe).mpr hrecipe⟩, rfl⟩

theorem tokens_ne_nil {values : List String} {context : String} (h : tokens values context = .ok ()) : values ≠ [] := by
  simp only [tokens, bind_eq_ok, require_eq_ok] at h
  exact h.choose_spec.1

end Request

end FidbPoc.Planning
