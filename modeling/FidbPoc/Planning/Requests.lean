import FidbPoc.Planning.Loading

namespace FidbPoc.Planning

open FidbPoc.Lib FidbPoc.Lib.Checked

section Catalog

variable {libraries : List Library} {library : Library} {key : String} {recipes recipes' : Dict String Library}

/-- The two keys that name a recipe with its version. -/
def Library.exactKeys (library : Library) : List String := [library.identifier, library.identity]

/-- What is known after some recipes: each under its exact keys, and nothing else. -/
def Exact (libraries : List Library) (recipes : Dict String Library) : Prop :=
  ∀ key library, recipes.get? key = some library ↔ library ∈ libraries ∧ key ∈ library.exactKeys

theorem addKey_eq_ok (h : addKey library recipes key = .ok recipes') :
    recipes.get? key = none ∧ recipes' = recipes.set key library := by
  simp only [addKey, bind_eq_ok, require_eq_ok, pure_eq_ok, Option.isNone_iff_eq_none, exists_const] at h
  exact ⟨h.1, h.2.symm⟩

theorem addRecipe_eq_ok (h : addRecipe recipes library = .ok recipes') :
    recipes.get? library.identifier = none ∧ recipes.get? library.identity = none ∧
      recipes' = (recipes.set library.identifier library).set library.identity library := by
  simp only [addRecipe, List.foldlM_cons, List.foldlM_nil, bind_eq_ok, pure_eq_ok] at h
  obtain ⟨first, hfirst, _, hsecond, rfl⟩ := h
  obtain ⟨hidentifier, rfl⟩ := addKey_eq_ok hfirst
  obtain ⟨hidentity, rfl⟩ := addKey_eq_ok hsecond
  rw [Dict.get?_set] at hidentity
  split at hidentity
  · cases hidentity
  · exact ⟨hidentifier, hidentity, rfl⟩

theorem exact_addRecipe (h : Exact libraries recipes) (hadd : addRecipe recipes library = .ok recipes') :
    Exact (libraries ++ [library]) recipes' := by
  obtain ⟨hidentifier, hidentity, rfl⟩ := addRecipe_eq_ok hadd
  have hfree : ∀ other ∈ libraries, ∀ key ∈ library.exactKeys, key ∉ other.exactKeys := by
    intro other hother key hkey hkey'
    have hknown := (h key other).mpr ⟨hother, hkey'⟩
    simp only [Library.exactKeys, List.mem_cons, List.not_mem_nil, or_false] at hkey
    rcases hkey with rfl | rfl
    · rw [hidentifier] at hknown
      cases hknown
    · rw [hidentity] at hknown
      cases hknown
  intro key other
  have hset : ((recipes.set library.identifier library).set library.identity library).get? key =
      if key ∈ library.exactKeys then some library else recipes.get? key := by
    simp only [Dict.get?_set, Library.exactKeys, List.mem_cons, List.not_mem_nil, or_false]
    by_cases hidentity' : key = library.identity
    · simp [hidentity']
    · simp [hidentity']
  rw [hset, List.mem_append, List.mem_singleton]
  by_cases hkey : key ∈ library.exactKeys
  · simp only [hkey, if_true, Option.some.injEq]
    constructor
    · rintro rfl
      exact ⟨.inr rfl, hkey⟩
    · rintro ⟨hother | rfl, hkey'⟩
      · exact absurd hkey' (hfree other hother key hkey)
      · rfl
  · rw [if_neg hkey, h key other]
    refine and_congr_left fun hkey' => (or_iff_left ?_).symm
    rintro rfl
    exact hkey hkey'

theorem exact_foldlM {known : List Library} (h : Exact known recipes)
    (hadd : libraries.foldlM addRecipe recipes = .ok recipes') : Exact (known ++ libraries) recipes' := by
  induction libraries generalizing known recipes with
  | nil =>
    rw [List.foldlM_nil, pure_eq_ok] at hadd
    rw [← hadd, List.append_nil]
    exact h
  | cons library libraries ih =>
    rw [List.foldlM_cons] at hadd
    obtain ⟨next, hnext, hadd⟩ := bind_eq_ok.mp hadd
    have hrest := ih (exact_addRecipe h hnext) hadd
    rwa [List.append_assoc, List.singleton_append] at hrest

/-- The only recipe of a family. -/
def only (libraries : List Library) (name : String) : Option Library :=
  match libraries.filter fun library => library.name = name with
  | [library] => some library
  | _ => none

theorem only_eq_some {name : String} :
    only libraries name = some library ↔ (libraries.filter fun library => library.name = name) = [library] := by
  unfold only
  split
  · rename_i other hfamily
    rw [hfamily, Option.some.injEq, List.singleton_inj]
  · rename_i hfamily
    simp only [reduceCtorEq, false_iff]
    exact fun he => hfamily library he

theorem addFamily_eq (name : String) :
    addFamily libraries recipes name = (only libraries name).elim recipes (recipes.set name) := by
  unfold addFamily only
  cases libraries.filter fun library => library.name = name with
  | nil => rfl
  | cons library rest => cases rest <;> rfl

/-- A family with one version takes its name as a key, whatever stood there. -/
theorem get?_foldl_addFamily (names : List String) :
    (names.foldl (addFamily libraries) recipes).get? key =
      (if key ∈ names then only libraries key else none).or (recipes.get? key) := by
  induction names generalizing recipes with
  | nil => simp
  | cons name names ih =>
    rw [List.foldl_cons, ih, addFamily_eq]
    by_cases hname : key = name
    · subst hname
      cases honly : only libraries key with
      | none => simp
      | some library => by_cases hlater : key ∈ names <;> simp [hlater]
    · cases honly : only libraries name with
      | none => simp [hname]
      | some library => simp [hname, Dict.get?_set]

theorem get?_recipeCatalog {catalog : Dict String Library} (h : recipeCatalog libraries = .ok catalog) :
    ∃ recipes, Exact libraries recipes ∧ ∀ key, catalog.get? key = (only libraries key).or (recipes.get? key) := by
  simp only [recipeCatalog, bind_eq_ok, pure_eq_ok] at h
  obtain ⟨recipes, hrecipes, rfl⟩ := h
  have hempty : Exact [] Dict.empty := by
    intro key library
    simp
  refine ⟨recipes, exact_foldlM hempty hrecipes, fun key => ?_⟩
  rw [get?_foldl_addFamily]
  by_cases hkey : key ∈ fromKeys (libraries.map Library.name)
  · rw [if_pos hkey]
  · have hnone : only libraries key = none := by
      have hfamily : (libraries.filter fun library => library.name = key) = [] := by
        refine List.filter_eq_nil_iff.mpr fun library hlibrary hname => hkey ?_
        exact mem_fromKeys.mpr (List.mem_map.mpr ⟨library, hlibrary, of_decide_eq_true hname⟩)
      unfold only
      rw [hfamily]
    rw [if_neg hkey, hnone]

end Catalog

section Requests

variable {libraries : List Library}

/-- A request that stands for one recipe of the directory. -/
def Resolves (libraries : List Library) (request : String) (library : Library) : Prop :=
  resolveRequests libraries [request] = .ok [library]

theorem resolves_iff {catalog : Dict String Library} (h : recipeCatalog libraries = .ok catalog) {request : String}
    {library : Library} : Resolves libraries request library ↔ catalog.get? request = some library := by
  unfold Resolves resolveRequests
  simp only [bind_eq_ok, require_eq_ok, pure_eq_ok, h, Except.ok.injEq, exists_eq_left', ne_eq, List.cons_ne_nil,
    not_false_eq_true, exists_const, true_and]
  cases hget : catalog.get? request with
  | none => simp [hget]
  | some other => simp [hget]

/-- A name is shorter than the identifier that it begins. -/
theorem identifier_ne_name (library : Library) : library.identifier ≠ library.name := by
  intro h
  have hlength := congrArg (fun text : String => text.toList.length) h
  simp [Library.identifier] at hlength

theorem identity_ne_name (library other : Library) : other.name ≠ library.identity := by
  intro h
  have hat : '@' ∈ library.identity.toList := by simp [Library.identity, recipeIdentity]
  exact not_mem_of_isPathComponent other.safeName ⟨by decide, by decide⟩ (h ▸ hat)

/-- Every recipe answers to its exact keys, and a family name alone stands for its only version, exactly when no
family is named as the identifier of a recipe reads. -/
theorem requests_unshadowed_iff {catalog : Dict String Library} (h : recipeCatalog libraries = .ok catalog) :
    ((∀ library ∈ libraries, Resolves libraries library.identifier library ∧ Resolves libraries library.identity library) ∧
      ∀ family ∈ libraries, ∀ library, Resolves libraries family.name library →
        (libraries.filter fun other => other.name = family.name) = [library]) ↔
    ∀ family ∈ libraries, ∀ library ∈ libraries, family.name ≠ library.identifier := by
  obtain ⟨recipes, hexact, hget⟩ := get?_recipeCatalog h
  have hknown : ∀ library ∈ libraries, ∀ key ∈ library.exactKeys, recipes.get? key = some library :=
    fun library hlibrary key hkey => (hexact key library).mpr ⟨hlibrary, hkey⟩
  simp only [resolves_iff h, hget]
  constructor
  · rintro ⟨hexactly, hfamily⟩ family hfamily' library hlibrary hname
    -- the identifier resolves to its recipe, which then would be the only version of the family
    have hresolved := (hexactly library hlibrary).1
    rw [← hname] at hresolved
    have honly := hfamily family hfamily' library hresolved
    have hmem : library ∈ libraries.filter fun other => other.name = family.name := by simp [honly]
    exact identifier_ne_name library (hname.symm.trans (of_decide_eq_true (List.mem_filter.mp hmem).2).symm)
  · intro hapart
    have hnone : ∀ library ∈ libraries, ∀ key ∈ library.exactKeys, only libraries key = none := by
      intro library hlibrary key hkey
      rw [Option.eq_none_iff_forall_ne_some]
      intro other honly
      have hmem : other ∈ libraries.filter fun library => library.name = key := by simp [only_eq_some.mp honly]
      obtain ⟨hother, hname⟩ := List.mem_filter.mp hmem
      simp only [Library.exactKeys, List.mem_cons, List.not_mem_nil, or_false] at hkey
      rcases hkey with rfl | rfl
      · exact hapart other hother library hlibrary (of_decide_eq_true hname)
      · exact identity_ne_name library other (of_decide_eq_true hname)
    refine ⟨fun library hlibrary => ⟨?_, ?_⟩, fun family hfamily library hresolved => ?_⟩
    · have hkey : library.identifier ∈ library.exactKeys := by simp [Library.exactKeys]
      rw [hnone library hlibrary _ hkey, hknown library hlibrary _ hkey]
      rfl
    · have hkey : library.identity ∈ library.exactKeys := by simp [Library.exactKeys]
      rw [hnone library hlibrary _ hkey, hknown library hlibrary _ hkey]
      rfl
    · rcases Option.or_eq_some_iff.mp hresolved with honly | ⟨-, hother⟩
      · exact only_eq_some.mp honly
      · -- the name of the family would be an exact key
        obtain ⟨hlibrary, hkey⟩ := (hexact _ library).mp hother
        simp only [Library.exactKeys, List.mem_cons, List.not_mem_nil, or_false] at hkey
        rcases hkey with hkey | hkey
        · exact absurd hkey (hapart family hfamily library hlibrary)
        · exact absurd hkey (identity_ne_name library family)

end Requests

namespace Directory

/-- A recipe for every route. -/
def recipe (name version : String) (safeName : isPathComponent name = true)
    (safeVersion : isPathComponent version = true) : Library :=
  ⟨name, version, [], [], [], [], safeName, safeVersion⟩

def zlib2 : Library := recipe "zlib" "1.2" (by decide) (by decide)
def zlib3 : Library := recipe "zlib" "1.3" (by decide) (by decide)
def musl : Library := recipe "musl" "1.2" (by decide) (by decide)

/-- Two versions of one family beside another. -/
theorem versions_resolve :
    Resolves [zlib2, zlib3, musl] "zlib-1.2" zlib2 ∧ Resolves [zlib2, zlib3, musl] "zlib@1.2" zlib2 :=
  ((@requests_unshadowed_iff [zlib2, zlib3, musl] _ rfl).mpr (by decide)).1 zlib2 List.mem_cons_self

/-- A family whose name ends in a version of another. -/
def luajit : Library := recipe "lua-5" "2.1" (by decide) (by decide)
def lua : Library := recipe "lua" "5" (by decide) (by decide)

/-- The directory is accepted, and the identifier of the one recipe resolves to the other. -/
theorem family_shadows_identifier : (∃ catalog, recipeCatalog [luajit, lua] = .ok catalog) ∧
    lua.identifier = "lua-5" ∧ Resolves [luajit, lua] lua.identifier luajit ∧
    ¬ Resolves [luajit, lua] lua.identifier lua := by
  have hresolved : Resolves [luajit, lua] lua.identifier luajit := (@resolves_iff [luajit, lua] _ rfl _ _).mpr rfl
  refine ⟨⟨_, rfl⟩, by decide, hresolved, fun h => ?_⟩
  have hsame : [luajit] = [lua] := Except.ok.inj (hresolved.symm.trans h)
  exact absurd (congrArg (List.map Library.name) hsame) (by decide)

end Directory

end FidbPoc.Planning
