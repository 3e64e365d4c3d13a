import FidbPoc.Planning.Chunks
import FidbPoc.Planning.Loading

namespace FidbPoc.Planning

open FidbPoc.Lib FidbPoc.Lib.Checked FidbPoc.Lib.Patterns FidbPoc.Lib.Python FidbPoc.Width

theorem fromKeys_concat (texts : List String) (text : String) :
    fromKeys (texts ++ [text]) = if text ∈ texts then fromKeys texts else fromKeys texts ++ [text] := by
  have hany : (fromKeys texts).any (fun held => id held = id text) = true ↔ text ∈ texts := by
    simp [mem_fromKeys]
  have hconcat : fromKeys (texts ++ [text]) = Leaders.keepFirst id (fromKeys texts) text := Leaders.firstBy_concat ..
  rw [hconcat, Leaders.keepFirst]
  by_cases h : text ∈ texts
  · rw [if_pos h, if_pos (hany.mpr h)]
  · rw [if_neg h, if_neg fun hm => h (hany.mp hm)]

section Groups

variable {H : Type}

/-- The key of the group that a bundle joins. -/
def Bundle.groupKey (bundle : Bundle H) : String × String × List String :=
  (bundle.batchAuthority, bundle.recipeId, bundle.treatmentIds)

def Group.key (group : Group) : String × String × List String := (group.batchAuthority, group.recipeId, group.treatmentIds)

/-- The group that a bundle opens, and the one that it joins. -/
def Bundle.group (bundle : Bundle H) : Group :=
  ⟨bundle.batchAuthority, bundle.recipeId, bundle.treatmentIds, [bundle.routeId]⟩

def Group.join (group : Group) (bundle : Bundle H) : Group := { group with routeIds := group.routeIds ++ [bundle.routeId] }

variable {bundles : List (Bundle H)} {bundle : Bundle H} {grouped : Dict (String × String × List String) Group} {group : Group}

theorem addToGroup_of_none (h : grouped.get? bundle.groupKey = none) :
    addToGroup grouped bundle = grouped.set bundle.groupKey bundle.group := by
  unfold addToGroup
  simp only [Bundle.groupKey] at h
  simp only [h]
  rfl

theorem addToGroup_of_some (h : grouped.get? bundle.groupKey = some group) :
    addToGroup grouped bundle = grouped.set bundle.groupKey (group.join bundle) := by
  unfold addToGroup
  simp only [Bundle.groupKey] at h
  simp only [h]
  rfl

/-- The groups of the bundles so far, each under its key. -/
structure Grouped (bundles : List (Bundle H)) (grouped : Dict (String × String × List String) Group) : Prop where
  keyed : Dict.KeyedBy Group.key grouped
  recipes : fromKeys (grouped.values.map Group.recipeId) = fromKeys (bundles.map Bundle.recipeId)

theorem Grouped.mem_recipes (h : Grouped bundles grouped) {recipe : String} :
    recipe ∈ grouped.values.map Group.recipeId ↔ recipe ∈ bundles.map Bundle.recipeId := by
  rw [← mem_fromKeys, h.recipes, mem_fromKeys]

theorem Grouped.concat (h : Grouped bundles grouped) (bundle : Bundle H) :
    Grouped (bundles ++ [bundle]) (addToGroup grouped bundle) := by
  cases hget : grouped.get? bundle.groupKey with
  | none =>
    rw [addToGroup_of_none hget]
    refine ⟨h.keyed.set rfl, ?_⟩
    have hrecipe : bundle.group.recipeId = bundle.recipeId := rfl
    rw [Dict.values_set_of_none hget, List.map_append, List.map_append, List.map_singleton, List.map_singleton,
      fromKeys_concat, fromKeys_concat, h.recipes, hrecipe]
    simp only [h.mem_recipes]
  | some group =>
    have hkey : group.key = bundle.groupKey := h.keyed _ _ hget
    have hrecipe : group.recipeId = bundle.recipeId := congrArg (fun key => key.2.1) hkey
    have hlisted : bundle.recipeId ∈ bundles.map Bundle.recipeId := by
      rw [← h.mem_recipes, ← hrecipe]
      exact List.mem_map_of_mem (Dict.mem_values.mpr ⟨_, hget⟩)
    have hvalues : (grouped.set bundle.groupKey (group.join bundle)).values.map Group.recipeId = grouped.values.map Group.recipeId :=
      Dict.map_values_set Group.recipeId hget rfl
    rw [addToGroup_of_some hget]
    refine ⟨h.keyed.set hkey, ?_⟩
    rw [hvalues, List.map_append, List.map_singleton, fromKeys_concat, if_pos hlisted,
      h.recipes]

theorem grouped_matrixGroups (bundles : List (Bundle H)) : Grouped bundles (bundles.foldl addToGroup Dict.empty) := by
  induction bundles using List.reverseRecOn with
  | nil => exact ⟨Dict.keyedBy_empty _, rfl⟩
  | append_singleton bundles bundle ih =>
    rw [List.foldl_concat]
    exact ih.concat bundle

/-- The groups list the recipes in the order in which the bundles do. -/
theorem fromKeys_matrixGroups (bundles : List (Bundle H)) :
    fromKeys ((matrixGroups bundles).map Group.recipeId) = fromKeys (bundles.map Bundle.recipeId) :=
  (grouped_matrixGroups bundles).recipes

theorem mem_matrixGroups (h : group ∈ matrixGroups bundles) :
    ∃ bundle ∈ bundles, bundle.recipeId = group.recipeId :=
  List.mem_map.mp ((grouped_matrixGroups bundles).mem_recipes.mp (List.mem_map_of_mem h))

theorem matrixGroups_ne_nil (h : bundles ≠ []) : matrixGroups bundles ≠ [] := by
  intro hnil
  have hkeys := fromKeys_matrixGroups bundles
  rw [hnil] at hkeys
  obtain ⟨bundle, hbundle⟩ := List.exists_mem_of_ne_nil _ h
  have hmem : bundle.recipeId ∈ fromKeys (bundles.map Bundle.recipeId) := mem_fromKeys.mpr (List.mem_map_of_mem hbundle)
  rw [← hkeys] at hmem
  cases mem_fromKeys.mp hmem

end Groups

section Packing

variable {H : Type} {durations : Durations H} {packing packing' : Packing H} {bundle : Bundle H} {bundles : List (Bundle H)}
  {packed : List (List (Bundle H))}

/-- No packed chunk is empty, and the chunks are made of the bundles so far. -/
structure Packed (bundles : List (Bundle H)) (packing : Packing H) : Prop where
  ne_nil : ∀ chunk ∈ packing.chunks, chunk ≠ []
  bundles : packing.chunks.flatten ++ packing.current = bundles

theorem Packed.close (h : Packed bundles packing) (hcurrent : packing.current ≠ []) :
    Packed bundles (packing.close durations) := by
  refine ⟨?_, ?_⟩
  · intro chunk hchunk
    obtain hchunk | hchunk := List.mem_append.mp hchunk
    · exact h.ne_nil chunk hchunk
    · rwa [List.mem_singleton.mp hchunk]
  · simpa [Packing.close] using h.bundles

theorem Packed.concat (h : Packed bundles packing) (hpack : packBundle durations packing bundle = .ok packing') :
    Packed (bundles ++ [bundle]) packing' := by
  simp only [packBundle, bind_eq_ok, require_eq_ok, pure_eq_ok] at hpack
  obtain ⟨_, -, rfl⟩ := hpack
  have hadd (packing : Packing H) (total : H) (h : Packed bundles packing) :
      Packed (bundles ++ [bundle]) { packing with current := packing.current ++ [bundle], total := total } :=
    ⟨h.ne_nil, by rw [← h.bundles, List.append_assoc]⟩
  have hroom : Packed bundles (if packing.current ≠ [] ∧ durations.exceeds (durations.add packing.total bundle.estimatedHours) = true then
      packing.close durations else packing) := by
    split
    · rename_i hcurrent
      exact h.close hcurrent.1
    · exact h
  generalize (if packing.current ≠ [] ∧ durations.exceeds (durations.add packing.total bundle.estimatedHours) = true then
    packing.close durations else packing) = opened at hroom ⊢
  split
  · apply Packed.close (hadd _ _ hroom)
    simp
  · exact hadd _ _ hroom

theorem packed_of_foldlM (h : bundles.foldlM (packBundle durations) ⟨[], [], durations.zero⟩ = .ok packing) :
    Packed bundles packing := by
  induction bundles using List.reverseRecOn generalizing packing with
  | nil =>
    obtain rfl := Except.ok.inj h
    exact ⟨by simp, rfl⟩
  | append_singleton bundles bundle ih =>
    rw [List.foldlM_append, bind_eq_ok] at h
    obtain ⟨before, hbefore, h⟩ := h
    rw [List.foldlM_cons, bind_eq_ok] at h
    obtain ⟨after, hafter, h⟩ := h
    obtain rfl := Except.ok.inj h
    exact (ih hbefore).concat hafter

/-- The packed chunks are the bundles in their order, and none of them is empty. -/
theorem packRouteBundles_spec (h : packRouteBundles durations bundles = .ok packed) :
    (∀ chunk ∈ packed, chunk ≠ []) ∧ packed.flatten = bundles := by
  simp only [packRouteBundles, bind_eq_ok, pure_eq_ok] at h
  obtain ⟨packing, hpacking, rfl⟩ := h
  have hpacked := packed_of_foldlM hpacking
  split
  · rename_i hcurrent
    have hclosed : Packed bundles (packing.close durations) := hpacked.close hcurrent
    refine ⟨hclosed.ne_nil, ?_⟩
    simpa [Packing.close] using hclosed.bundles
  · rename_i hcurrent
    refine ⟨hpacked.ne_nil, ?_⟩
    simpa [not_not.mp hcurrent] using hpacked.bundles

end Packing

end FidbPoc.Planning
