import FidbPoc.Lib.Table

namespace FidbPoc.Lib

/-- A dictionary that lists its keys in the order of their first assignment. -/
structure Dict (κ ν : Type) where
  entries : List (κ × ν)
  nodup : (entries.map Prod.fst).Nodup

namespace Dict

variable {κ ν : Type} [DecidableEq κ]

/-- Overwrite the value of a listed key in place, or list the key last. -/
def assign (k : κ) (v : ν) : List (κ × ν) → List (κ × ν)
  | [] => [(k, v)]
  | e :: rest => if e.1 = k then (k, v) :: rest else e :: assign k v rest

theorem keys_assign (k : κ) (v : ν) (entries : List (κ × ν)) :
    (assign k v entries).map Prod.fst =
      if k ∈ entries.map Prod.fst then entries.map Prod.fst else entries.map Prod.fst ++ [k] := by
  induction entries with
  | nil => simp [assign]
  | cons e rest ih =>
    by_cases he : e.1 = k
    · simp [assign, he]
    · have hk : ¬k = e.1 := fun h => he h.symm
      by_cases hm : k ∈ rest.map Prod.fst
      · simp [assign, he, ih, hm]
      · simp [assign, he, hk, ih, hm]

theorem assign_of_not_mem {k : κ} {v : ν} {entries : List (κ × ν)} (h : k ∉ entries.map Prod.fst) :
    assign k v entries = entries ++ [(k, v)] := by
  induction entries with
  | nil => rfl
  | cons e rest ih =>
    rw [List.map_cons, List.mem_cons, not_or] at h
    simp [assign, Ne.symm h.1, ih h.2]

theorem nodup_assign (k : κ) (v : ν) {entries : List (κ × ν)} (h : (entries.map Prod.fst).Nodup) :
    ((assign k v entries).map Prod.fst).Nodup := by
  rw [keys_assign]
  split
  · exact h
  · rename_i hk
    exact List.nodup_append.mpr ⟨h, List.nodup_singleton k, fun a ha b hb hab => by
      obtain rfl := List.mem_singleton.mp hb
      exact hk (hab ▸ ha)⟩

def empty : Dict κ ν := ⟨[], List.nodup_nil⟩

def get? (d : Dict κ ν) (k : κ) : Option ν := (d.entries.find? (fun e => e.1 = k)).map Prod.snd

def set (d : Dict κ ν) (k : κ) (v : ν) : Dict κ ν := ⟨assign k v d.entries, nodup_assign k v d.nodup⟩

def values (d : Dict κ ν) : List ν := d.entries.map Prod.snd

/-- The dictionary of a list of pairs, a later pair overwriting an earlier one of its key. -/
def ofList (pairs : List (κ × ν)) : Dict κ ν := pairs.foldl (fun d p => d.set p.1 p.2) empty

@[simp] theorem get?_empty (k : κ) : (empty : Dict κ ν).get? k = none := rfl

omit [DecidableEq κ] in
@[simp] theorem values_empty : (empty : Dict κ ν).values = [] := rfl

@[simp] theorem entries_set (d : Dict κ ν) (k : κ) (v : ν) : (d.set k v).entries = assign k v d.entries := rfl

theorem find?_assign (k k' : κ) (v : ν) (entries : List (κ × ν)) :
    ((assign k v entries).find? (fun e => e.1 = k')).map Prod.snd =
      if k' = k then some v else (entries.find? (fun e => e.1 = k')).map Prod.snd := by
  induction entries with
  | nil =>
    by_cases h : k' = k
    · simp [assign, h]
    · simp [assign, h, Ne.symm h]
  | cons e rest ih =>
    by_cases he : e.1 = k
    · by_cases h : k' = k
      · simp [assign, he, h]
      · simp [assign, he, h, Ne.symm h]
    · by_cases h' : e.1 = k'
      · have h : ¬k' = k := fun h => he (h'.trans h)
        simp [assign, h', h]
      · simp [assign, he, h', ih]

theorem get?_set (d : Dict κ ν) (k k' : κ) (v : ν) :
    (d.set k v).get? k' = if k' = k then some v else d.get? k' :=
  find?_assign k k' v d.entries

@[simp] theorem get?_set_self (d : Dict κ ν) (k : κ) (v : ν) : (d.set k v).get? k = some v := by
  simp [get?_set]

theorem assign_assign (k : κ) (v v' : ν) (entries : List (κ × ν)) :
    assign k v' (assign k v entries) = assign k v' entries := by
  induction entries with
  | nil => simp [assign]
  | cons e entries ih =>
    by_cases he : e.1 = k
    · simp [assign, he]
    · simp [assign, he, ih]

/-- A later value replaces an earlier one. -/
theorem set_set (d : Dict κ ν) (k : κ) (v v' : ν) : (d.set k v).set k v' = d.set k v' := by
  have hentries := assign_assign k v v' d.entries
  simp only [set]
  congr

theorem get?_eq_some_iff {d : Dict κ ν} {k : κ} {v : ν} : d.get? k = some v ↔ (k, v) ∈ d.entries := by
  constructor
  · intro h
    obtain ⟨e, he, rfl⟩ := Option.map_eq_some_iff.mp h
    have hk : e.1 = k := by simpa using List.find?_some he
    exact hk ▸ List.mem_of_find?_eq_some he
  · intro h
    have hf := Table.find?_key d.nodup h
    simp only [get?, hf, Option.map_some]

theorem mem_values {d : Dict κ ν} {v : ν} : v ∈ d.values ↔ ∃ k, d.get? k = some v := by
  simp only [get?_eq_some_iff, values, List.mem_map, Prod.exists, exists_eq_right]

theorem values_set_of_none {d : Dict κ ν} {k : κ} (h : d.get? k = none) (v : ν) :
    (d.set k v).values = d.values ++ [v] := by
  have hfind : d.entries.find? (fun e => e.1 = k) = none := by simpa only [get?, Option.map_eq_none_iff] using h
  have hfresh : k ∉ d.entries.map Prod.fst := by
    intro hmem
    obtain ⟨e, he, hk⟩ := List.mem_map.mp hmem
    exact absurd hk (by simpa using List.find?_eq_none.mp hfind e he)
  unfold values
  rw [entries_set, assign_of_not_mem hfresh, List.map_append, List.map_singleton]

/-- Overwriting a value by one with the same image keeps the images in place. -/
theorem map_values_set {ω : Type} (g : ν → ω) {d : Dict κ ν} {k : κ} {v v' : ν} (h : d.get? k = some v)
    (hg : g v' = g v) : (d.set k v').values.map g = d.values.map g := by
  have hfind : (d.entries.find? (fun e => e.1 = k)).map Prod.snd = some v := h
  unfold values
  rw [entries_set]
  generalize d.entries = entries at hfind ⊢
  induction entries with
  | nil => cases hfind
  | cons e rest ih =>
    by_cases he : e.1 = k
    · have hv : e.2 = v := by simpa [he] using hfind
      simp [assign, he, hg, hv]
    · have hrest : (rest.find? (fun e => e.1 = k)).map Prod.snd = some v := by simpa [he] using hfind
      simpa [assign, he] using ih hrest

/-- Every value is listed under its own key. -/
def KeyedBy (key : ν → κ) (d : Dict κ ν) : Prop := ∀ k v, d.get? k = some v → key v = k

theorem keyedBy_empty (key : ν → κ) : KeyedBy key (empty : Dict κ ν) := fun _ _ h => by cases h

theorem KeyedBy.set {key : ν → κ} {d : Dict κ ν} (h : KeyedBy key d) {k : κ} {v : ν} (hv : key v = k) :
    KeyedBy key (d.set k v) := by
  intro k' v' hv'
  rw [get?_set] at hv'
  split at hv'
  · rename_i hk
    exact hk ▸ Option.some.inj hv' ▸ hv
  · exact h k' v' hv'

theorem KeyedBy.map_values {key : ν → κ} {d : Dict κ ν} (h : KeyedBy key d) :
    d.values.map key = d.entries.map Prod.fst := by
  unfold values
  rw [List.map_map]
  exact List.map_congr_left fun e he => h e.1 e.2 (get?_eq_some_iff.mpr he)

theorem KeyedBy.nodup_values {key : ν → κ} {d : Dict κ ν} (h : KeyedBy key d) : (d.values.map key).Nodup :=
  h.map_values ▸ d.nodup

theorem KeyedBy.mem_values {key : ν → κ} {d : Dict κ ν} (h : KeyedBy key d) {v : ν} :
    v ∈ d.values ↔ d.get? (key v) = some v := by
  rw [Dict.mem_values]
  exact ⟨fun ⟨k, hk⟩ => h k v hk ▸ hk, fun hv => ⟨_, hv⟩⟩

/-- The dictionary of pairs with distinct keys lists them all. -/
theorem entries_ofList {pairs : List (κ × ν)} (h : (pairs.map Prod.fst).Nodup) : (ofList pairs).entries = pairs := by
  induction pairs using List.reverseRecOn with
  | nil => rfl
  | append_singleton pairs p ih =>
    rw [List.map_append, List.nodup_append] at h
    have hfresh : p.1 ∉ pairs.map Prod.fst := fun hmem => h.2.2 p.1 hmem p.1 (by simp) rfl
    have hfold : ofList (pairs ++ [p]) = (ofList pairs).set p.1 p.2 := List.foldl_concat ..
    rw [hfold, entries_set, ih h.1, assign_of_not_mem hfresh]

theorem mem_keys_ofList {pairs : List (κ × ν)} {k : κ} :
    k ∈ (ofList pairs).entries.map Prod.fst ↔ k ∈ pairs.map Prod.fst := by
  induction pairs using List.reverseRecOn with
  | nil => exact Iff.rfl
  | append_singleton pairs p ih =>
    have hfold : ofList (pairs ++ [p]) = (ofList pairs).set p.1 p.2 := List.foldl_concat ..
    rw [hfold, entries_set, keys_assign, List.map_append, List.mem_append, ← ih, List.map_singleton, List.mem_singleton]
    split
    · rename_i hk
      exact ⟨.inl, fun h => h.elim id fun h => h ▸ hk⟩
    · rw [List.mem_append, List.mem_singleton]

/-- No pair overwrites another when their keys are distinct, and only then. -/
theorem length_ofList_iff {pairs : List (κ × ν)} :
    (ofList pairs).entries.length = pairs.length ↔ (pairs.map Prod.fst).Nodup := by
  constructor
  · intro h
    have hsubset : (ofList pairs).entries.map Prod.fst ⊆ pairs.map Prod.fst := fun k hk => mem_keys_ofList.mp hk
    have hperm := ((ofList pairs).nodup.subperm hsubset).perm_of_length_le (by simp [h])
    exact hperm.nodup_iff.mp (ofList pairs).nodup
  · intro h
    rw [entries_ofList h]

end Dict

end FidbPoc.Lib
