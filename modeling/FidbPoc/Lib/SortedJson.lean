import FidbPoc.Lib.Json
import FidbPoc.Lib.Table
import Mathlib.Data.String.Basic

namespace FidbPoc.Lib.Json

/-- A comparison of the keys of two fields. -/
def keyOrder (a b : String × Json) : Prop := a.1 ≤ b.1

instance : DecidableRel keyOrder := fun a b => inferInstanceAs (Decidable (a.1 ≤ b.1))

mutual

/-- `json.loads(json.dumps(value, sort_keys=True))` -/
def sortKeys : Json → Json
  | .arr items => .arr (sortItems items)
  | .obj fields => .obj ((sortValues fields).insertionSort keyOrder)
  | .null => .null
  | .bool value => .bool value
  | .int value => .int value
  | .float value => .float value
  | .str value => .str value

def sortItems : List Json → List Json
  | [] => []
  | item :: rest => sortKeys item :: sortItems rest

def sortValues : List (String × Json) → List (String × Json)
  | [] => []
  | field :: rest => sortValue field :: sortValues rest

def sortValue : String × Json → String × Json
  | (key, value) => (key, sortKeys value)

end

mutual

/-- No object lists a key twice. -/
def Proper : Json → Prop
  | .arr items => ProperItems items
  | .obj fields => (fields.map Prod.fst).Nodup ∧ ProperValues fields
  | .null => True
  | .bool _ => True
  | .int _ => True
  | .float _ => True
  | .str _ => True

def ProperItems : List Json → Prop
  | [] => True
  | item :: rest => Proper item ∧ ProperItems rest

def ProperValues : List (String × Json) → Prop
  | [] => True
  | field :: rest => ProperValue field ∧ ProperValues rest

def ProperValue : String × Json → Prop
  | (_, value) => Proper value

end

section Fields

variable {fields fields' : Fields} {key : String} {value : Json}

theorem get?_of_mem (h : (fields.map Prod.fst).Nodup) (hmem : (key, value) ∈ fields) : fields.get? key = some value := by
  have hfound := Table.find?_key h hmem
  simp only [Fields.get?, hfound, Option.map_some]

theorem mem_of_get? (h : fields.get? key = some value) : (key, value) ∈ fields := by
  obtain ⟨field, hfound, rfl⟩ := Option.map_eq_some_iff.mp h
  have hkey : field.1 = key := by simpa using List.find?_some hfound
  exact hkey ▸ List.mem_of_find?_eq_some hfound

theorem get?_eq_some_iff (h : (fields.map Prod.fst).Nodup) : fields.get? key = some value ↔ (key, value) ∈ fields :=
  ⟨mem_of_get?, get?_of_mem h⟩

/-- The order of the fields does not matter to a lookup. -/
theorem get?_perm (h : (fields.map Prod.fst).Nodup) (hperm : fields'.Perm fields) : fields'.get? key = fields.get? key := by
  have hnodup : (fields'.map Prod.fst).Nodup := (hperm.map Prod.fst).nodup_iff.mpr h
  refine Option.ext fun value => ?_
  rw [get?_eq_some_iff hnodup, get?_eq_some_iff h]
  exact hperm.mem_iff

theorem sortItems_eq_map (items : List Json) : sortItems items = items.map sortKeys := by
  induction items with
  | nil => rfl
  | cons item rest ih => rw [sortItems, ih, List.map_cons]

theorem sortValues_eq_map (fields : Fields) : sortValues fields = fields.map fun field => (field.1, sortKeys field.2) := by
  induction fields with
  | nil => rfl
  | cons field rest ih => rw [sortValues, ih, List.map_cons, sortValue]

theorem properItems_iff {items : List Json} : ProperItems items ↔ ∀ item ∈ items, Proper item := by
  induction items with
  | nil => simp [ProperItems]
  | cons item rest ih => rw [ProperItems, ih, List.forall_mem_cons]

theorem properValues_iff : ProperValues fields ↔ ∀ field ∈ fields, Proper field.2 := by
  induction fields with
  | nil => simp [ProperValues]
  | cons field rest ih => rw [ProperValues, ih, List.forall_mem_cons, ProperValue]

theorem keys_sortValues (fields : Fields) : (sortValues fields).map Prod.fst = fields.map Prod.fst := by
  rw [sortValues_eq_map, List.map_map]
  rfl

/-- A field of a sorted object is the sorted field. -/
theorem get?_sortKeys (h : (fields.map Prod.fst).Nodup) (key : String) :
    Fields.get? ((sortValues fields).insertionSort keyOrder) key = (fields.get? key).map sortKeys := by
  have hnodup : ((sortValues fields).map Prod.fst).Nodup := keys_sortValues fields ▸ h
  rw [get?_perm hnodup (List.perm_insertionSort ..)]
  refine Option.ext fun value => ?_
  rw [get?_eq_some_iff hnodup, Option.map_eq_some_iff, sortValues_eq_map, List.mem_map]
  constructor
  · rintro ⟨field, hfield, heq⟩
    obtain ⟨rfl, rfl⟩ := Prod.mk.inj heq
    exact ⟨field.2, get?_of_mem h hfield, rfl⟩
  · rintro ⟨value, hvalue, rfl⟩
    exact ⟨(key, value), mem_of_get? hvalue, rfl⟩

theorem sameFields_iff : sameFields fields fields' = true ↔
    ∀ field ∈ fields, ∃ value, fields'.get? field.1 = some value ∧ same field.2 value = true := by
  have hfield : ∀ field : String × Json, sameField field fields' = true ↔
      ∃ value, fields'.get? field.1 = some value ∧ same field.2 value = true := by
    rintro ⟨key, value⟩
    rw [sameField]
    cases fields'.get? key <;> simp
  induction fields with
  | nil => simp [sameFields]
  | cons field rest ih => simp only [sameFields, Bool.and_eq_true, hfield, ih, List.forall_mem_cons]

theorem same_obj_iff : same (.obj fields) (.obj fields') = true ↔ fields.length = fields'.length ∧
    ∀ field ∈ fields, ∃ value, fields'.get? field.1 = some value ∧ same field.2 value = true := by
  rw [same, Bool.and_eq_true, decide_eq_true_eq, sameFields_iff]

end Fields

mutual

/-- Sorting the keys of a document gives an equal document. -/
theorem same_sortKeys : ∀ value : Json, Proper value → same (sortKeys value) value = true
  | .null, _ => by simp [sortKeys, same]
  | .bool value, _ => by simp [sortKeys, same, isNumber, number?]
  | .int value, _ => by simp [sortKeys, same, isNumber, number?]
  | .float value, _ => by simp [sortKeys, same, isNumber, number?]
  | .str value, _ => by simp [sortKeys, same, isText, str?]
  | .arr items, h => by
    rw [sortKeys, same]
    exact sameItems_sortItems items h
  | .obj fields, h => by
    have hvalues := same_sortValues fields h.2
    rw [sortKeys, same_obj_iff]
    refine ⟨by rw [List.length_insertionSort, sortValues_eq_map, List.length_map], fun field hfield => ?_⟩
    rw [List.mem_insertionSort, sortValues_eq_map, List.mem_map] at hfield
    obtain ⟨field, hfield, rfl⟩ := hfield
    exact ⟨field.2, get?_of_mem h.1 hfield, hvalues field hfield⟩

theorem sameItems_sortItems : ∀ items : List Json, ProperItems items → sameItems (sortItems items) items = true
  | [], _ => by simp [sortItems, sameItems]
  | item :: rest, h => by
    rw [sortItems, sameItems, Bool.and_eq_true]
    exact ⟨same_sortKeys item h.1, sameItems_sortItems rest h.2⟩

theorem same_sortValues : ∀ fields : List (String × Json), ProperValues fields →
    ∀ field ∈ fields, same (sortKeys field.2) field.2 = true
  | [], _ => fun _ h => absurd h List.not_mem_nil
  | field :: rest, h => List.forall_mem_cons.mpr ⟨same_sortValue field h.1, same_sortValues rest h.2⟩

theorem same_sortValue : ∀ field : String × Json, ProperValue field → same (sortKeys field.2) field.2 = true
  | (_, value), h => same_sortKeys value h

end

end FidbPoc.Lib.Json
