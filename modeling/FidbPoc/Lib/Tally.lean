import FidbPoc.Lib.Dict
import FidbPoc.Lib.SortedJson
import Mathlib.Algebra.BigOperators.Group.List.Basic
import Mathlib.Data.List.Perm.Subperm

namespace FidbPoc.Lib.Tally

section Tallies

variable {κ M : Type} [DecidableEq κ] [AddCommMonoid M] {d : Dict κ M} {items items' : List (κ × M)} {k : κ}

def add (d : Dict κ M) (item : κ × M) : Dict κ M := d.set item.1 ((d.get? item.1).getD 0 + item.2)

/-- A loop of `totals[key] = totals.get(key, 0) + number`. -/
def tally (d : Dict κ M) (items : List (κ × M)) : Dict κ M := items.foldl add d

/-- What a list adds up to under one key. -/
def sumOf (items : List (κ × M)) (k : κ) : M := ((items.filter fun item => item.1 = k).map Prod.snd).sum

theorem tally_cons (item : κ × M) : tally d (item :: items) = tally (add d item) items := rfl

theorem sumOf_cons (item : κ × M) : sumOf (item :: items) k = (if item.1 = k then item.2 else 0) + sumOf items k := by
  by_cases h : item.1 = k <;> simp [sumOf, h]

theorem sumOf_of_not_mem (h : k ∉ items.map Prod.fst) : sumOf items k = 0 := by
  induction items with
  | nil => rfl
  | cons item rest ih =>
    rw [List.map_cons, List.mem_cons, not_or] at h
    rw [sumOf_cons, if_neg (Ne.symm h.1), ih h.2, add_zero]

theorem sumOf_perm (h : items'.Perm items) (k : κ) : sumOf items' k = sumOf items k :=
  ((h.filter _).map Prod.snd).sum_eq

/-- A key has its first number and what the list adds up to, if it is listed at all. -/
theorem get?_tally : (tally d items).get? k =
    if k ∈ items.map Prod.fst then some ((d.get? k).getD 0 + sumOf items k) else d.get? k := by
  induction items generalizing d with
  | nil => simp [tally]
  | cons item rest ih =>
    rw [tally_cons, ih, sumOf_cons, add, Dict.get?_set]
    by_cases hk : k = item.1
    · by_cases hrest : k ∈ rest.map Prod.fst
      · simp [hk ▸ hrest, hk, add_assoc]
      · have hsum := sumOf_of_not_mem hrest
        simp [hk ▸ hrest, hk ▸ hsum, hk]
    · have hne : ¬item.1 = k := Ne.symm hk
      simp only [List.map_cons, List.mem_cons, hk, hne, false_or, if_false, zero_add]

/-- Keys that are all there from the start just add up. -/
theorem get?_tally_of_mem {n : M} (h : d.get? k = some n) : (tally d items).get? k = some (n + sumOf items k) := by
  rw [get?_tally]
  by_cases hk : k ∈ items.map Prod.fst
  · rw [if_pos hk, h, Option.getD_some]
  · rw [if_neg hk, h, sumOf_of_not_mem hk, add_zero]

/-- The order of the list does not matter to the totals. -/
theorem get?_tally_perm (h : items'.Perm items) (k : κ) : (tally d items').get? k = (tally d items).get? k := by
  have hmem : k ∈ items'.map Prod.fst ↔ k ∈ items.map Prod.fst := (h.map Prod.fst).mem_iff
  simp only [get?_tally, sumOf_perm h, hmem]

end Tallies

section Documents

variable {d : Dict String Int} {fields : Json.Fields} {recorded : Json}

/-- A dictionary of numbers as it stands in a document. -/
def totals (d : Dict String Int) : Json.Fields := d.entries.map fun entry => (entry.1, .int entry.2)

theorem keys_totals (d : Dict String Int) : (totals d).map Prod.fst = d.entries.map Prod.fst := by
  rw [totals, List.map_map]
  rfl

theorem nodup_totals (d : Dict String Int) : ((totals d).map Prod.fst).Nodup := keys_totals d ▸ d.nodup

theorem get?_totals (d : Dict String Int) (key : String) : (totals d).get? key = (d.get? key).map Json.int := by
  refine Option.ext fun value => ?_
  rw [Json.get?_eq_some_iff (nodup_totals d), totals, List.mem_map, Option.map_eq_some_iff]
  constructor
  · rintro ⟨entry, hentry, heq⟩
    obtain ⟨rfl, rfl⟩ := Prod.mk.inj heq
    exact ⟨entry.2, Dict.get?_eq_some_iff.mpr hentry, rfl⟩
  · rintro ⟨n, hn, rfl⟩
    exact ⟨(key, n), Dict.get?_eq_some_iff.mp hn, rfl⟩

theorem proper_totals (d : Dict String Int) : Json.Proper (.obj (totals d)) := by
  refine ⟨nodup_totals d, Json.properValues_iff.mpr fun field hfield => ?_⟩
  obtain ⟨entry, _, rfl⟩ := List.mem_map.mp hfield
  trivial

/-- A number equals an integer of the document when it compares as that integer. -/
theorem same_int_iff {value : Json} {n : Int} : value.same (.int n) = true ↔ value.number? = some (n : Rat) := by
  cases value with
  | bool value => simp [Json.same, Json.isNumber, Json.number?, eq_comm]
  | int value => simp [Json.same, Json.isNumber, Json.number?, eq_comm]
  | float value => simp [Json.same, Json.isNumber, Json.number?, eq_comm]
  | null | str value | arr items | obj fields => simp [Json.same, Json.isText, Json.str?, Json.number?]

/-- A recorded dictionary equals the totals when every key has the number of the totals, and no other key is there. -/
theorem same_totals_iff (h : (fields.map Prod.fst).Nodup) : Json.same (.obj fields) (.obj (totals d)) = true ↔
    ∀ key, (fields.get? key).map Json.number? = (d.get? key).map fun n : Int => some (n : Rat) := by
  rw [Json.same_obj_iff]
  constructor
  · rintro ⟨hlength, hfields⟩ key
    have hsubset : fields.map Prod.fst ⊆ d.entries.map Prod.fst := by
      intro key hkey
      obtain ⟨field, hfield, rfl⟩ := List.mem_map.mp hkey
      obtain ⟨value, hvalue, _⟩ := hfields field hfield
      rw [← keys_totals]
      exact List.mem_map.mpr ⟨_, Json.mem_of_get? hvalue, rfl⟩
    have hperm : (fields.map Prod.fst).Perm (d.entries.map Prod.fst) := by
      refine (List.subperm_of_subset h hsubset).perm_of_length_le ?_
      rw [← keys_totals, List.length_map, List.length_map, hlength]
    cases hfound : fields.get? key with
    | some value =>
      obtain ⟨other, hother, hsame⟩ := hfields _ (Json.mem_of_get? hfound)
      rw [get?_totals] at hother
      obtain ⟨n, hn, rfl⟩ := Option.map_eq_some_iff.mp hother
      rw [hn, Option.map_some, Option.map_some, same_int_iff.mp hsame]
    | none =>
      cases hn : d.get? key with
      | none => rfl
      | some n =>
        have hkey := hperm.mem_iff.mpr (List.mem_map.mpr ⟨_, Dict.get?_eq_some_iff.mp hn, rfl⟩)
        obtain ⟨field, hfield, hfst⟩ := List.mem_map.mp hkey
        have hsome := Json.get?_of_mem h hfield
        rw [hfst, hfound] at hsome
        cases hsome
  · intro hkeys
    have hmem (key : String) : key ∈ fields.map Prod.fst ↔ key ∈ d.entries.map Prod.fst := by
      have hkey := congrArg Option.isSome (hkeys key)
      rw [Option.isSome_map, Option.isSome_map] at hkey
      constructor
      · intro hfield
        obtain ⟨field, hmem, rfl⟩ := List.mem_map.mp hfield
        rw [Json.get?_of_mem h hmem] at hkey
        obtain ⟨n, hn⟩ := Option.isSome_iff_exists.mp hkey.symm
        exact List.mem_map.mpr ⟨_, Dict.get?_eq_some_iff.mp hn, rfl⟩
      · intro hentry
        obtain ⟨entry, hmem, rfl⟩ := List.mem_map.mp hentry
        rw [Dict.get?_eq_some_iff.mpr hmem] at hkey
        obtain ⟨value, hvalue⟩ := Option.isSome_iff_exists.mp hkey
        exact List.mem_map.mpr ⟨_, Json.mem_of_get? hvalue, rfl⟩
    have hperm := (List.perm_ext_iff_of_nodup h d.nodup).mpr hmem
    refine ⟨?_, fun field hfield => ?_⟩
    · rw [← List.length_map (f := Prod.fst), hperm.length_eq, ← keys_totals, List.length_map]
    · have hnumber := hkeys field.1
      rw [Json.get?_of_mem h hfield] at hnumber
      obtain ⟨n, hn, heq⟩ := Option.map_eq_some_iff.mp hnumber.symm
      refine ⟨.int n, ?_, same_int_iff.mpr heq.symm⟩
      rw [get?_totals, hn, Option.map_some]

end Documents

end FidbPoc.Lib.Tally
