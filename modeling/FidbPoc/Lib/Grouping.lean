import FidbPoc.Lib.Dict
import Mathlib.Algebra.BigOperators.Group.List.Basic
import Mathlib.Data.List.Perm.Basic

namespace FidbPoc.Lib.Grouping

section Products

variable {α β γ : Type}

/-- One element of each list, the last list varying fastest. -/
def product : List (List α) → List (List α)
  | [] => [[]]
  | choices :: rest => choices.flatMap fun a => (product rest).map (a :: ·)

theorem length_product (choices : List (List α)) : (product choices).length = (choices.map List.length).prod := by
  induction choices with
  | nil => rfl
  | cons first rest ih =>
    rw [product, List.length_flatMap, List.map_cons, List.prod_cons, ← ih]
    simp

/-- Two nested loops may be exchanged. -/
theorem flatMap_exchange (f : α → β → γ) (xs : List α) (ys : List β) :
    (xs.flatMap fun a => ys.map (f a)).Perm (ys.flatMap fun b => xs.map fun a => f a b) := by
  induction xs with
  | nil => simp
  | cons a xs ih =>
    have hsplit : (ys.flatMap fun b => (a :: xs).map fun a => f a b) =
        ys.flatMap fun b => [f a b] ++ xs.map fun a => f a b := rfl
    rw [List.flatMap_cons, hsplit, List.map_eq_flatMap]
    exact (ih.append_left _).trans (List.flatMap_append_perm ys _ _)

end Products

section Dictionaries

variable {κ ν ω α : Type} [DecidableEq κ] {d : Dict κ ν} {k : κ} {v v' : ν}

/-- What a dictionary lists under all its keys grows by what one value grows by. -/
theorem flatMap_values_set {f : ν → List α} {added : List α} (h : d.get? k = some v) (hadded : f v' = f v ++ added) :
    ((d.set k v').values.flatMap f).Perm (d.values.flatMap f ++ added) := by
  have hfind : (d.entries.find? (fun e => e.1 = k)).map Prod.snd = some v := h
  unfold Dict.values
  rw [Dict.entries_set]
  generalize d.entries = entries at hfind ⊢
  induction entries with
  | nil => cases hfind
  | cons e rest ih =>
    by_cases he : e.1 = k
    · have hv : e.2 = v := by simpa [he] using hfind
      simp only [Dict.assign, he, if_true, List.map_cons, List.flatMap_cons, hadded, hv, List.append_assoc]
      exact List.perm_append_comm.append_left _
    · have hrest : (rest.find? (fun e => e.1 = k)).map Prod.snd = some v := by simpa [he] using hfind
      simp only [Dict.assign, he, if_false, List.map_cons, List.flatMap_cons, List.append_assoc]
      exact (ih hrest).append_left _

theorem map_assign (g : ν → ω) (k : κ) (v : ν) (entries : List (κ × ν)) :
    (Dict.assign k v entries).map (Prod.map id g) = Dict.assign k (g v) (entries.map (Prod.map id g)) := by
  induction entries with
  | nil => rfl
  | cons e rest ih =>
    by_cases he : e.1 = k
    · simp [Dict.assign, he]
    · simp [Dict.assign, he, ih]

theorem get?_map {d' : Dict κ ω} {g : ν → ω} (h : d'.entries = d.entries.map (Prod.map id g)) (k : κ) :
    d'.get? k = (d.get? k).map g := by
  rw [Dict.get?, Dict.get?, h, List.find?_map, Option.map_map, Option.map_map]
  rfl

end Dictionaries

end FidbPoc.Lib.Grouping
