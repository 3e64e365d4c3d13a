import Mathlib.Algebra.BigOperators.Fin
import Mathlib.Algebra.BigOperators.Group.List.Basic
import Mathlib.Algebra.BigOperators.Ring.Finset
import Mathlib.Data.Finset.Prod
import Mathlib.Data.List.Nodup
import Mathlib.Tactic.Linarith
import Mathlib.Tactic.Ring

namespace FidbPoc.Lib.Sums

variable {α κ : Type}

/-- The sum of a column of a list of rows. -/
def total (f : α → ℤ) (rows : List α) : ℤ := (rows.map f).sum

section total

variable {f g : α → ℤ} {rows rows' : List α}

@[simp] theorem total_nil : total f [] = 0 := rfl

@[simp] theorem total_cons (x : α) : total f (x :: rows) = f x + total f rows := rfl

theorem total_append : total f (rows ++ rows') = total f rows + total f rows' := by
  simp [total]

theorem total_concat (x : α) : total f (rows ++ [x]) = total f rows + f x := by
  simp [total]

theorem total_perm (h : rows.Perm rows') : total f rows = total f rows' :=
  (h.map f).sum_eq

theorem total_congr (h : ∀ x ∈ rows, f x = g x) : total f rows = total g rows :=
  congrArg List.sum (List.map_congr_left h)

theorem total_add : total (fun x => f x + g x) rows = total f rows + total g rows := by
  induction rows with
  | nil => rfl
  | cons x rows ih =>
    simp only [total_cons, ih]
    ring

theorem total_zero (h : ∀ x ∈ rows, f x = 0) : total f rows = 0 := by
  rw [total_congr h]
  induction rows with
  | nil => rfl
  | cons x rows ih => simp [ih fun y hy => h y (by simp [hy])]

theorem total_nonneg (h : ∀ x ∈ rows, 0 ≤ f x) : 0 ≤ total f rows := by
  induction rows with
  | nil => exact le_rfl
  | cons x rows ih =>
    obtain ⟨hx, hrows⟩ := List.forall_mem_cons.mp h
    exact add_nonneg hx (ih hrows)

theorem total_le_total (h : ∀ x ∈ rows, f x ≤ g x) : total f rows ≤ total g rows := by
  induction rows with
  | nil => exact le_rfl
  | cons x rows ih =>
    obtain ⟨hx, hrows⟩ := List.forall_mem_cons.mp h
    exact add_le_add hx (ih hrows)

/-- A sum of numbers below others reaches theirs where each number does. -/
theorem total_eq_total_iff (h : ∀ x ∈ rows, f x ≤ g x) : total f rows = total g rows ↔ ∀ x ∈ rows, f x = g x := by
  refine ⟨fun htotal => ?_, total_congr⟩
  induction rows with
  | nil => simp
  | cons x rows ih =>
    obtain ⟨hx, hrows⟩ := List.forall_mem_cons.mp h
    have hle := total_le_total hrows
    rw [total_cons, total_cons] at htotal
    exact List.forall_mem_cons.mpr ⟨by omega, ih hrows (by omega)⟩

theorem total_mul_right (c : ℤ) : total (fun x => f x * c) rows = total f rows * c := by
  induction rows with
  | nil => simp
  | cons x rows ih =>
    simp only [total_cons, ih]
    ring

theorem total_map {β : Type} (m : β → α) (xs : List β) : total f (xs.map m) = total (fun x => f (m x)) xs := by
  simp [total, Function.comp_def]

theorem total_flatMap {β : Type} (m : β → List α) (xs : List β) :
    total f (xs.flatMap m) = total (fun x => total f (m x)) xs := by
  induction xs with
  | nil => rfl
  | cons x xs ih => simp [total_append, ih]

theorem total_filterMap {β : Type} (m : β → Option α) (xs : List β) :
    total f (xs.filterMap m) = total (fun x => ((m x).map f).getD 0) xs := by
  induction xs with
  | nil => rfl
  | cons x xs ih =>
    rw [List.filterMap_cons, total_cons, ← ih]
    cases m x with
    | none => simp
    | some y => rfl

theorem total_filter (p : α → Bool) : total f (rows.filter p) = total (fun x => if p x then f x else 0) rows := by
  induction rows with
  | nil => rfl
  | cons x rows ih =>
    by_cases h : p x
    · simp [h, ih]
    · simp [h, ih]

theorem length_filter_eq_total (p : α → Bool) :
    ((rows.filter p).length : ℤ) = total (fun x => if p x then 1 else 0) rows := by
  induction rows with
  | nil => rfl
  | cons x rows ih =>
    by_cases h : p x
    · simp [h, ← ih, add_comm]
    · simp [h, ih]

theorem length_flatMap_eq_total {β : Type} (m : β → List α) (xs : List β) :
    ((xs.flatMap m).length : ℤ) = total (fun x => ((m x).length : ℤ)) xs := by
  induction xs with
  | nil => rfl
  | cons x xs ih => rw [List.flatMap_cons, List.length_append, Nat.cast_add, ih, total_cons]

/-- Two sums can be taken in either order. -/
theorem total_comm {β : Type} (h : α → β → ℤ) (rows : List α) (cols : List β) :
    total (fun x => total (h x) cols) rows = total (fun y => total (fun x => h x y) rows) cols := by
  induction rows with
  | nil => exact (total_zero fun _ _ => rfl).symm
  | cons x rows ih => simp only [total_cons, total_add, ih]

end total

section groups

variable [DecidableEq κ]

/-- One key of a list without repetitions carries the whole sum. -/
theorem total_eq_single {keys : List κ} (hnodup : keys.Nodup) (k : κ) (c : ℤ) :
    total (fun k' => if k' = k then c else 0) keys = if k ∈ keys then c else 0 := by
  induction keys with
  | nil => rfl
  | cons k' keys ih =>
    obtain ⟨hk', hkeys⟩ := List.nodup_cons.mp hnodup
    rw [total_cons, ih hkeys]
    by_cases h : k' = k
    · subst h
      simp [hk']
    · have h' : ¬k = k' := fun he => h he.symm
      simp [h, h']

/-- The groups of the rows by a key add up to the rows of these keys. -/
theorem total_groups_filter (key : α → κ) (f : α → ℤ) {keys : List κ} (hnodup : keys.Nodup) (rows : List α) :
    total (fun k => total f (rows.filter fun x => key x = k)) keys = total f (rows.filter fun x => key x ∈ keys) := by
  have hrow : ∀ x ∈ rows, total (fun k => if decide (key x = k) then f x else 0) keys =
      if decide (key x ∈ keys) then f x else 0 := by
    intro x hx
    calc total (fun k => if decide (key x = k) then f x else 0) keys
        = total (fun k => if k = key x then f x else 0) keys := total_congr fun k _ => by simp [eq_comm]
      _ = if key x ∈ keys then f x else 0 := total_eq_single hnodup _ _
      _ = if decide (key x ∈ keys) then f x else 0 := by simp
  calc total (fun k => total f (rows.filter fun x => key x = k)) keys
      = total (fun k => total (fun x => if decide (key x = k) then f x else 0) rows) keys :=
        total_congr fun k _ => total_filter _
    _ = total (fun x => total (fun k => if decide (key x = k) then f x else 0) keys) rows := total_comm ..
    _ = total (fun x => if decide (key x ∈ keys) then f x else 0) rows := total_congr hrow
    _ = _ := (total_filter _).symm

theorem total_groups (key : α → κ) (f : α → ℤ) {keys : List κ} {rows : List α} (hnodup : keys.Nodup)
    (hmem : ∀ x ∈ rows, key x ∈ keys) :
    total (fun k => total f (rows.filter fun x => key x = k)) keys = total f rows := by
  rw [total_groups_filter key f hnodup, List.filter_eq_self.mpr fun x hx => decide_eq_true (hmem x hx)]

end groups

section cross

variable (f g : α → ℤ)

/-- The sum of `f x * g y` over the ordered pairs of different positions of a list. -/
def crossSum (xs : List α) : ℤ :=
  ∑ p ∈ (Finset.univ : Finset (Fin xs.length)).offDiag, f (xs.get p.1) * g (xs.get p.2)

theorem total_eq_sum_get (xs : List α) : total f xs = ∑ i : Fin xs.length, f (xs.get i) :=
  (Fin.sum_univ_fun_getElem xs f).symm

/-- All ordered pairs are the equal ones and the different ones. -/
theorem crossSum_add_diagonal (xs : List α) :
    crossSum f g xs + total (fun x => f x * g x) xs = total f xs * total g xs := by
  have hdiag : total (fun x => f x * g x) xs =
      ∑ p ∈ (Finset.univ : Finset (Fin xs.length)).diag, f (xs.get p.1) * g (xs.get p.2) := by
    rw [total_eq_sum_get, Finset.sum_diag]
  rw [hdiag, total_eq_sum_get f, total_eq_sum_get g, Finset.sum_mul_sum, ← Finset.sum_product', crossSum, add_comm,
    ← Finset.sum_union (Finset.disjoint_diag_offDiag _), Finset.diag_union_offDiag]

@[simp] theorem crossSum_nil : crossSum f g [] = 0 := rfl

theorem crossSum_eq (xs : List α) : crossSum f g xs = total f xs * total g xs - total (fun x => f x * g x) xs := by
  rw [← crossSum_add_diagonal, add_sub_cancel_right]

/-- What one more element adds: its own `f` against the others and the others against its `g`. -/
theorem crossSum_concat (xs : List α) (x : α) :
    crossSum f g (xs ++ [x]) = crossSum f g xs + f x * total g xs + total f xs * g x := by
  simp only [crossSum_eq, total_concat]
  ring

theorem crossSum_perm {xs ys : List α} (h : xs.Perm ys) : crossSum f g xs = crossSum f g ys := by
  simp only [crossSum_eq, total_perm h]

end cross

end FidbPoc.Lib.Sums
