import Mathlib.Data.List.Sort
import Mathlib.Data.List.Nodup

namespace FidbPoc.Lib.Buckets

variable {α κ : Type} [DecidableEq κ]

/-- The rows of each key, key by key. -/
def buckets (key : α → κ) (order : List κ) (rows : List α) : List α :=
  order.flatMap fun k => rows.filter fun x => key x = k

section Sorting

variable {key : α → κ} {place : κ → Nat} {order : List κ} {rows : List α} {x : α}

theorem orderedInsert_append {r : α → α → Prop} [DecidableRel r] {xs ys : List α} (h : ∀ y ∈ xs, ¬ r x y) :
    List.orderedInsert r x (xs ++ ys) = xs ++ List.orderedInsert r x ys := by
  induction xs with
  | nil => rfl
  | cons y xs ih =>
    have hy : ¬ r x y := h y (by simp)
    simp only [List.cons_append, List.orderedInsert, hy, if_false]
    rw [ih fun z hz => h z (by simp [hz])]

theorem orderedInsert_of_forall {r : α → α → Prop} [DecidableRel r] {xs : List α} (h : ∀ y ∈ xs, r x y) :
    List.orderedInsert r x xs = x :: xs := by
  cases xs with
  | nil => rfl
  | cons y xs => exact List.orderedInsert_cons_of_le r xs (h y (by simp))

theorem mem_buckets {y : α} : y ∈ buckets key order rows ↔ key y ∈ order ∧ y ∈ rows := by
  simp only [buckets, List.mem_flatMap, List.mem_filter, decide_eq_true_eq]
  constructor
  · rintro ⟨k, hk, hy, rfl⟩
    exact ⟨hk, hy⟩
  · rintro ⟨hk, hy⟩
    exact ⟨key y, hk, hy, rfl⟩

theorem buckets_cons_of_not_mem (hx : key x ∉ order) : buckets key order (x :: rows) = buckets key order rows := by
  unfold buckets
  apply List.flatMap_congr
  intro k hk
  rw [List.filter_cons_of_neg]
  simp only [decide_eq_true_eq]
  rintro rfl
  exact hx hk

theorem orderedInsert_buckets (hplace : order.Pairwise fun a b => place a < place b) (hx : key x ∈ order) :
    List.orderedInsert (fun a b => place (key a) ≤ place (key b)) x (buckets key order rows) =
      buckets key order (x :: rows) := by
  induction order with
  | nil => cases hx
  | cons k order ih =>
    obtain ⟨hk, hplace⟩ := List.pairwise_cons.mp hplace
    have hsplit (rows : List α) : buckets key (k :: order) rows = (rows.filter fun y => key y = k) ++ buckets key order rows := rfl
    rw [hsplit, hsplit]
    by_cases hxk : key x = k
    · have hnot : key x ∉ order := fun hm => absurd (hk _ hm) (by rw [hxk]; exact Nat.lt_irrefl _)
      rw [buckets_cons_of_not_mem hnot, List.filter_cons_of_pos (by simpa using hxk), List.cons_append]
      apply orderedInsert_of_forall
      intro y hy
      obtain hy | hy := List.mem_append.mp hy
      · have hyk : key y = k := by simpa using (List.mem_filter.mp hy).2
        rw [hxk, hyk]
      · rw [hxk]
        exact Nat.le_of_lt (hk _ (mem_buckets.mp hy).1)
    · have hmem : key x ∈ order := (List.mem_cons.mp hx).resolve_left hxk
      rw [List.filter_cons_of_neg (by simpa using hxk), orderedInsert_append, ih hplace hmem]
      intro y hy
      have hyk : key y = k := by simpa using (List.mem_filter.mp hy).2
      rw [hyk, Nat.not_le]
      exact hk _ hmem

/-- A stable sort by the place of the key lists the rows key by key. -/
theorem insertionSort_eq_buckets (hplace : order.Pairwise fun a b => place a < place b)
    (hrows : ∀ x ∈ rows, key x ∈ order) :
    rows.insertionSort (fun a b => place (key a) ≤ place (key b)) = buckets key order rows := by
  induction rows with
  | nil => simp [buckets]
  | cons x rows ih =>
    rw [List.insertionSort_cons, ih fun y hy => hrows y (by simp [hy])]
    exact orderedInsert_buckets hplace (hrows x (by simp))

end Sorting

section Orders

variable {key : α → κ} {order order' : List κ} {rows : List α}

theorem filter_buckets (p : α → Bool) : (buckets key order rows).filter p = buckets key order (rows.filter p) := by
  unfold buckets
  rw [List.filter_flatMap]
  apply List.flatMap_congr
  intro k _
  rw [List.filter_filter, List.filter_filter]
  apply List.filter_congr
  intro x _
  exact Bool.and_comm _ _

/-- Keys without rows do not matter. -/
theorem buckets_filter_order (p : κ → Bool) (hrows : ∀ x ∈ rows, p (key x) = true) :
    buckets key (order.filter p) rows = buckets key order rows := by
  induction order with
  | nil => rfl
  | cons k order ih =>
    by_cases hk : p k = true
    · rw [List.filter_cons_of_pos hk]
      exact congrArg _ ih
    · rw [List.filter_cons_of_neg hk, ih]
      have hnone : (rows.filter fun x => key x = k) = [] := by
        rw [List.filter_eq_nil_iff]
        intro x hx hxk
        exact hk ((of_decide_eq_true hxk) ▸ hrows x hx)
      simp [buckets, hnone]

theorem exists_bucket {k : κ} (h : ∃ x ∈ rows, key x = k) :
    ∃ x xs, (rows.filter fun x => key x = k) = x :: xs ∧ key x = k := by
  obtain ⟨x, hx, hk⟩ := h
  cases hbucket : rows.filter fun x => key x = k with
  | nil => exact absurd hk (by simpa using List.filter_eq_nil_iff.mp hbucket x hx)
  | cons y ys =>
    have hy : y ∈ rows.filter fun x => key x = k := by simp [hbucket]
    exact ⟨y, ys, rfl, by simpa using (List.mem_filter.mp hy).2⟩

/-- The rows tell in which order their keys were listed. -/
theorem buckets_injective (hrows : ∀ k ∈ order, ∃ x ∈ rows, key x = k) (hrows' : ∀ k ∈ order', ∃ x ∈ rows, key x = k)
    (h : buckets key order rows = buckets key order' rows) : order = order' := by
  induction order generalizing order' with
  | nil =>
    cases order' with
    | nil => rfl
    | cons k' order' =>
      obtain ⟨x, xs, hbucket, -⟩ := exists_bucket (hrows' k' (by simp))
      simp [buckets, hbucket] at h
  | cons k order ih =>
    obtain ⟨x, xs, hbucket, hk⟩ := exists_bucket (hrows k (by simp))
    cases order' with
    | nil => simp [buckets, hbucket] at h
    | cons k' order' =>
      obtain ⟨x', xs', hbucket', hk'⟩ := exists_bucket (hrows' k' (by simp))
      have hsplit : (rows.filter fun x => key x = k) ++ buckets key order rows =
          (rows.filter fun x => key x = k') ++ buckets key order' rows := h
      have hxx : x = x' := by
        rw [hbucket, hbucket'] at hsplit
        exact (List.cons.inj hsplit).1
      obtain rfl : k = k' := by rw [← hk, ← hk', hxx]
      have hrest := List.append_cancel_left hsplit
      rw [ih (fun l hl => hrows l (by simp [hl])) (fun l hl => hrows' l (by simp [hl])) hrest]

/-- Of two lists without repetitions, the first is listed by the second in its order. -/
theorem filter_mem_eq_iff_sublist (hnodup : order'.Nodup) :
    (order'.filter fun k => k ∈ order) = order ↔ order.Sublist order' := by
  constructor
  · intro h
    rw [← h]
    exact List.filter_sublist
  · intro h
    induction h with
    | slnil => rfl
    | @cons order order' k h ih =>
      obtain ⟨hk, hnodup⟩ := List.nodup_cons.mp hnodup
      rw [List.filter_cons_of_neg (by simpa using fun hm => hk (h.subset hm)), ih hnodup]
    | @cons_cons order order' k h ih =>
      obtain ⟨hk, hnodup⟩ := List.nodup_cons.mp hnodup
      rw [List.filter_cons_of_pos (by simp)]
      have hsame : (order'.filter fun l => l ∈ k :: order) = order'.filter fun l => l ∈ order := by
        apply List.filter_congr
        intro l hl
        have hlk : l ≠ k := fun he => hk (he ▸ hl)
        simp [hlk]
      rw [hsame, ih hnodup]

end Orders

end FidbPoc.Lib.Buckets
