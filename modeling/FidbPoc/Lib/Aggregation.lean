import FidbPoc.Lib.Relation
import FidbPoc.Lib.Tally
import Mathlib.Data.List.Sort
import Mathlib.Order.Defs.LinearOrder

namespace FidbPoc.Lib.Dict

open Sums Tally

section Same

variable {κ ν : Type} [DecidableEq κ] {d d' : Dict κ ν}

/-- Tables with the same rows list them in some order. -/
theorem entries_perm (h : ∀ k, d'.get? k = d.get? k) : d'.entries.Perm d.entries := by
  refine (List.perm_ext_iff_of_nodup d'.nodup.of_map d.nodup.of_map).mpr fun entry => ?_
  rw [← get?_eq_some_iff, ← get?_eq_some_iff, h]

/-- `ORDER BY` the key. -/
def ordered [LinearOrder κ] (d : Dict κ ν) : List (κ × ν) := d.entries.insertionSort fun a b => a.1 ≤ b.1

omit [DecidableEq κ] in
theorem ordered_perm [LinearOrder κ] (d : Dict κ ν) : d.ordered.Perm d.entries := List.perm_insertionSort ..

/-- Tables with the same rows list them in the same order by key. -/
theorem ordered_congr {κ : Type} [LinearOrder κ] {d d' : Dict κ ν} (h : ∀ k, d'.get? k = d.get? k) :
    d'.ordered = d.ordered := by
  have hperm : d'.ordered.Perm d.ordered := (ordered_perm d').trans ((entries_perm h).trans (ordered_perm d).symm)
  have hnodup : (d'.ordered.map Prod.fst).Nodup := ((ordered_perm d').map Prod.fst).nodup_iff.mpr d'.nodup
  have : Std.Total fun a b : κ × ν => a.1 ≤ b.1 := ⟨fun a b => le_total a.1 b.1⟩
  have : IsTrans (κ × ν) fun a b => a.1 ≤ b.1 := ⟨fun _ _ _ => le_trans⟩
  refine hperm.eq_of_pairwise ?_ (List.pairwise_insertionSort _ _) (List.pairwise_insertionSort _ _)
  intro a b ha hb hab hba
  exact List.inj_on_of_nodup_map hnodup ha (hperm.mem_iff.mpr hb) (le_antisymm hab hba)

end Same

section Groups

variable {α κ ν : Type} [DecidableEq κ] {key : α → κ} {aggregate : List α → ν} {rows rows' : List α}

/-- The order of the rows does not matter to groups whose aggregates it does not matter to. -/
theorem groupBy_congr (h : rows'.Perm rows) (haggregate : ∀ xs ys : List α, xs.Perm ys → aggregate xs = aggregate ys)
    (k : κ) : (groupBy key aggregate rows').get? k = (groupBy key aggregate rows).get? k := by
  refine Option.ext fun v => ?_
  rw [get?_groupBy, get?_groupBy, haggregate _ _ (h.filter _)]
  simp only [h.mem_iff]

/-- What the groups come to, by key and aggregate, adds up to what the rows come to. -/
theorem total_groupBy_entries (f : α → ℤ) (c : κ × ν → ℤ)
    (hc : ∀ k, c (k, aggregate (rows.filter fun x => key x = k)) = total f (rows.filter fun x => key x = k)) :
    total c (groupBy key aggregate rows).entries = total f rows := by
  have hgroups := total_groups key f (List.nodup_dedup (rows.map key))
    fun x hx => List.mem_dedup.mpr (List.mem_map_of_mem hx)
  rw [← hgroups]
  simp only [groupBy, total_map, hc]

/-- The sizes of the groups add up to the number of the rows. -/
theorem total_groupBy_length : total (fun group => (group.2 : ℤ)) (groupBy key List.length rows).entries = rows.length := by
  have hgroups := @total_groupBy_entries _ _ _ _ key List.length rows (fun _ => (1 : ℤ)) (fun group => (group.2 : ℤ))
    fun k => by simp [total]
  rw [hgroups]
  simp [total]

end Groups

section Counts

variable {α κ : Type}

/-- `COUNT(DISTINCT ..)` depends on what occurs only. -/
theorem length_dedup_congr [DecidableEq κ] {xs ys : List κ} (h : ∀ x, x ∈ xs ↔ x ∈ ys) :
    xs.dedup.length = ys.dedup.length := by
  refine List.Perm.length_eq ((List.perm_ext_iff_of_nodup (List.nodup_dedup xs) (List.nodup_dedup ys)).mpr fun x => ?_)
  rw [List.mem_dedup, List.mem_dedup]
  exact h x

/-- Positive numbers are one or more. -/
theorem countP_one_add_countP_more {rows : List α} {f : α → ℕ} (h : ∀ x ∈ rows, 0 < f x) :
    rows.countP (fun x => f x = 1) + rows.countP (fun x => 1 < f x) = rows.length := by
  rw [List.length_eq_countP_add_countP fun x => decide (f x = 1)]
  refine congrArg _ (List.countP_congr fun x hx => ?_)
  have hpos := h x hx
  simp only [decide_eq_true_eq]
  omega

end Counts

section Upserts

variable {κ M : Type} [DecidableEq κ] [AddCommMonoid M] {rows : List (κ × M)}

/-- A column of a table of totals sums to that column of the rows. -/
theorem total_tally (c : κ → M → ℤ) (hzero : ∀ k, c k 0 = 0) (hadd : ∀ k x y, c k (x + y) = c k x + c k y) :
    total (fun entry => c entry.1 entry.2) (tally (empty : Dict κ M) rows).entries = total (fun row => c row.1 row.2) rows := by
  have hsum (k : κ) (xs : List M) : c k xs.sum = (xs.map (c k)).sum := by
    induction xs with
    | nil => exact hzero k
    | cons x xs ih => rw [List.sum_cons, hadd, ih, List.map_cons, List.sum_cons]
  have hgroup : total (fun entry => c entry.1 entry.2)
      (groupBy Prod.fst (fun rows : List (κ × M) => (rows.map Prod.snd).sum) rows).entries =
      total (fun row => c row.1 row.2) rows := by
    refine total_groupBy_entries _ _ fun k => ?_
    rw [hsum, total, List.map_map]
    refine congrArg List.sum (List.map_congr_left fun row hrow => ?_)
    rw [Function.comp, of_decide_eq_true (List.mem_filter.mp hrow).2]
  rw [← hgroup]
  refine total_perm (entries_perm fun k => Option.ext fun v => ?_)
  rw [get?_tally, get?_empty, Option.getD_none, zero_add, get?_groupBy]
  by_cases hk : k ∈ rows.map Prod.fst
  · have hrow : ∃ row ∈ rows, row.1 = k := List.mem_map.mp hk
    rw [if_pos hk, Option.some.injEq, and_iff_right hrow]
    rfl
  · have hrow : ¬∃ row ∈ rows, row.1 = k := fun h => hk (List.mem_map.mpr h)
    simp [hk, hrow]

end Upserts

end FidbPoc.Lib.Dict
