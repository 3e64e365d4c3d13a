import FidbPoc.Lib.Aggregation

namespace FidbPoc.Lib.Joins

open Sums

section Loops

variable {α β : Type}

/-- `JOIN .. ON`, as nested loops. -/
def join (on : α → β → Bool) (rows : List α) (others : List β) : List (α × β) :=
  rows.flatMap fun x => (others.filter (on x)).map fun y => (x, y)

/-- `LEFT JOIN .. ON`: a row that no other matches comes once. -/
def leftJoin (on : α → β → Bool) (rows : List α) (others : List β) : List (α × Option β) :=
  rows.flatMap fun x =>
    match others.filter (on x) with
    | [] => [(x, none)]
    | matching => matching.map fun y => (x, some y)

variable {on : α → β → Bool} {rows : List α} {others : List β} {x : α}

theorem mem_join {y : β} : (x, y) ∈ join on rows others ↔ x ∈ rows ∧ y ∈ others ∧ on x y = true := by
  simp only [join, List.mem_flatMap, List.mem_map, List.mem_filter, Prod.mk.injEq]
  constructor
  · rintro ⟨x', hx, y', ⟨hy, hon⟩, rfl, rfl⟩
    exact ⟨hx, hy, hon⟩
  · rintro ⟨hx, hy, hon⟩
    exact ⟨x, hx, y, ⟨hy, hon⟩, rfl, rfl⟩

/-- A left join has every row. -/
theorem exists_mem_leftJoin : (∃ y, (x, y) ∈ leftJoin on rows others) ↔ x ∈ rows := by
  simp only [leftJoin, List.mem_flatMap]
  constructor
  · rintro ⟨y, x', hx, hy⟩
    split at hy
    · cases List.mem_singleton.mp hy
      exact hx
    · obtain ⟨_, -, heq⟩ := List.mem_map.mp hy
      cases heq
      exact hx
  · intro hx
    cases hmatching : others.filter (on x) with
    | nil =>
      refine ⟨none, x, hx, ?_⟩
      rw [hmatching]
      exact List.mem_singleton_self _
    | cons y rest =>
      refine ⟨some y, x, hx, ?_⟩
      rw [hmatching]
      exact List.mem_cons_self

end Loops

section Keyed

variable {α κ ν : Type} [DecidableEq κ] {rows : List α} {key : α → κ}

/-- The rows of a table with a key that pass a test. -/
theorem filter_entries (d : Dict κ ν) (k : κ) (p : ν → Bool) :
    d.entries.filter (fun entry => entry.1 = k && p entry.2) = (((d.get? k).filter p).map fun v => (k, v)).toList := by
  rw [← List.filter_filter]
  have hcomm : (d.entries.filter fun entry => p entry.2).filter (fun entry => decide (entry.1 = k)) =
      (d.entries.filter fun entry => decide (entry.1 = k)).filter fun entry => p entry.2 := by
    rw [List.filter_filter, List.filter_filter]
    exact List.filter_congr fun entry _ => Bool.and_comm ..
  rw [hcomm]
  cases hget : d.get? k with
  | none =>
    have hnone : d.entries.filter (fun entry => decide (entry.1 = k)) = [] := by
      refine List.filter_eq_nil_iff.mpr fun entry hentry hkey => ?_
      have hk := Dict.get?_of_mem hentry
      rw [of_decide_eq_true hkey, hget] at hk
      cases hk
    rw [hnone]
    rfl
  | some v =>
    have hone := Table.filter_key d.nodup (Dict.get?_eq_some_iff.mp hget)
    rw [hone, List.filter_singleton, Option.filter_some]
    cases p v <;> rfl

/-- Joining a table on its key looks the key up. -/
theorem join_entries (d : Dict κ ν) (p : ν → Bool) :
    join (fun x entry => decide (entry.1 = key x) && p entry.2) rows d.entries =
      rows.filterMap fun x => ((d.get? (key x)).filter p).map fun v => (x, (key x, v)) := by
  induction rows with
  | nil => rfl
  | cons x rows ih =>
    rw [join] at ih
    rw [join, List.flatMap_cons, ih, filter_entries, List.filterMap_cons]
    cases (d.get? (key x)).filter p <;> rfl

theorem join_entries_sublist (d : Dict κ ν) (p : ν → Bool) :
    ((join (fun x entry => decide (entry.1 = key x) && p entry.2) rows d.entries).map Prod.fst).Sublist rows := by
  rw [join_entries]
  induction rows with
  | nil => exact List.Sublist.slnil
  | cons x rows ih =>
    rw [List.filterMap_cons]
    cases (d.get? (key x)).filter p with
    | none => exact ih.cons x
    | some v => exact ih.cons_cons x

theorem join_entries_all (d : Dict κ ν) : join (fun x entry => decide (entry.1 = key x)) rows d.entries =
    rows.filterMap fun x => (d.get? (key x)).map fun v => (x, (key x, v)) := by
  have hjoin := @join_entries _ _ _ _ rows key d fun _ => true
  simp only [Bool.and_true] at hjoin
  rw [hjoin]
  refine List.filterMap_congr fun x _ => ?_
  cases d.get? (key x) <;> rfl

/-- Rows whose keys are all there are joined once each. -/
theorem join_entries_fst {d : Dict κ ν} (h : ∀ x ∈ rows, ∃ v, d.get? (key x) = some v) :
    (join (fun x entry => decide (entry.1 = key x)) rows d.entries).map Prod.fst = rows := by
  rw [join_entries_all]
  induction rows with
  | nil => rfl
  | cons x rows ih =>
    obtain ⟨⟨v, hv⟩, hrows⟩ := List.forall_mem_cons.mp h
    rw [List.filterMap_cons, hv, Option.map_some, List.map_cons, ih hrows]

theorem leftJoin_entries (d : Dict κ ν) : leftJoin (fun x entry => decide (entry.1 = key x)) rows d.entries =
    rows.map fun x => (x, (d.get? (key x)).map fun v => (key x, v)) := by
  induction rows with
  | nil => rfl
  | cons x rows ih =>
    rw [leftJoin] at ih
    have hfilter := filter_entries d (key x) fun _ => true
    simp only [Bool.and_true] at hfilter
    rw [leftJoin, List.flatMap_cons, ih, hfilter, List.map_cons]
    cases d.get? (key x) <;> rfl

end Keyed

end FidbPoc.Lib.Joins
