import Mathlib.Data.List.Induction
import Mathlib.Data.List.Nodup
import Mathlib.Data.List.Perm.Subperm
import Mathlib.Data.List.Sort

namespace FidbPoc.Lib.Table

variable {α β κ : Type}

/-- `UPDATE rows SET f WHERE p`, on a table kept as the list of its rows. -/
def updateWhere (p : α → Bool) (f : α → α) (rows : List α) : List α :=
  rows.map (fun r => if p r then f r else r)

theorem mem_updateWhere {p : α → Bool} {f : α → α} {rows : List α} {x : α} :
    x ∈ updateWhere p f rows ↔ ∃ r ∈ rows, (if p r then f r else r) = x := by
  simp [updateWhere]

@[simp] theorem updateWhere_nil (p : α → Bool) (f : α → α) : updateWhere p f [] = [] := rfl

@[simp] theorem length_updateWhere (p : α → Bool) (f : α → α) (rows : List α) :
    (updateWhere p f rows).length = rows.length := by
  simp [updateWhere]

theorem updateWhere_append (p : α → Bool) (f : α → α) (rows rows' : List α) :
    updateWhere p f (rows ++ rows') = updateWhere p f rows ++ updateWhere p f rows' := by
  simp [updateWhere]

theorem updateWhere_eq_self {p : α → Bool} {f : α → α} {rows : List α}
    (h : ∀ r ∈ rows, p r = false) : updateWhere p f rows = rows := by
  unfold updateWhere
  conv_rhs => rw [← List.map_id rows]
  exact List.map_congr_left fun r hr => by simp [h r hr]

theorem updateWhere_congr {p q : α → Bool} {f g : α → α} {rows : List α}
    (h : ∀ r ∈ rows, (if p r then f r else r) = if q r then g r else r) :
    updateWhere p f rows = updateWhere q g rows :=
  List.map_congr_left h

/-- A column that the assignment leaves alone keeps its values. -/
theorem map_updateWhere {p : α → Bool} {f : α → α} (column : α → β)
    (h : ∀ r, p r = true → column (f r) = column r) (rows : List α) :
    (updateWhere p f rows).map column = rows.map column := by
  simp only [updateWhere, List.map_map]
  refine List.map_congr_left fun r _ => ?_
  by_cases hp : p r = true
  · simp [hp, h r hp]
  · simp [hp]

/-- Selecting by an unassigned column commutes with the update. -/
theorem filter_updateWhere {p q : α → Bool} {f : α → α}
    (h : ∀ r, p r = true → q (f r) = q r) (rows : List α) :
    (updateWhere p f rows).filter q = updateWhere p f (rows.filter q) := by
  induction rows with
  | nil => rfl
  | cons r rows ih =>
    have hq : q (if p r then f r else r) = q r := by
      by_cases hp : p r = true
      · simp [hp, h r hp]
      · simp [hp]
    simp only [updateWhere, List.map_cons, List.filter_cons, hq] at ih ⊢
    by_cases hr : q r = true
    · simp [hr, ih]
    · simp [hr, ih]

theorem find?_updateWhere {p q : α → Bool} {f : α → α}
    (h : ∀ r, p r = true → q (f r) = q r) (rows : List α) :
    (updateWhere p f rows).find? q = (rows.find? q).map (fun r => if p r then f r else r) := by
  rw [← List.head?_filter, ← List.head?_filter, filter_updateWhere h]
  cases rows.filter q <;> simp [updateWhere]

/-- Rows found by a unique key: the lookup returns the row itself. -/
theorem find?_key [DecidableEq κ] {key : α → κ} {rows : List α} (hnodup : (rows.map key).Nodup) {r : α}
    (hr : r ∈ rows) : rows.find? (fun x => decide (key x = key r)) = some r := by
  induction rows with
  | nil => cases hr
  | cons x rows ih =>
    simp only [List.map_cons, List.nodup_cons] at hnodup
    rcases List.mem_cons.mp hr with rfl | hr
    · simp
    · have hx : key x ≠ key r := fun he => hnodup.1 (he ▸ List.mem_map_of_mem hr)
      simp [hx, ih hnodup.2 hr]

/-- Rows selected by a unique key are one row. -/
theorem filter_key [DecidableEq κ] {key : α → κ} {rows : List α} (hnodup : (rows.map key).Nodup) {r : α} (hr : r ∈ rows) :
    rows.filter (fun x => decide (key x = key r)) = [r] := by
  induction rows with
  | nil => cases hr
  | cons x rows ih =>
    obtain ⟨hx, hnodup⟩ := List.nodup_cons.mp hnodup
    obtain rfl | hr := List.mem_cons.mp hr
    · rw [List.filter_cons_of_pos (by simp), List.filter_eq_nil_iff.mpr]
      intro y hy he
      exact hx ((of_decide_eq_true he) ▸ List.mem_map_of_mem hy)
    · have hne : key x ≠ key r := fun he => hx (he ▸ List.mem_map_of_mem hr)
      rw [List.filter_cons_of_neg (by simpa using hne), ih hnodup hr]

theorem key_injective {key : α → κ} {rows : List α} (hnodup : (rows.map key).Nodup) {x y : α}
    (hx : x ∈ rows) (hy : y ∈ rows) (h : key x = key y) : x = y :=
  List.inj_on_of_nodup_map hnodup hx hy h

/-- Updating selected rows one after the other, each by its unique key, is one
update of the whole selection. -/
theorem foldl_updateWhere_key [DecidableEq κ] (key : α → κ) (p : α → Bool) (f : α → α → α) {rows : List α}
    (hnodup : (rows.map key).Nodup) (hkey : ∀ r x, key (f r x) = key x)
    (selected : List α) (hsub : ∀ r ∈ selected, r ∈ rows) (hsel : (selected.map key).Nodup) :
    selected.foldl (fun t r => updateWhere (fun x => decide (key x = key r) && p x) (f r) t) rows =
      updateWhere (fun x => decide (key x ∈ selected.map key) && p x) (fun x => f x x) rows := by
  induction selected using List.reverseRecOn with
  | nil => exact (updateWhere_eq_self (by simp)).symm
  | append_singleton selected r ih =>
    have hr : r ∈ rows := hsub r (by simp)
    simp only [List.map_append, List.map_cons, List.map_nil, List.nodup_append,
      List.mem_singleton] at hsel
    have hfresh : key r ∉ selected.map key := fun h => hsel.2.2 _ h _ rfl rfl
    rw [List.foldl_append, ih (fun x hx => hsub x (by simp [hx])) hsel.1]
    simp only [List.foldl_cons, List.foldl_nil, updateWhere, List.map_map]
    refine List.map_congr_left fun x hx => ?_
    have hlast : (selected ++ [r]).map key = selected.map key ++ [key r] := by simp
    have hkey' : key (if (decide (key x ∈ selected.map key) && p x) = true then f x x else x) = key x := by
      split
      · exact hkey x x
      · rfl
    by_cases hkx : key x = key r
    · have hxr : x = r := key_injective hnodup hx hr hkx
      subst hxr
      simp only [hfresh, decide_false, Bool.false_and, Bool.false_eq_true, if_false, Function.comp_apply,
        decide_true, Bool.true_and, hlast, List.mem_append, List.mem_singleton, or_true]
    · have hout : key (if (decide (key x ∈ selected.map key) && p x) = true then f x x else x) ≠ key r :=
        fun he => hkx (hkey'.symm.trans he)
      simp only [Function.comp_apply, hout, decide_false, Bool.false_and, Bool.false_eq_true, if_false,
        hlast, List.mem_append, List.mem_singleton, hkx, or_false]

/-- An `AUTOINCREMENT` column: the rows are numbered from one in insertion order. -/
def Serial (id : α → Nat) (rows : List α) : Prop :=
  rows.map id = List.range' 1 rows.length

theorem serial_nil (id : α → Nat) : Serial id [] := rfl

theorem Serial.nodup {id : α → Nat} {rows : List α} (h : Serial id rows) : (rows.map id).Nodup := by
  rw [h]
  exact List.nodup_range'

theorem Serial.append {id : α → Nat} {rows : List α} (h : Serial id rows) {r : α}
    (hr : id r = rows.length + 1) : Serial id (rows ++ [r]) := by
  have hlen : (rows ++ [r]).length = rows.length + 1 := by simp
  rw [Serial, hlen, List.range'_1_concat, List.map_append, h]
  simp [hr, Nat.add_comm]

theorem Serial.updateWhere {id : α → Nat} {rows : List α} (hs : Serial id rows) {p : α → Bool}
    {f : α → α} (h : ∀ r, p r = true → id (f r) = id r) : Serial id (updateWhere p f rows) := by
  rw [Serial, map_updateWhere id h, length_updateWhere]
  exact hs

/-- A table with unique keys has no more rows than any list its keys occur in. -/
theorem length_le_of_keys {key : α → κ} {rows : List α} {keys : List κ} (hnodup : (rows.map key).Nodup)
    (h : ∀ r ∈ rows, key r ∈ keys) : rows.length ≤ keys.length := by
  have hsub : rows.map key ⊆ keys := by
    intro k hk
    obtain ⟨r, hr, rfl⟩ := List.mem_map.mp hk
    exact h r hr
  simpa using (List.subperm_of_subset hnodup hsub).length_le

/-- A test that holds of one row, and of no row with another key, counts that row. -/
theorem countP_key [DecidableEq κ] {key : α → κ} {rows : List α} (hn : (rows.map key).Nodup) {r : α} (hr : r ∈ rows)
    {p : α → Bool} (hp : ∀ x, p x = true → key x = key r) (hpr : p r = true) : rows.countP p = 1 := by
  have hcongr : rows.countP p = rows.countP (fun x => key x == key r) := by
    refine List.countP_congr fun x hx => ⟨fun h => by simpa using hp x h, fun h => ?_⟩
    rw [key_injective hn hx hr (by simpa using h)]
    exact hpr
  rw [hcongr, ← List.count_eq_one_of_mem hn (List.mem_map_of_mem hr), List.count, List.countP_map]
  rfl

/-- The first row of an ordered selection that passes a test comes before every row that does. -/
theorem find?_insertionSort {r : α → α → Prop} [DecidableRel r] [Std.Total r] [IsTrans α r] {p : α → Bool} {rows : List α}
    {a : α} (h : (rows.insertionSort r).find? p = some a) : a ∈ rows ∧ p a = true ∧ ∀ b ∈ rows, p b = true → r a b := by
  obtain ⟨hp, before, later, hrows, hbefore⟩ := List.find?_eq_some_iff_append.mp h
  have hsorted : (before ++ a :: later).Pairwise r := by
    rw [← hrows]
    exact List.pairwise_insertionSort r rows
  have hmem : ∀ b, b ∈ rows ↔ b ∈ before ++ a :: later := by
    intro b
    rw [← hrows, List.mem_insertionSort]
  refine ⟨(hmem a).mpr (by simp), hp, fun b hb hpb => ?_⟩
  rcases List.mem_append.mp ((hmem b).mp hb) with hb | hb
  · have hnot := hbefore b hb
    rw [hpb] at hnot
    cases hnot
  · rcases List.mem_cons.mp hb with rfl | hb
    · exact (Std.Total.total b b).elim id id
    · exact (List.pairwise_cons.mp (List.pairwise_append.mp hsorted).2.1).1 b hb

/-- The row with a key, and the rows with other keys. -/
theorem perm_cons_filter [DecidableEq κ] {key : α → κ} {rows : List α} (hnodup : (rows.map key).Nodup) {r : α}
    (hr : r ∈ rows) : rows.Perm (r :: rows.filter fun x => key x ≠ key r) := by
  induction rows with
  | nil => cases hr
  | cons x rows ih =>
    obtain ⟨hx, hrows⟩ := List.nodup_cons.mp hnodup
    rcases List.mem_cons.mp hr with rfl | hr
    · have hrest : rows.filter (fun y => key y ≠ key r) = rows :=
        List.filter_eq_self.mpr fun y hy => decide_eq_true fun he => hx (he ▸ List.mem_map_of_mem hy)
      rw [List.filter_cons_of_neg (by simp), hrest]
    · have hne : key x ≠ key r := fun he => hx (he ▸ List.mem_map_of_mem hr)
      rw [List.filter_cons_of_pos (by simpa using hne)]
      exact ((ih hrows hr).cons x).trans (.swap _ _ _)

end FidbPoc.Lib.Table
