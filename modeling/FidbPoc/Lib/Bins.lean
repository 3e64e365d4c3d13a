import Mathlib.Algebra.BigOperators.Group.List.Basic
import Mathlib.Algebra.Order.BigOperators.Group.List
import Mathlib.Algebra.Order.Field.Basic
import Mathlib.Tactic.Linarith

namespace FidbPoc.Lib.Bins

variable {α : Type} [Field α] [LinearOrder α] [IsStrictOrderedRing α]

/-- No two of the loads would fit into one bin. -/
def Saturated (capacity : α) (loads : List α) : Prop := loads.Pairwise fun a b => capacity < a + b

variable {capacity load : α} {loads : List α}

/-- A load that grows fits no better. -/
theorem Saturated.modify (h : Saturated capacity loads) (i : Nat) (hload : 0 ≤ load) :
    Saturated capacity (loads.modify i (· + load)) := by
  unfold Saturated at h ⊢
  induction loads generalizing i with
  | nil => simp
  | cons a loads ih =>
    obtain ⟨ha, hrest⟩ := List.pairwise_cons.mp h
    cases i with
    | zero =>
      rw [List.modify_zero_cons]
      refine List.pairwise_cons.mpr ⟨fun b hb => ?_, hrest⟩
      have hab := ha b hb
      linarith
    | succ i =>
      rw [List.modify_succ_cons]
      refine List.pairwise_cons.mpr ⟨fun b hb => ?_, ih hrest i⟩
      obtain ⟨j, hj⟩ := List.mem_iff_getElem?.mp hb
      rw [List.getElem?_modify, Option.map_eq_map, Option.map_eq_some_iff] at hj
      obtain ⟨b', hb', rfl⟩ := hj
      have hab := ha b' (List.mem_of_getElem? hb')
      split
      · linarith
      · exact hab

omit [IsStrictOrderedRing α] in
/-- A load that fits into no bin opens one of its own. -/
theorem Saturated.concat (h : Saturated capacity loads) (hload : ∀ a ∈ loads, capacity < a + load) :
    Saturated capacity (loads ++ [load]) := by
  refine List.pairwise_append.mpr ⟨h, List.pairwise_singleton _ _, fun a ha b hb => ?_⟩
  rw [List.mem_singleton.mp hb]
  exact hload a ha

/-- Of saturated loads at most one is light. -/
theorem Saturated.countP_light (h : Saturated capacity loads) : loads.countP (fun a => a ≤ capacity / 2) ≤ 1 := by
  unfold Saturated at h
  induction loads with
  | nil => simp
  | cons a loads ih =>
    obtain ⟨ha, hrest⟩ := List.pairwise_cons.mp h
    by_cases hlight : a ≤ capacity / 2
    · have hnone : loads.countP (fun b => b ≤ capacity / 2) = 0 := by
        refine List.countP_eq_zero.mpr fun b hb hlight' => ?_
        have hsum := ha b hb
        have hb' := of_decide_eq_true hlight'
        linarith
      rw [List.countP_cons, hnone]
      split <;> omega
    · rw [List.countP_cons, if_neg (by simpa using hlight)]
      exact ih hrest

theorem sum_heavy (hnonneg : ∀ a ∈ loads, 0 ≤ a) :
    ((loads.length : α) - (loads.countP fun a => a ≤ capacity / 2)) * (capacity / 2) ≤ loads.sum := by
  induction loads with
  | nil => simp
  | cons a loads ih =>
    obtain ⟨ha, hrest⟩ := List.forall_mem_cons.mp hnonneg
    have hle := ih hrest
    rw [List.length_cons, List.sum_cons, List.countP_cons]
    by_cases hlight : a ≤ capacity / 2
    · simp only [hlight, decide_true, if_true]
      push_cast
      linarith
    · simp only [hlight, decide_false, Bool.false_eq_true, if_false]
      push_cast
      linarith

/-- Saturated bins number at most twice what the loads would fill, and one. -/
theorem Saturated.length_le (h : Saturated capacity loads) (hcapacity : 0 < capacity) (hnonneg : ∀ a ∈ loads, 0 ≤ a) :
    (loads.length : α) ≤ 2 * loads.sum / capacity + 1 := by
  have hlight : ((loads.countP fun a => a ≤ capacity / 2 : Nat) : α) ≤ 1 := by exact_mod_cast h.countP_light
  have hheavy := @sum_heavy α _ _ _ capacity loads hnonneg
  have hsum : ((loads.length : α) - 1) * (capacity / 2) ≤ loads.sum := by
    refine le_trans (mul_le_mul_of_nonneg_right ?_ (by linarith)) hheavy
    linarith
  have hdiv : (loads.length : α) - 1 ≤ 2 * loads.sum / capacity := by
    rw [le_div_iff₀ hcapacity]
    linarith
  linarith

end FidbPoc.Lib.Bins
