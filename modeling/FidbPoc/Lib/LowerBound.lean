import Mathlib.Order.Basic

namespace FidbPoc.Lib

/-- The half-open search for the first index that is not below, in `u32` arithmetic. -/
def lowerBound (below : UInt32 → Bool) (low high : UInt32) : UInt32 :=
  if h : low < high then
    let middle := low + (high - low) / 2
    if below middle then lowerBound below (middle + 1) high else lowerBound below low middle
  else low
termination_by high.toNat - low.toNat
decreasing_by
  all_goals
    rw [UInt32.lt_iff_toNat_lt] at h
    have hhigh := high.toNat_lt
    have hle : low ≤ high := UInt32.le_iff_toNat_le.mpr (by omega)
    simp only [UInt32.toNat_add, UInt32.toNat_div, UInt32.toNat_sub_of_le _ _ hle, UInt32.reduceToNat]
    omega

/-- The middle of a non-empty range lies in it, and neither sum wraps around. -/
theorem middle_bounds {low high : UInt32} (h : low < high) :
    (low + (high - low) / 2).toNat = low.toNat + (high.toNat - low.toNat) / 2 ∧
      (low + (high - low) / 2 + 1).toNat = low.toNat + (high.toNat - low.toNat) / 2 + 1 := by
  rw [UInt32.lt_iff_toNat_lt] at h
  have hhigh := high.toNat_lt
  have hle : low ≤ high := UInt32.le_iff_toNat_le.mpr (by omega)
  simp only [UInt32.toNat_add, UInt32.toNat_div, UInt32.toNat_sub_of_le _ _ hle, UInt32.reduceToNat]
  omega

/-- Where everything before an index that is below is below, the search separates the two kinds. -/
theorem lowerBound_spec {below : UInt32 → Bool} {low high : UInt32} (hle : low ≤ high)
    (hmono : ∀ i j, i ≤ j → j < high → below j = true → below i = true) :
    low ≤ lowerBound below low high ∧ lowerBound below low high ≤ high ∧
      (∀ i, low ≤ i → i < lowerBound below low high → below i = true) ∧
      ∀ i, lowerBound below low high ≤ i → i < high → below i = false := by
  induction low, high using lowerBound.induct below with
  | case1 low high h middle hbelow ih =>
    obtain ⟨hmiddle, hnext⟩ := middle_bounds h
    change middle.toNat = _ at hmiddle
    change (middle + 1).toNat = _ at hnext
    have hstep : lowerBound below low high = lowerBound below (middle + 1) high := by
      rw [lowerBound.eq_1 below low high, dif_pos h]
      exact if_pos hbelow
    rw [hstep]
    simp only [UInt32.le_iff_toNat_le, UInt32.lt_iff_toNat_lt] at h hle hmono ih ⊢
    obtain ⟨hlow, hhigh, hbefore, hafter⟩ := ih (by omega) hmono
    refine ⟨by omega, hhigh, fun i hi hlt => ?_, hafter⟩
    by_cases him : i.toNat ≤ middle.toNat
    · exact hmono i middle him (by omega) hbelow
    · exact hbefore i (by omega) hlt
  | case2 low high h middle hbelow ih =>
    obtain ⟨hmiddle, -⟩ := middle_bounds h
    change middle.toNat = _ at hmiddle
    have hstep : lowerBound below low high = lowerBound below low middle := by
      rw [lowerBound.eq_1 below low high, dif_pos h]
      exact if_neg hbelow
    rw [hstep]
    simp only [UInt32.le_iff_toNat_le, UInt32.lt_iff_toNat_lt] at h hle hmono ih ⊢
    obtain ⟨hlow, hhigh, hbefore, hafter⟩ := ih (by omega) fun i j hij hj => hmono i j hij (by omega)
    refine ⟨hlow, by omega, hbefore, fun i hi hlt => ?_⟩
    by_cases him : i.toNat < middle.toNat
    · exact hafter i hi him
    · by_contra hi
      exact hbelow (hmono middle i (by omega) hlt (by simpa using hi))
  | case3 low high h =>
    rw [lowerBound, dif_neg h]
    simp only [UInt32.le_iff_toNat_le, UInt32.lt_iff_toNat_lt] at h hle ⊢
    refine ⟨Nat.le_refl _, hle, fun i hi hlt => ?_, fun i hi hlt => ?_⟩
    · omega
    · omega

/-- The same for the indices of a sequence that `u32` can count. -/
theorem lowerBound_indices {below : UInt32 → Bool} {count : Nat} (hcount : count < 4294967296)
    (hmono : ∀ i j : Nat, i ≤ j → j < count → below (UInt32.ofNat j) = true → below (UInt32.ofNat i) = true) :
    (lowerBound below 0 (UInt32.ofNat count)).toNat ≤ count ∧
      (∀ i < (lowerBound below 0 (UInt32.ofNat count)).toNat, below (UInt32.ofNat i) = true) ∧
      ∀ i, (lowerBound below 0 (UInt32.ofNat count)).toNat ≤ i → i < count → below (UInt32.ofNat i) = false := by
  have hword : ∀ {i : Nat}, i < 4294967296 → (UInt32.ofNat i).toNat = i := fun hi => UInt32.toNat_ofNat_of_lt' hi
  have hmono' : ∀ x y : UInt32, x ≤ y → y < UInt32.ofNat count → below y = true → below x = true := by
    intro x y hxy hy hbelow
    rw [UInt32.lt_iff_toNat_lt, hword hcount] at hy
    rw [← UInt32.ofNat_toNat (x := x)]
    refine hmono x.toNat y.toNat (UInt32.le_iff_toNat_le.mp hxy) hy ?_
    rw [UInt32.ofNat_toNat]
    exact hbelow
  obtain ⟨-, hle, hbefore, hafter⟩ := lowerBound_spec UInt32.zero_le hmono'
  rw [UInt32.le_iff_toNat_le, hword hcount] at hle
  refine ⟨hle, fun i hi => ?_, fun i hi hlt => ?_⟩
  · apply hbefore _ UInt32.zero_le
    rw [UInt32.lt_iff_toNat_lt, hword (by omega)]
    exact hi
  · apply hafter
    · rw [UInt32.le_iff_toNat_le, hword (by omega)]
      exact hi
    · rw [UInt32.lt_iff_toNat_lt, hword (by omega), hword hcount]
      exact hlt

end FidbPoc.Lib
