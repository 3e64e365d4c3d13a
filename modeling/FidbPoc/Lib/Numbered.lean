import FidbPoc.Lib.Dict
import Mathlib.Data.List.Range

namespace FidbPoc.Lib.Numbered

variable {κ ν : Type} [DecidableEq κ]

/-- `while exists(name(n)): n += 1`, for at most `fuel` turns. -/
def firstFree (name : Nat → κ) (taken : List κ) : Nat → Nat → Nat
  | 0, n => n
  | fuel + 1, n => if name n ∈ taken then firstFree name taken fuel (n + 1) else n

/-- The first number from one on whose name is not taken. As many turns as there are names are enough. -/
def free (name : Nat → κ) (taken : List κ) : Nat := firstFree name taken taken.length 1

theorem firstFree_spec (name : Nat → κ) (taken : List κ) (fuel n : Nat) :
    n ≤ firstFree name taken fuel n ∧ (∀ i, n ≤ i → i < firstFree name taken fuel n → name i ∈ taken) ∧
      (name (firstFree name taken fuel n) ∉ taken ∨ firstFree name taken fuel n = n + fuel) := by
  induction fuel generalizing n with
  | zero => exact ⟨le_rfl, fun i hn hi => absurd hn (Nat.not_le.mpr hi), .inr rfl⟩
  | succ fuel ih =>
    by_cases hn : name n ∈ taken
    · have hstep : firstFree name taken (fuel + 1) n = firstFree name taken fuel (n + 1) := if_pos hn
      obtain ⟨hle, hbefore, hend⟩ := ih (n + 1)
      rw [hstep]
      refine ⟨by omega, fun i hi hlt => ?_, hend.imp_right fun h => by omega⟩
      by_cases h : i = n
      · exact h ▸ hn
      · exact hbefore i (by omega) hlt
    · have hstep : firstFree name taken (fuel + 1) n = n := if_neg hn
      rw [hstep]
      exact ⟨le_rfl, fun i hi hlt => absurd hi (Nat.not_le.mpr hlt), .inl hn⟩

theorem one_le_free (name : Nat → κ) (taken : List κ) : 1 ≤ free name taken := (firstFree_spec ..).1

theorem mem_of_lt_free {name : Nat → κ} {taken : List κ} {i : Nat} (hone : 1 ≤ i) (hi : i < free name taken) :
    name i ∈ taken :=
  (firstFree_spec name taken taken.length 1).2.1 i hone hi

omit [DecidableEq κ] in
/-- More names than are taken cannot all be taken. -/
theorem length_le_of_forall_mem {name : Nat → κ} (hname : Function.Injective name) {taken : List κ} {count : Nat}
    (h : ∀ i, 1 ≤ i → i < 1 + count → name i ∈ taken) : count ≤ taken.length := by
  have hnodup : ((List.range' 1 count).map name).Nodup := (List.nodup_range' ..).map hname
  have hsubset : (List.range' 1 count).map name ⊆ taken := by
    intro k hk
    obtain ⟨i, hi, rfl⟩ := List.mem_map.mp hk
    obtain ⟨hone, hlt⟩ := List.mem_range'_1.mp hi
    exact h i hone hlt
  simpa using (hnodup.subperm hsubset).length_le

/-- The number found is free whatever the directory holds. -/
theorem free_not_mem {name : Nat → κ} (hname : Function.Injective name) (taken : List κ) :
    name (free name taken) ∉ taken := by
  obtain hnot | hend := (firstFree_spec name taken taken.length 1).2.2
  · exact hnot
  · intro hmem
    have hall : ∀ i, 1 ≤ i → i < 1 + (taken.length + 1) → name i ∈ taken := by
      intro i hone hlt
      by_cases hi : i = free name taken
      · exact hi ▸ hmem
      · have hfree : free name taken = 1 + taken.length := hend
        exact mem_of_lt_free hone (by omega)
    have := length_le_of_forall_mem hname hall
    omega

/-- The files of a directory that nothing else writes to: numbered from one on, in the order of their writing. -/
def Consecutive (name : Nat → κ) (taken : List κ) : Prop := taken = (List.range' 1 taken.length).map name

omit [DecidableEq κ] in
theorem consecutive_nil (name : Nat → κ) : Consecutive name [] := rfl

omit [DecidableEq κ] in
theorem Consecutive.mem_iff {name : Nat → κ} {taken : List κ} (h : Consecutive name taken) {k : κ} :
    k ∈ taken ↔ ∃ n, 1 ≤ n ∧ n ≤ taken.length ∧ name n = k := by
  conv_lhs => rw [h]
  rw [List.mem_map]
  refine exists_congr fun n => ?_
  rw [List.mem_range'_1, and_assoc, Nat.add_comm, Nat.lt_succ_iff]

theorem Consecutive.free_eq {name : Nat → κ} (hname : Function.Injective name) {taken : List κ} (h : Consecutive name taken) :
    free name taken = taken.length + 1 := by
  have hone := one_le_free name taken
  have hnot := free_not_mem hname taken
  by_contra hne
  rcases Nat.lt_or_gt_of_ne hne with hlt | hgt
  · exact hnot (h.mem_iff.mpr ⟨_, hone, by omega, rfl⟩)
  · obtain ⟨n, _, hn, hnn⟩ := h.mem_iff.mp (mem_of_lt_free (Nat.succ_pos taken.length) hgt)
    have := hname hnn
    omega

omit [DecidableEq κ] in
theorem consecutive_concat {name : Nat → κ} {taken : List κ} {k : κ} :
    Consecutive name (taken ++ [k]) ↔ Consecutive name taken ∧ k = name (taken.length + 1) := by
  unfold Consecutive
  rw [List.length_append, List.length_singleton, List.range'_1_concat, List.map_append, List.map_singleton, Nat.add_comm 1]
  constructor
  · intro h
    obtain ⟨htaken, hk⟩ := List.append_inj h (by simp)
    exact ⟨htaken, List.singleton_injective hk⟩
  · rintro ⟨htaken, rfl⟩
    rw [← htaken]

omit [DecidableEq κ] in
/-- A later file has a greater number. -/
theorem Consecutive.pairwise {name : Nat → κ} (hname : Function.Injective name) {taken : List κ}
    (h : Consecutive name taken) : taken.Pairwise fun k k' => ∀ m n, name m = k → name n = k' → m < n := by
  rw [h, List.pairwise_map]
  refine (List.pairwise_lt_range' ..).imp fun hlt m n hm hn => ?_
  rwa [hname hm, hname hn]

omit [DecidableEq κ] in
/-- The files numbered above a bound are those that are left when as many are dropped. -/
theorem Consecutive.countP_above {name : Nat → κ} {read : κ → Option Nat} (hread : ∀ n, read (name n) = some n)
    (p : ν → Bool) (bound : Nat) {entries : List (κ × ν)} (h : Consecutive name (entries.map Prod.fst)) :
    entries.countP (fun e => match read e.1 with
      | none => false
      | some n => bound < n && p e.2) = (entries.drop bound).countP fun e => p e.2 := by
  induction entries using List.reverseRecOn with
  | nil => simp
  | append_singleton entries e ih =>
    rw [List.map_append, List.map_singleton, consecutive_concat, List.length_map] at h
    rw [List.countP_append, ih h.1, List.countP_singleton, h.2, hread]
    by_cases hb : bound ≤ entries.length
    · rw [List.drop_append_of_le_length hb, List.countP_append, List.countP_singleton]
      simp [Nat.lt_succ_of_le hb]
    · have hlength : (entries ++ [e]).length ≤ bound := by simp; omega
      rw [List.drop_eq_nil_of_le hlength, List.drop_eq_nil_of_le (by omega)]
      simp; omega

end FidbPoc.Lib.Numbered
