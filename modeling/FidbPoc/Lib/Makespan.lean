import Mathlib.Algebra.BigOperators.Group.List.Basic
import Mathlib.Algebra.Order.BigOperators.Group.List
import Mathlib.Algebra.Order.Ring.Nat
import Mathlib.Data.List.Perm.Subperm
import Mathlib.Tactic.Linarith

namespace FidbPoc.Lib.Makespan

variable {α : Type}

/-- What the jobs of one worker weigh. -/
def load (weight : α → Nat) (part : List α) : Nat := (part.map weight).sum

/-- List scheduling: every job goes to a worker with a least load. -/
inductive Assigns (weight : α → Nat) (m : Nat) : List α → List (List α) → Prop
  | start : Assigns weight m [] (List.replicate m [])
  | place {jobs : List α} {parts : List (List α)} {i : Nat} {part : List α} (job : α) (h : Assigns weight m jobs parts)
      (hi : parts[i]? = some part) (hleast : ∀ other ∈ parts, load weight part ≤ load weight other) :
      Assigns weight m (jobs ++ [job]) (parts.set i (part ++ [job]))

variable {weight : α → Nat} {m : Nat} {jobs : List α} {parts : List (List α)}

@[simp] theorem load_nil : load weight [] = 0 := rfl

@[simp] theorem load_cons (job : α) (part : List α) : load weight (job :: part) = weight job + load weight part := by
  simp [load]

@[simp] theorem load_concat (job : α) (part : List α) : load weight (part ++ [job]) = load weight part + weight job := by
  simp [load]

theorem load_sublist {part part' : List α} (h : part.Sublist part') : load weight part ≤ load weight part' :=
  (h.map weight).sum_le_sum fun _ _ => Nat.zero_le _

section Sums

theorem sum_parts_le (f : α → Nat) {c : Nat} (h : ∀ part ∈ parts, (part.map f).sum ≤ c) :
    (parts.flatten.map f).sum ≤ parts.length * c := by
  induction parts with
  | nil => simp
  | cons part rest ih =>
    obtain ⟨hpart, hrest⟩ := List.forall_mem_cons.mp h
    have hsum := ih hrest
    rw [List.flatten_cons, List.map_append, List.sum_append, List.length_cons, Nat.succ_mul]
    omega

theorem le_sum_parts (f : α → Nat) {c : Nat} (h : ∀ part ∈ parts, c ≤ (part.map f).sum) :
    parts.length * c ≤ (parts.flatten.map f).sum := by
  induction parts with
  | nil => simp
  | cons part rest ih =>
    obtain ⟨hpart, hrest⟩ := List.forall_mem_cons.mp h
    have hsum := ih hrest
    rw [List.flatten_cons, List.map_append, List.sum_append, List.length_cons, Nat.succ_mul]
    omega

/-- Parts of fewer jobs, none heavier than before. -/
theorem restrict {few : List α} {c : Nat} (h : few.Sublist parts.flatten) (hc : ∀ part ∈ parts, load weight part ≤ c) :
    ∃ parts' : List (List α), parts'.length = parts.length ∧ parts'.flatten = few ∧
      ∀ part ∈ parts', load weight part ≤ c := by
  induction parts generalizing few with
  | nil =>
    rw [List.flatten_nil, List.sublist_nil] at h
    exact ⟨[], rfl, h.symm, fun _ hm => absurd hm List.not_mem_nil⟩
  | cons part rest ih =>
    obtain ⟨hpart, hrest⟩ := List.forall_mem_cons.mp hc
    rw [List.flatten_cons] at h
    obtain ⟨first, others, rfl, hfirst, hothers⟩ := List.sublist_append_iff.mp h
    obtain ⟨parts', hlength, hflatten, hloads⟩ := ih hothers hrest
    refine ⟨first :: parts', by rw [List.length_cons, hlength, List.length_cons], ?_, ?_⟩
    · rw [List.flatten_cons, hflatten]
    · exact List.forall_mem_cons.mpr ⟨(load_sublist hfirst).trans hpart, hloads⟩

end Sums

section LastJob

variable {w limit : Nat} {part : List α}

/-- A job counts twice when no job as heavy as `w` fits beside it. -/
def share (weight : α → Nat) (w limit : Nat) (job : α) : Nat := if limit < weight job + w then 2 else 1

theorem one_le_share (job : α) : 1 ≤ share weight w limit job := by
  unfold share
  split <;> omega

/-- Where three jobs do not fit, the jobs of a worker within the limit count at most two. -/
theorem share_le_two (hthree : limit < 3 * w) (hw : ∀ job ∈ part, w ≤ weight job) (hload : load weight part ≤ limit) :
    (part.map (share weight w limit)).sum ≤ 2 := by
  match part with
  | [] => simp
  | [job] =>
    simp only [List.map_cons, List.map_nil, List.sum_cons, List.sum_nil, share]
    split <;> omega
  | [job, job'] =>
    have hjob := hw job (by simp)
    have hjob' := hw job' (by simp)
    simp only [load_cons, load_nil] at hload
    simp only [List.map_cons, List.map_nil, List.sum_cons, List.sum_nil, share]
    rw [if_neg (by omega), if_neg (by omega)]
    omega
  | job :: job' :: job'' :: rest =>
    have hjob := hw job (by simp)
    have hjob' := hw job' (by simp)
    have hjob'' := hw job'' (by simp)
    simp only [load_cons] at hload
    omega

/-- The jobs of a worker that the last one would overload count at least two. -/
theorem two_le_share (hw : w ≤ limit) (hload : limit < load weight part + w) :
    2 ≤ (part.map (share weight w limit)).sum := by
  match part with
  | [] =>
    rw [load_nil] at hload
    omega
  | [job] =>
    simp only [load_cons, load_nil] at hload
    simp only [List.map_cons, List.map_nil, List.sum_cons, List.sum_nil, share]
    rw [if_pos (by omega)]
    omega
  | job :: job' :: rest =>
    have hjob := @one_le_share _ weight w limit job
    have hjob' := @one_le_share _ weight w limit job'
    simp only [List.map_cons, List.sum_cons]
    omega

variable {best : List (List α)} {job : α}

/-- A last and lightest job that is heavier than a third of the limit stays within it. -/
theorem last_fits (hthree : limit < 3 * weight job) (hlight : ∀ other ∈ parts.flatten, weight job ≤ weight other)
    (hlength : best.length = parts.length) (hperm : best.flatten.Perm (parts.flatten ++ [job]))
    (hbest : ∀ part ∈ best, load weight part ≤ limit) (hleast : ∀ other ∈ parts, load weight part ≤ load weight other) :
    load weight part + weight job ≤ limit := by
  by_contra hover
  have hlight' : ∀ other ∈ best.flatten, weight job ≤ weight other := by
    intro other hother
    obtain hother | hother := List.mem_append.mp (hperm.mem_iff.mp hother)
    · exact hlight other hother
    · rw [List.mem_singleton.mp hother]
  have hjob : weight job ≤ limit := by
    obtain ⟨part, hpart, hmem⟩ := List.mem_flatten.mp (hperm.mem_iff.mpr (List.mem_append_right _ (List.mem_singleton_self job)))
    have hone := @load_sublist _ weight _ _ (List.singleton_sublist.mpr hmem)
    have hwhole := hbest part hpart
    rw [load_cons, load_nil] at hone
    omega
  -- no worker has room for the last job, so the placed jobs alone count as much as the best parts can
  have hupper := @sum_parts_le _ best (share weight (weight job) limit) 2 fun part hpart =>
    share_le_two hthree (fun other hother => hlight' other (List.mem_flatten.mpr ⟨part, hpart, hother⟩)) (hbest part hpart)
  have hlower := @le_sum_parts _ parts (share weight (weight job) limit) 2 fun other hother =>
    two_le_share hjob (by have hle := hleast other hother; omega)
  have hsum := (hperm.map (share weight (weight job) limit)).sum_eq
  have hlast := @one_le_share _ weight (weight job) limit job
  rw [List.map_append, List.sum_append, List.map_singleton, List.sum_singleton] at hsum
  rw [hlength] at hupper
  omega

/-- What the last and lightest job makes of a least load, against any other way to share out the jobs. -/
theorem last_bounded (hm : 0 < parts.length) (hlight : ∀ other ∈ parts.flatten, weight job ≤ weight other)
    (hlength : best.length = parts.length) (hperm : best.flatten.Perm (parts.flatten ++ [job]))
    (hbest : ∀ part ∈ best, load weight part ≤ limit) (hleast : ∀ other ∈ parts, load weight part ≤ load weight other) :
    3 * parts.length * (load weight part + weight job) ≤ (4 * parts.length - 1) * limit := by
  obtain ⟨k, hk⟩ := Nat.exists_eq_succ_of_ne_zero hm.ne'
  rw [hk]
  have hfactor : 4 * (k + 1) - 1 = 4 * k + 3 := by omega
  rw [hfactor]
  by_cases hthree : limit < 3 * weight job
  · have hfits := last_fits hthree hlight hlength hperm hbest hleast
    nlinarith [Nat.mul_le_mul_left (3 * (k + 1)) hfits, Nat.zero_le (k * limit)]
  · have hupper := @sum_parts_le _ best weight limit hbest
    have hlower := @le_sum_parts _ parts weight (load weight part) hleast
    have hsum := (hperm.map weight).sum_eq
    rw [List.map_append, List.sum_append, List.map_singleton, List.sum_singleton] at hsum
    rw [hlength] at hupper
    have haverage : (k + 1) * load weight part + weight job ≤ (k + 1) * limit := by
      change parts.length = k + 1 at hk
      rw [← hk]
      omega
    have hthird : k * (3 * weight job) ≤ k * limit := Nat.mul_le_mul_left k (Nat.le_of_not_lt hthree)
    nlinarith [haverage, hthird]

end LastJob

namespace Assigns

theorem length_eq (h : Assigns weight m jobs parts) : parts.length = m := by
  induction h with
  | start => exact List.length_replicate
  | place job h hi hleast ih => rw [List.length_set, ih]

/-- Putting one more job on a part adds just that job. -/
theorem flatten_set {i : Nat} {part : List α} (job : α) (hi : parts[i]? = some part) :
    (parts.set i (part ++ [job])).flatten.Perm (parts.flatten ++ [job]) := by
  induction parts generalizing i with
  | nil => cases hi
  | cons first rest ih =>
    cases i with
    | zero =>
      cases hi
      rw [List.set_cons_zero, List.flatten_cons, List.flatten_cons, List.append_assoc, List.append_assoc]
      exact List.perm_append_comm.append_left _
    | succ i =>
      rw [List.set_cons_succ, List.flatten_cons, List.flatten_cons, List.append_assoc]
      exact (ih hi).append_left _

theorem flatten_perm (h : Assigns weight m jobs parts) : parts.flatten.Perm jobs := by
  induction h with
  | start => simp
  | place job h hi hleast ih => exact (flatten_set job hi).trans (ih.append_right _)

/-- A part that was changed is the one that got the job; the others are as before. -/
theorem mem_set {i : Nat} {changed other : List α} (h : other ∈ parts.set i changed) : other = changed ∨ other ∈ parts :=
  (List.mem_or_eq_of_mem_set h).symm

/-- No load exceeds another by more than the largest weight. -/
theorem spread {largest : Nat} (h : Assigns weight m jobs parts) (hlargest : ∀ job ∈ jobs, weight job ≤ largest) :
    ∀ part ∈ parts, ∀ other ∈ parts, load weight part ≤ load weight other + largest := by
  induction h with
  | start =>
    intro part hpart other hother
    rw [List.eq_of_mem_replicate hpart, load_nil]
    exact Nat.zero_le _
  | @place jobs parts i least job h hi hleast ih =>
    have hold := ih fun job hjob => hlargest job (List.mem_append_left _ hjob)
    have hjob := hlargest job (List.mem_append_right _ (List.mem_singleton_self job))
    have hmem : least ∈ parts := List.mem_of_getElem? hi
    intro part hpart other hother
    obtain rfl | hpart := mem_set hpart <;> obtain rfl | hother := mem_set hother
    · omega
    · have hle := hleast other hother
      rw [load_concat]
      omega
    · have hle := hold part hpart least hmem
      rw [load_concat]
      omega
    · exact hold part hpart other hother

/-- With positive weights a second job goes to a worker only when no worker is without one. -/
theorem filled_or_single (h : Assigns weight m jobs parts) (hpos : ∀ job ∈ jobs, 0 < weight job) :
    (∀ part ∈ parts, part ≠ []) ∨ ∀ part ∈ parts, part.length ≤ 1 := by
  induction h with
  | start => exact .inr fun part hpart => by simp [List.eq_of_mem_replicate hpart]
  | @place jobs parts i least job h hi hleast ih =>
    have hold := fun job hjob => hpos job (List.mem_append_left _ hjob)
    have hfilled : (∀ part ∈ parts, part ≠ []) → ∀ part ∈ parts.set i (least ++ [job]), part ≠ [] := by
      intro hall part hpart
      obtain rfl | hpart := mem_set hpart
      · simp
      · exact hall part hpart
    obtain hall | hsingle := ih hold
    · exact .inl (hfilled hall)
    · by_cases hempty : [] ∈ parts
      · have hzero : load weight least = 0 := Nat.le_zero.mp (hleast [] hempty)
        have hleastNil : least = [] := by
          cases hcons : least with
          | nil => rfl
          | cons first rest =>
            have hfirst : first ∈ parts.flatten :=
              List.mem_flatten.mpr ⟨least, List.mem_of_getElem? hi, by simp [hcons]⟩
            have hpositive := hold first (h.flatten_perm.mem_iff.mp hfirst)
            rw [hcons, load_cons] at hzero
            omega
        refine .inr fun part hpart => ?_
        obtain rfl | hpart := mem_set hpart
        · simp [hleastNil]
        · exact hsingle part hpart
      · exact .inl (hfilled fun part hpart hnil => hempty (hnil ▸ hpart))

/-- As many positive jobs as workers leave none without a job. -/
theorem filled (h : Assigns weight m jobs parts) (hpos : ∀ job ∈ jobs, 0 < weight job) (hm : m ≤ jobs.length) :
    ∀ part ∈ parts, part ≠ [] := by
  obtain hall | hsingle := h.filled_or_single hpos
  · exact hall
  · intro part hpart hnil
    obtain ⟨before, after, rfl⟩ := List.append_of_mem hpart
    have hcount := h.flatten_perm.length_eq
    have hlength := h.length_eq
    have hbefore := @sum_parts_le _ before (fun _ => 1) 1 fun part hpart => by
      simpa using hsingle part (by simp [hpart])
    have hafter := @sum_parts_le _ after (fun _ => 1) 1 fun part hpart => by
      simpa using hsingle part (by simp [hpart])
    simp only [List.map_const', List.sum_replicate_nat, Nat.mul_one] at hbefore hafter
    rw [hnil, List.flatten_append, List.flatten_cons, List.nil_append, List.length_append] at hcount
    rw [List.length_append, List.length_cons] at hlength
    omega

/-- The bound of longest processing time first: jobs that come by descending weight give
no load above `(4 m - 1) / (3 m)` of what any other way to share them out needs. -/
theorem bounded {all : List α} {best : List (List α)} {limit : Nat} (h : Assigns weight m jobs parts)
    (hsorted : jobs.Pairwise fun a b => weight b ≤ weight a) (hall : jobs.Sublist all) (hlength : best.length = m)
    (hperm : best.flatten.Perm all) (hbest : ∀ part ∈ best, load weight part ≤ limit) :
    ∀ part ∈ parts, 3 * m * load weight part ≤ (4 * m - 1) * limit := by
  induction h with
  | start =>
    intro part hpart
    rw [List.eq_of_mem_replicate hpart, load_nil, Nat.mul_zero]
    exact Nat.zero_le _
  | @place jobs parts i least job h hi hleast ih =>
    obtain ⟨hsorted', _, hlight⟩ := List.pairwise_append.mp hsorted
    intro part hpart
    obtain rfl | hpart := mem_set hpart
    · have hparts := h.length_eq
      obtain ⟨few, hfew, hsub⟩ := hall.subperm.trans hperm.symm.subperm
      obtain ⟨best', hlength', hflatten, hloads⟩ := restrict hsub hbest
      have hpositive : 0 < parts.length := List.length_pos_of_mem (List.mem_of_getElem? hi)
      rw [load_concat, ← hparts]
      refine last_bounded hpositive (fun other hother => ?_) (hlength'.trans (hlength.trans hparts.symm)) ?_ hloads hleast
      · exact hlight other (h.flatten_perm.mem_iff.mp hother) job (List.mem_singleton_self job)
      · rw [hflatten]
        exact hfew.trans (h.flatten_perm.symm.append_right _)
    · exact ih hsorted' ((List.sublist_append_left _ _).trans hall) part hpart

end Assigns

end FidbPoc.Lib.Makespan
