import Mathlib.Algebra.Order.Ring.Nat
import Mathlib.Data.List.Basic

namespace FidbPoc.Lib.Lexicographic

open Std

/-- The number of a digit sequence, the most significant digit first, read after `start`. -/
def value (base start : Nat) (digits : List Nat) : Nat := digits.foldl (fun v d => base * v + d) start

/-- A number decides by its leading part, then by its last digit. -/
theorem compare_step {base a b x y : Nat} (hx : x < base) (hy : y < base) :
    compare (base * a + x) (base * b + y) = (compare a b).then (compare x y) := by
  rcases Nat.lt_trichotomy a b with h | rfl | h
  · have hmul : base * a + base ≤ base * b := Nat.mul_le_mul_left base h
    rw [Nat.compare_eq_lt.mpr h, Ordering.lt_then, Nat.compare_eq_lt]
    omega
  · rw [Nat.compare_eq_eq.mpr rfl, Ordering.eq_then]
    rcases Nat.lt_trichotomy x y with h | rfl | h
    · rw [Nat.compare_eq_lt.mpr h, Nat.compare_eq_lt]
      omega
    · rw [Nat.compare_eq_eq.mpr rfl, Nat.compare_eq_eq.mpr rfl]
    · rw [Nat.compare_eq_gt.mpr h, Nat.compare_eq_gt]
      omega
  · have hmul : base * b + base ≤ base * a := Nat.mul_le_mul_left base h
    rw [Nat.compare_eq_gt.mpr h, Ordering.gt_then, Nat.compare_eq_gt]
    omega

/-- Digit sequences of one length are ordered as their numbers are. -/
theorem compare_value {base : Nat} {as bs : List Nat} (hlength : as.length = bs.length) (ha : ∀ x ∈ as, x < base)
    (hb : ∀ y ∈ bs, y < base) (a b : Nat) :
    compare (value base a as) (value base b bs) = (compare a b).then (List.compareLex compare as bs) := by
  induction as generalizing bs a b with
  | nil =>
    obtain rfl := List.length_eq_zero_iff.mp hlength.symm
    simp [value, List.compareLex]
  | cons x as ih =>
    cases bs with
    | nil => cases hlength
    | cons y bs =>
      have htail := ih (Nat.succ.inj hlength) (fun z hz => ha z (List.mem_cons_of_mem x hz))
        (fun z hz => hb z (List.mem_cons_of_mem y hz)) (base * a + x) (base * b + y)
      rw [List.compareLex_cons_cons, ← Ordering.then_assoc, ← compare_step (ha x List.mem_cons_self)
        (hb y List.mem_cons_self)]
      exact htail

/-- A number has no more digits than were read. -/
theorem value_lt {base : Nat} {digits : List Nat} (h : ∀ d ∈ digits, d < base) (start : Nat) :
    value base start digits < (start + 1) * base ^ digits.length := by
  induction digits generalizing start with
  | nil => simp [value]
  | cons d digits ih =>
    have hd := h d List.mem_cons_self
    have htail := ih (fun x hx => h x (List.mem_cons_of_mem d hx)) (base * start + d)
    have hstep : base * start + d + 1 ≤ (start + 1) * base := by
      rw [Nat.succ_mul, Nat.mul_comm base start]
      omega
    have hmul := Nat.mul_le_mul_right (base ^ digits.length) hstep
    rw [Nat.mul_assoc, ← Nat.pow_succ'] at hmul
    exact Nat.lt_of_lt_of_le htail hmul

variable {α β : Type}

theorem compareLex_map {cmp : α → α → Ordering} {cmp' : β → β → Ordering} {f : α → β} {as bs : List α}
    (h : ∀ x ∈ as, ∀ y ∈ bs, cmp' (f x) (f y) = cmp x y) :
    List.compareLex cmp' (as.map f) (bs.map f) = List.compareLex cmp as bs := by
  induction as generalizing bs with
  | nil => cases bs <;> rfl
  | cons x as ih =>
    cases bs with
    | nil => rfl
    | cons y bs =>
      rw [List.map_cons, List.map_cons, List.compareLex_cons_cons, List.compareLex_cons_cons,
        h x List.mem_cons_self y List.mem_cons_self,
        ih fun a ha b hb => h a (List.mem_cons_of_mem x ha) b (List.mem_cons_of_mem y hb)]

/-- A comparison of the images under a function. -/
theorem trans_on {cmp : β → β → Ordering} [TransCmp cmp] (f : α → β) : TransCmp fun a b => cmp (f a) (f b) where
  eq_swap {a b} := @OrientedCmp.eq_swap _ cmp _ (f a) (f b)
  isLE_trans {a b c} := @TransCmp.isLE_trans _ cmp _ (f a) (f b) (f c)

instance isLE_total {cmp : α → α → Ordering} [OrientedCmp cmp] : Std.Total fun a b => (cmp a b).isLE = true where
  total := by
    intro a b
    rw [@OrientedCmp.eq_swap _ cmp _ b a]
    cases cmp a b with
    | lt => exact .inl rfl
    | eq => exact .inl rfl
    | gt => exact .inr rfl

instance isLE_trans {cmp : α → α → Ordering} [TransCmp cmp] : IsTrans α fun a b => (cmp a b).isLE = true where
  trans := fun _ _ _ => TransCmp.isLE_trans

/-- In a strictly ordered list the elements are ordered as their positions are. -/
theorem compare_idxOf [DecidableEq α] {cmp : α → α → Ordering} [OrientedCmp cmp] [ReflCmp cmp] {xs : List α}
    (h : xs.Pairwise fun x y => cmp x y = .lt) {x y : α} (hx : x ∈ xs) (hy : y ∈ xs) :
    compare (xs.idxOf x) (xs.idxOf y) = cmp x y := by
  have hlt : ∀ {x y}, x ∈ xs → y ∈ xs → xs.idxOf x < xs.idxOf y → cmp x y = .lt := by
    intro x y hx hy hlt
    have hpair := List.pairwise_iff_getElem.mp h _ _ (List.idxOf_lt_length_of_mem hx) (List.idxOf_lt_length_of_mem hy) hlt
    rwa [List.getElem_idxOf, List.getElem_idxOf] at hpair
  rcases Nat.lt_trichotomy (xs.idxOf x) (xs.idxOf y) with hi | hi | hi
  · rw [Nat.compare_eq_lt.mpr hi, hlt hx hy hi]
  · obtain rfl := (List.idxOf_inj hx).mp hi
    rw [Nat.compare_eq_eq.mpr rfl, @ReflCmp.compare_self _ cmp _ x]
  · rw [Nat.compare_eq_gt.mpr hi, OrientedCmp.gt_of_lt (hlt hy hx hi)]

end FidbPoc.Lib.Lexicographic
