import Mathlib.Algebra.Order.BigOperators.Group.List
import Mathlib.Algebra.Order.Ring.Int
import Mathlib.Data.List.Sort
import Mathlib.Tactic.Ring

namespace FidbPoc.Coordinator.Percentile

section Definitions

structure Summary where
  min : Int
  p50 : Int
  p90 : Int
  p95 : Int
  max : Int
  mean : Int
  deriving DecidableEq

/-- `ordered[i]`; no position outside the list is asked for. -/
def statistic (ordered : List Int) (i : Nat) : Int := ordered.getD i 0

/-- The position of the rank, and by how many hundredths the rank is behind it. -/
def lower (ordered : List Int) (percent : Nat) : Nat := (ordered.length - 1) * percent / 100

def remainder (ordered : List Int) (percent : Nat) : Nat := (ordered.length - 1) * percent % 100

def upper (ordered : List Int) (percent : Nat) : Nat := min (lower ordered percent + 1) (ordered.length - 1)

def interpolate (x y : Int) (hundredths : Nat) : Int := (x * (100 - hundredths) + y * hundredths + 50) / 100

def percentile (ordered : List Int) (percent : Nat) : Int :=
  if ordered.length = 1 then statistic ordered 0
  else
    interpolate (statistic ordered (lower ordered percent)) (statistic ordered (upper ordered percent))
      (remainder ordered percent)

/-- The rounded mean of a sum of that many values. -/
def mean (sum : Int) (count : Nat) : Int := (sum + (count / 2 : Nat)) / count

def sorted (values : List Int) : List Int := values.insertionSort (· ≤ ·)

/-- `_percentiles` -/
def percentiles (values : List Int) : Option Summary :=
  if values = [] then none
  else
    let ordered := sorted values
    some {
      min := statistic ordered 0
      p50 := percentile ordered 50
      p90 := percentile ordered 90
      p95 := percentile ordered 95
      max := statistic ordered (ordered.length - 1)
      mean := mean ordered.sum ordered.length }

end Definitions

section Interpolation

variable {x y : Int} {r s : Nat}

theorem interpolate_eq (x y : Int) (r : Nat) : interpolate x y r = x + ((y - x) * r + 50) / 100 := by
  have hsplit : x * (100 - r) + y * r + 50 = (y - x) * r + 50 + x * 100 := by ring
  rw [interpolate, hsplit, Int.add_mul_ediv_right _ _ (by decide), add_comm]

theorem le_interpolate (h : x ≤ y) : x ≤ interpolate x y r := by
  have hgap : 0 ≤ (y - x) * (r : Int) := mul_nonneg (by omega) (by omega)
  rw [interpolate_eq]
  omega

theorem interpolate_le (h : x ≤ y) (hr : r ≤ 100) : interpolate x y r ≤ y := by
  have hgap : (y - x) * (r : Int) ≤ (y - x) * 100 := mul_le_mul_of_nonneg_left (by exact_mod_cast hr) (by omega)
  rw [interpolate_eq]
  omega

theorem interpolate_mono (h : x ≤ y) (hrs : r ≤ s) : interpolate x y r ≤ interpolate x y s := by
  have hgap : (y - x) * (r : Int) ≤ (y - x) * s := mul_le_mul_of_nonneg_left (by exact_mod_cast hrs) (by omega)
  rw [interpolate_eq, interpolate_eq]
  omega

end Interpolation

section Ranks

variable {ordered : List Int} {i j p q : Nat}

theorem statistic_eq (hi : i < ordered.length) : statistic ordered i = ordered[i] := (List.getElem_eq_getD 0).symm

theorem statistic_mono (hsorted : ordered.Pairwise (· ≤ ·)) (hij : i ≤ j) (hj : j < ordered.length) :
    statistic ordered i ≤ statistic ordered j := by
  have hi : i < ordered.length := by omega
  rw [statistic_eq hi, statistic_eq hj]
  obtain hlt | rfl := Nat.lt_or_eq_of_le hij
  · exact List.pairwise_iff_getElem.mp hsorted i j hi hj hlt
  · exact le_rfl

theorem lower_le (hp : p ≤ 100) : lower ordered p ≤ ordered.length - 1 := by
  have hle : (ordered.length - 1) * p ≤ (ordered.length - 1) * 100 := Nat.mul_le_mul_left _ hp
  unfold lower
  omega

theorem lower_le_upper (hp : p ≤ 100) : lower ordered p ≤ upper ordered p :=
  le_min (Nat.le_succ _) (lower_le hp)

theorem upper_lt (hne : ordered ≠ []) : upper ordered p < ordered.length := by
  have hlength := List.length_pos_of_ne_nil hne
  have hle : upper ordered p ≤ ordered.length - 1 := min_le_right _ _
  omega

theorem remainder_le : remainder ordered p ≤ 100 := (Nat.mod_lt _ (by decide)).le

/-- A percentile lies between the order statistics on both sides of its rank. -/
theorem percentile_between (hsorted : ordered.Pairwise (· ≤ ·)) (hne : ordered ≠ []) (hp : p ≤ 100) :
    statistic ordered (lower ordered p) ≤ percentile ordered p ∧
      percentile ordered p ≤ statistic ordered (upper ordered p) := by
  have hcell := statistic_mono hsorted (lower_le_upper hp) (upper_lt hne)
  by_cases hone : ordered.length = 1
  · have hlower : lower ordered p = 0 := by simp [lower, hone]
    have hupper : upper ordered p = 0 := by simp [upper, hone]
    rw [percentile, if_pos hone, hlower, hupper]
    exact ⟨le_rfl, le_rfl⟩
  · rw [percentile, if_neg hone]
    exact ⟨le_interpolate hcell, interpolate_le hcell remainder_le⟩

/-- Percentiles grow with the rank: inside one cell by the interpolation, across cells by the order of the list. -/
theorem percentile_mono (hsorted : ordered.Pairwise (· ≤ ·)) (hne : ordered ≠ []) (hpq : p ≤ q) (hq : q ≤ 100) :
    percentile ordered p ≤ percentile ordered q := by
  have hrank : (ordered.length - 1) * p ≤ (ordered.length - 1) * q := Nat.mul_le_mul_left _ hpq
  have hlower : lower ordered p ≤ lower ordered q := Nat.div_le_div_right hrank
  obtain hsame | hcells := hlower.eq_or_lt
  · have hremainder : remainder ordered p ≤ remainder ordered q := by
      have hcell : (ordered.length - 1) * p / 100 = (ordered.length - 1) * q / 100 := hsame
      unfold remainder
      omega
    have hupper : upper ordered p = upper ordered q := by rw [upper, upper, hsame]
    have hcell := statistic_mono hsorted (lower_le_upper hq) (upper_lt hne)
    by_cases hone : ordered.length = 1
    · rw [percentile, percentile, if_pos hone, if_pos hone]
    · rw [percentile, percentile, if_neg hone, if_neg hone, hsame, hupper]
      exact interpolate_mono hcell hremainder
  · have hupper : upper ordered p ≤ lower ordered q := (min_le_left _ _).trans hcells
    calc percentile ordered p
        ≤ statistic ordered (upper ordered p) := (percentile_between hsorted hne (hpq.trans hq)).2
      _ ≤ statistic ordered (lower ordered q) :=
        statistic_mono hsorted hupper ((lower_le_upper hq).trans_lt (upper_lt hne))
      _ ≤ percentile ordered q := (percentile_between hsorted hne hq).1

end Ranks

section Mean

variable {sum x y : Int} {count : Nat}

theorem mean_between (hcount : 0 < count) (hx : x * count ≤ sum) (hy : sum ≤ y * count) :
    x ≤ mean sum count ∧ mean sum count ≤ y := by
  have hpos : (0 : Int) < count := by exact_mod_cast hcount
  constructor
  · exact (Int.le_ediv_iff_mul_le hpos).mpr (by omega)
  · refine Int.le_of_lt_add_one ((Int.ediv_lt_iff_lt_mul hpos).mpr ?_)
    rw [add_mul, one_mul]
    omega

end Mean

section Summaries

variable {values values' : List Int}

theorem sorted_pairwise (values : List Int) : (sorted values).Pairwise (· ≤ ·) := List.pairwise_insertionSort _ values

theorem sorted_perm (values : List Int) : (sorted values).Perm values := List.perm_insertionSort _ values

theorem sorted_ne_nil (h : values ≠ []) : sorted values ≠ [] :=
  fun hnil => h (List.perm_nil.mp (hnil ▸ (sorted_perm values).symm))

theorem sorted_congr (h : values'.Perm values) : sorted values' = sorted values :=
  ((sorted_perm values').trans (h.trans (sorted_perm values).symm)).eq_of_pairwise'
    (sorted_pairwise values') (sorted_pairwise values)

/-- Every value lies between the first and the last of the ordered list. -/
theorem mem_sorted {x : Int} (h : x ∈ sorted values) :
    statistic (sorted values) 0 ≤ x ∧ x ≤ statistic (sorted values) ((sorted values).length - 1) := by
  obtain ⟨i, hi, rfl⟩ := List.getElem_of_mem h
  rw [← statistic_eq hi]
  exact ⟨statistic_mono (sorted_pairwise values) (Nat.zero_le i) hi,
    statistic_mono (sorted_pairwise values) (by omega) (by omega)⟩

theorem mean_sorted (h : values ≠ []) :
    statistic (sorted values) 0 ≤ mean (sorted values).sum (sorted values).length ∧
      mean (sorted values).sum (sorted values).length ≤ statistic (sorted values) ((sorted values).length - 1) := by
  refine mean_between (List.length_pos_of_ne_nil (sorted_ne_nil h)) ?_ ?_
  · have hle := List.card_nsmul_le_sum (sorted values) (statistic (sorted values) 0) fun x hx => (mem_sorted hx).1
    rwa [nsmul_eq_mul, mul_comm] at hle
  · have hle := List.sum_le_card_nsmul (sorted values) _ fun x hx => (mem_sorted hx).2
    rwa [nsmul_eq_mul, mul_comm] at hle

/-- The summary of a sample is ordered and does not depend on the order of the sample; each percentile lies between the
order statistics around its rank. -/
theorem percentiles_ordered (values : List Int) (h : values ≠ []) :
    ∃ summary, percentiles values = some summary ∧
      (summary.min ≤ summary.p50 ∧ summary.p50 ≤ summary.p90 ∧ summary.p90 ≤ summary.p95 ∧ summary.p95 ≤ summary.max) ∧
      (summary.min ≤ summary.mean ∧ summary.mean ≤ summary.max) ∧
      (∀ values' : List Int, values'.Perm values → percentiles values' = some summary) ∧
      ∀ rank ∈ [(50, summary.p50), (90, summary.p90), (95, summary.p95)],
        upper (sorted values) rank.1 < (sorted values).length ∧
        lower (sorted values) rank.1 ≤ upper (sorted values) rank.1 ∧
        upper (sorted values) rank.1 ≤ lower (sorted values) rank.1 + 1 ∧
        statistic (sorted values) (lower (sorted values) rank.1) ≤ rank.2 ∧
        rank.2 ≤ statistic (sorted values) (upper (sorted values) rank.1) := by
  have hsorted := sorted_pairwise values
  have hne := sorted_ne_nil h
  have hbetween (p : Nat) (hp : p ≤ 100) := percentile_between hsorted hne hp
  have hfirst : statistic (sorted values) 0 ≤ percentile (sorted values) 50 :=
    (statistic_mono hsorted (Nat.zero_le _) ((lower_le_upper (by decide)).trans_lt (upper_lt hne))).trans
      (hbetween 50 (by decide)).1
  have hlast : percentile (sorted values) 95 ≤ statistic (sorted values) ((sorted values).length - 1) :=
    (hbetween 95 (by decide)).2.trans
      (statistic_mono hsorted (min_le_right _ _) (Nat.sub_one_lt (List.length_pos_of_ne_nil hne).ne'))
  refine ⟨_, if_neg h, ⟨hfirst, ?_, ?_, hlast⟩, mean_sorted h, ?_, ?_⟩
  · exact percentile_mono hsorted hne (by decide) (by decide)
  · exact percentile_mono hsorted hne (by decide) (by decide)
  · intro values' hperm
    have hne' : values' ≠ [] := fun hnil => h (List.perm_nil.mp (hnil ▸ hperm.symm))
    rw [percentiles, if_neg hne', sorted_congr hperm]
  · have hrank (p : Nat) (hp : p ≤ 100) : upper (sorted values) p < (sorted values).length ∧
        lower (sorted values) p ≤ upper (sorted values) p ∧ upper (sorted values) p ≤ lower (sorted values) p + 1 ∧
        statistic (sorted values) (lower (sorted values) p) ≤ percentile (sorted values) p ∧
        percentile (sorted values) p ≤ statistic (sorted values) (upper (sorted values) p) :=
      ⟨upper_lt hne, lower_le_upper hp, min_le_left _ _, hbetween p hp⟩
    simp only [List.forall_mem_cons, List.not_mem_nil, IsEmpty.forall_iff, implies_true, and_true]
    exact ⟨hrank 50 (by decide), hrank 90 (by decide), hrank 95 (by decide)⟩

theorem five_durations_ordered :
    ∃ summary, percentiles [40, 10, 30, 20, 50] = some summary ∧
      (summary.min ≤ summary.p50 ∧ summary.p50 ≤ summary.p90 ∧ summary.p90 ≤ summary.p95 ∧ summary.p95 ≤ summary.max) ∧
      summary = ⟨10, 30, 46, 48, 50, 30⟩ := by
  obtain ⟨summary, hsummary, hordered, -⟩ := percentiles_ordered [40, 10, 30, 20, 50] (by decide)
  have hvalue : percentiles [40, 10, 30, 20, 50] = some ⟨10, 30, 46, 48, 50, 30⟩ := by decide
  exact ⟨summary, hsummary, hordered, Option.some.inj (hsummary.symm.trans hvalue)⟩

end Summaries

end FidbPoc.Coordinator.Percentile
