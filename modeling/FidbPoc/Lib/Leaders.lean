import Mathlib.Data.List.Induction
import Mathlib.Data.List.Nodup
import Mathlib.Order.MinMax

namespace FidbPoc.Lib.Leaders

variable {α β κ : Type} [LinearOrder κ]

/-- The highest score of the rows. -/
def top (score : α → κ) (rows : List α) : Option κ := (rows.map score).max?

/-- One step of a running maximum: a higher score starts a new group, an equal
score joins the group. -/
def challenge (score : α → κ) (join : List α → α → List α) (best : Option (κ × List α)) (x : α) :
    Option (κ × List α) :=
  match best with
  | none => some (score x, join [] x)
  | some (m, held) =>
    if m < score x then some (score x, join [] x)
    else if score x = m then some (m, join held x)
    else some (m, held)

/-- The rows with the highest score, in order. -/
def leaders (score : α → κ) (rows : List α) : List α :=
  match top score rows with
  | none => []
  | some m => rows.filter (fun x => score x = m)

section top

variable {score : α → κ} {rows : List α} {m : κ}

theorem top_eq_some_iff :
    top score rows = some m ↔ (∃ x ∈ rows, score x = m) ∧ ∀ x ∈ rows, score x ≤ m := by
  have h : top score rows = some m ↔ m ∈ rows.map score ∧ ∀ s ∈ rows.map score, s ≤ m :=
    List.max?_eq_some_iff
  rw [h, List.mem_map, List.forall_mem_map]

theorem top_eq_none_iff : top score rows = none ↔ rows = [] := by
  simp [top]

@[simp] theorem top_nil : top score ([] : List α) = none := rfl

theorem top_concat (x : α) :
    top score (rows ++ [x]) = some (((top score rows).map (max · (score x))).getD (score x)) := by
  rw [top_eq_some_iff]
  cases ht : top score rows with
  | none =>
    obtain rfl := top_eq_none_iff.mp ht
    simp
  | some m =>
    obtain ⟨⟨y, hy, hym⟩, hle⟩ := top_eq_some_iff.mp ht
    simp only [Option.map_some, Option.getD_some]
    constructor
    · rcases le_total m (score x) with h | h
      · exact ⟨x, by simp, by rw [max_eq_right h]⟩
      · exact ⟨y, by simp [hy], by rw [hym, max_eq_left h]⟩
    · intro z hz
      rcases List.mem_append.mp hz with hz | hz
      · exact le_max_of_le_left (hle z hz)
      · obtain rfl := List.mem_singleton.mp hz
        exact le_max_right m (score z)

theorem mem_leaders {x : α} : x ∈ leaders score rows ↔ x ∈ rows ∧ ∀ y ∈ rows, score y ≤ score x := by
  unfold leaders
  cases ht : top score rows with
  | none =>
    obtain rfl := top_eq_none_iff.mp ht
    simp
  | some m =>
    obtain ⟨⟨z, hz, hzm⟩, hle⟩ := top_eq_some_iff.mp ht
    simp only [List.mem_filter, decide_eq_true_eq]
    refine and_congr_right fun hx => ⟨fun h y hy => h ▸ hle y hy, fun h => ?_⟩
    exact le_antisymm (hle x hx) (hzm ▸ h z hz)

end top

/-- The running maximum over all rows is the group of the rows with the highest score. -/
theorem foldl_challenge (score : α → κ) (join : List α → α → List α) (rows : List α) :
    rows.foldl (challenge score join) none =
      (top score rows).map (fun m => (m, (rows.filter (fun x => score x = m)).foldl join [])) := by
  induction rows using List.reverseRecOn with
  | nil => rfl
  | append_singleton rows x ih =>
    rw [List.foldl_concat, ih, top_concat]
    cases ht : top score rows with
    | none =>
      obtain rfl := top_eq_none_iff.mp ht
      simp [challenge]
    | some m =>
      obtain ⟨-, hle⟩ := top_eq_some_iff.mp ht
      rcases lt_trichotomy m (score x) with h | h | h
      · have hempty : rows.filter (fun y => score y = score x) = [] :=
          List.filter_eq_nil_iff.mpr fun y hy hs =>
            not_le.mpr h ((of_decide_eq_true hs).symm.le.trans (hle y hy))
        simp [challenge, h, max_eq_right h.le, List.filter_append, hempty]
      · simp [challenge, h, List.filter_append]
      · have hne : score x ≠ m := h.ne
        simp [challenge, h.not_gt, hne, max_eq_left h.le, List.filter_append]

/-- Hold every row of the group. -/
def holdAll (held : List α) (x : α) : List α := held ++ [x]

theorem foldl_holdAll (rows held : List α) : rows.foldl holdAll held = held ++ rows := by
  induction rows generalizing held with
  | nil => simp
  | cons x rows ih => simp [ih, holdAll]

/-- What the running maximum holds in the end. -/
theorem held_holdAll (score : α → κ) (rows : List α) :
    ((rows.foldl (challenge score holdAll) none).map Prod.snd).getD [] = leaders score rows := by
  rw [foldl_challenge]
  unfold leaders
  cases top score rows with
  | none => rfl
  | some m => simp only [Option.map_some, Option.getD_some, foldl_holdAll, List.nil_append]

/-- Keep one best row, the earlier of equal ones. -/
def keepBest (score : α → κ) (best : Option α) (x : α) : Option α :=
  match best with
  | none => some x
  | some p => if score p < score x then some x else some p

/-- The one best row is the first leader. -/
theorem foldl_keepBest (score : α → κ) (rows : List α) :
    rows.foldl (keepBest score) none = (leaders score rows).head? := by
  have hgroup : ∀ group : Option (κ × List α), group = rows.foldl (challenge score holdAll) none →
      (∀ m held, group = some (m, held) → ∃ p rest, held = p :: rest ∧ score p = m) ∧
        rows.foldl (keepBest score) none = group.bind fun g => g.2.head? := by
    induction rows using List.reverseRecOn with
    | nil => rintro _ rfl; exact ⟨fun _ _ h => (by cases h), rfl⟩
    | append_singleton rows x ih =>
      rintro _ rfl
      obtain ⟨hhead, hbest⟩ := ih _ rfl
      rw [List.foldl_concat, List.foldl_concat, hbest]
      cases hg : rows.foldl (challenge score holdAll) none with
      | none => exact ⟨fun m held h => by cases h; exact ⟨x, [], rfl, rfl⟩, rfl⟩
      | some group =>
        obtain ⟨m, held⟩ := group
        obtain ⟨p, rest, rfl, hp⟩ := hhead m held hg
        simp only [Option.bind_some, List.head?_cons, keepBest, challenge, hp]
        by_cases hlt : m < score x
        · simp only [hlt, if_true]
          exact ⟨fun m' held' h => by cases h; exact ⟨x, [], rfl, rfl⟩, rfl⟩
        · by_cases heq : score x = m
          · simp only [heq, if_true, if_false, lt_irrefl]
            exact ⟨fun m' held' h => by cases h; exact ⟨p, rest ++ [x], rfl, hp⟩, rfl⟩
          · simp only [hlt, heq, if_false]
            exact ⟨fun m' held' h => by cases h; exact ⟨p, rest, rfl, hp⟩, rfl⟩
  rw [(hgroup _ rfl).2, ← held_holdAll]
  cases rows.foldl (challenge score holdAll) none with
  | none => rfl
  | some group => rfl

/-- Among the leaders, the first row that passes a test is the first row of the
highest score that passes it. -/
theorem find?_leaders {score : α → κ} {rows : List α} {m : κ} (htop : top score rows = some m) (p : α → Bool) :
    (leaders score rows).find? p = rows.find? fun x => p x && score x = m := by
  unfold leaders
  rw [htop, List.find?_filter]
  refine congrArg (List.find? · rows) (funext fun x => ?_)
  simp [Bool.and_comm]

/-- The first leader, if it reaches a bound of all scores, is the first row that does. -/
theorem head?_leaders_eq_some_iff {score : α → κ} {rows : List α} {m : κ} (hle : ∀ x ∈ rows, score x ≤ m) {x : α} :
    (leaders score rows).head? = some x ∧ score x = m ↔ rows.find? (fun y => score y = m) = some x := by
  constructor
  · rintro ⟨hx, rfl⟩
    have hmem : x ∈ leaders score rows := List.mem_of_head? hx
    have htop : top score rows = some (score x) :=
      top_eq_some_iff.mpr ⟨⟨x, (mem_leaders.mp hmem).1, rfl⟩, (mem_leaders.mp hmem).2⟩
    unfold leaders at hx
    rw [htop] at hx
    simpa only [List.head?_filter] using hx
  · intro hx
    have hscore : score x = m := by simpa using List.find?_some hx
    have htop : top score rows = some m :=
      top_eq_some_iff.mpr ⟨⟨x, List.mem_of_find?_eq_some hx, hscore⟩, hle⟩
    refine ⟨?_, hscore⟩
    unfold leaders
    rw [htop]
    simpa only [List.head?_filter] using hx

section firstBy

variable [DecidableEq β] (key : α → β)

/-- Add a row unless one with its key is held. -/
def keepFirst (held : List α) (x : α) : List α := if held.any (fun y => key y = key x) then held else held ++ [x]

/-- The first row of each key, in order. -/
def firstBy (rows : List α) : List α := rows.foldl (keepFirst key) []

theorem firstBy_concat (rows : List α) (x : α) :
    firstBy key (rows ++ [x]) = keepFirst key (firstBy key rows) x :=
  List.foldl_concat ..

theorem map_key_keepFirst (held : List α) (x : α) :
    (keepFirst key held x).map key =
      if key x ∈ held.map key then held.map key else held.map key ++ [key x] := by
  unfold keepFirst
  have hany : held.any (fun y => key y = key x) = true ↔ key x ∈ held.map key := by simp
  by_cases h : key x ∈ held.map key
  · rw [if_pos (hany.mpr h), if_pos h]
  · rw [if_neg (mt hany.mp h), if_neg h]
    simp

theorem mem_keys_firstBy {rows : List α} {k : β} : k ∈ (firstBy key rows).map key ↔ k ∈ rows.map key := by
  induction rows using List.reverseRecOn generalizing k with
  | nil => rfl
  | append_singleton rows x ih =>
    rw [firstBy_concat, map_key_keepFirst]
    split
    · rename_i h
      rw [ih] at h ⊢
      simp only [List.map_append, List.map_cons, List.map_nil, List.mem_append, List.mem_singleton]
      exact ⟨.inl, fun hk => hk.elim id fun hk => hk ▸ h⟩
    · simp only [List.mem_append, List.mem_singleton, ih, List.map_append, List.map_cons, List.map_nil]

theorem nodup_firstBy (rows : List α) : ((firstBy key rows).map key).Nodup := by
  induction rows using List.reverseRecOn with
  | nil => exact List.nodup_nil
  | append_singleton rows x ih =>
    rw [firstBy_concat, map_key_keepFirst]
    split
    · exact ih
    · rename_i h
      refine List.nodup_append.mpr ⟨ih, List.nodup_singleton _, ?_⟩
      intro k hk k' hk' hkk
      obtain rfl := List.mem_singleton.mp hk'
      exact h (hkk ▸ hk)

theorem mem_firstBy {rows : List α} {x : α} :
    x ∈ firstBy key rows ↔ rows.find? (fun y => key y = key x) = some x := by
  induction rows using List.reverseRecOn with
  | nil => simp [firstBy]
  | append_singleton rows z ih =>
    rw [firstBy_concat, List.find?_append, keepFirst]
    have hany : (firstBy key rows).any (fun y => key y = key z) = true ↔ key z ∈ rows.map key := by
      rw [← mem_keys_firstBy key]
      simp
    cases hf : rows.find? (fun y => key y = key x) with
    | some w =>
      -- the key of `x` has been met: a later row with it is not added
      have hw : key w = key x := by simpa using List.find?_some hf
      have hx : key x ∈ rows.map key := hw ▸ List.mem_map_of_mem (List.mem_of_find?_eq_some hf)
      rw [hf] at ih
      simp only [Option.some_or, ← ih]
      split
      · rfl
      · rename_i h
        have hne : x ≠ z := fun he => h (hany.mpr (he ▸ hx))
        simp [hne]
    | none =>
      have hx : ∀ y ∈ rows, key y ≠ key x := by simpa using hf
      have hout : x ∉ firstBy key rows := by simp [ih, hf]
      simp only [Option.none_or, List.find?_singleton, decide_eq_true_eq]
      by_cases hz : key z = key x
      · have hnew : ¬(firstBy key rows).any (fun y => key y = key z) = true := fun h => by
          obtain ⟨y, hy, hyz⟩ := List.mem_map.mp (hany.mp h)
          exact hx y hy (hyz.trans hz)
        rw [if_neg hnew, if_pos hz]
        simp [hout, eq_comm]
      · have hne : x ≠ z := fun he => hz (he ▸ rfl)
        rw [if_neg hz]
        split <;> simp [hout, hne]

theorem held_keepFirst (score : α → κ) (rows : List α) :
    ((rows.foldl (challenge score (keepFirst key)) none).map Prod.snd).getD [] =
      firstBy key (leaders score rows) := by
  rw [foldl_challenge]
  unfold leaders
  cases top score rows with
  | none => rfl
  | some m => rfl

/-- A row that the running maximum has met: it lost, or its key is held. -/
def Settled (score : α → κ) (best : Option (κ × List α)) (x : α) : Prop :=
  ∃ m held, best = some (m, held) ∧ (score x < m ∨ score x = m ∧ key x ∈ held.map key)

variable {key} {score : α → κ} {best : Option (κ × List α)} {x : α}

theorem mem_map_key_keepFirst {held : List α} {k : β} (h : k ∈ held.map key) :
    k ∈ (keepFirst key held x).map key := by
  rw [map_key_keepFirst]
  split
  · exact h
  · exact List.mem_append_left _ h

theorem key_mem_keepFirst (held : List α) : key x ∈ (keepFirst key held x).map key := by
  rw [map_key_keepFirst]
  split
  · assumption
  · simp

theorem settled_challenge : Settled key score (challenge score (keepFirst key) best x) x := by
  unfold challenge
  cases best with
  | none => exact ⟨_, _, rfl, .inr ⟨rfl, key_mem_keepFirst []⟩⟩
  | some best =>
    obtain ⟨m, held⟩ := best
    rcases lt_trichotomy m (score x) with h | h | h
    · exact ⟨_, _, if_pos h, .inr ⟨rfl, key_mem_keepFirst []⟩⟩
    · exact ⟨m, keepFirst key held x, by simp [h], .inr ⟨h.symm, key_mem_keepFirst held⟩⟩
    · exact ⟨m, held, by simp [h.not_gt, h.ne], .inl h⟩

theorem Settled.challenge {y : α} (h : Settled key score best y) :
    Settled key score (challenge score (keepFirst key) best x) y := by
  obtain ⟨m, held, rfl, hy⟩ := h
  rcases lt_trichotomy m (score x) with h | h | h
  · have hlt : score y < score x := hy.elim (·.trans h) (fun hy => hy.1 ▸ h)
    exact ⟨_, _, if_pos h, .inl hlt⟩
  · refine ⟨m, keepFirst key held x, by simp [Leaders.challenge, h], ?_⟩
    exact hy.imp_right fun hy => ⟨hy.1, mem_map_key_keepFirst hy.2⟩
  · exact ⟨m, held, by simp [Leaders.challenge, h.not_gt, h.ne], hy⟩

/-- Meeting a settled row again changes nothing. -/
theorem Settled.challenge_eq (h : Settled key score best x) : Leaders.challenge score (keepFirst key) best x = best := by
  obtain ⟨m, held, rfl, hx⟩ := h
  rcases hx with hx | ⟨hx, hmem⟩
  · simp [Leaders.challenge, hx.not_gt, hx.ne]
  · have hany : held.any (fun y => key y = key x) = true := by simpa using hmem
    simp [Leaders.challenge, hx, keepFirst, hany]

end firstBy

end FidbPoc.Lib.Leaders
