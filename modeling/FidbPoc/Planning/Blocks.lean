import FidbPoc.Lib.Bins
import FidbPoc.Lib.Checked
import Mathlib.Data.List.Sort
import Mathlib.Data.Prod.Lex
import Mathlib.Data.Rat.Floor

namespace FidbPoc.Planning

open FidbPoc.Lib.Bins FidbPoc.Lib.Checked

/-- The fields of a work item that the packing reads. -/
structure WorkItem where
  sourceId : String
  rank : Int
  estimatedHours : ℚ

/-- `(-estimated_hours, rank)` -/
def WorkItem.sortKey (row : WorkItem) : ℚ ×ₗ Int := toLex (-row.estimatedHours, row.rank)

/-- The tolerance `1e-9` of both comparisons with the ceiling. -/
def slack : ℚ := 1 / 1000000000

/-- `q` in thousandths, a half to the even neighbour. -/
def thousandths (q : ℚ) : Int :=
  let below := ⌊q * 1000⌋
  let rest := q * 1000 - below
  if rest < 1 / 2 ∨ rest = 1 / 2 ∧ below % 2 = 0 then below else below + 1

/-- The format `.3f`. -/
def fixed (q : ℚ) : String :=
  let units := (thousandths q).natAbs
  let decimals := toString (units % 1000)
  (if q < 0 then "-" else "") ++ toString (units / 1000) ++ "." ++
    String.ofList (List.replicate (3 - decimals.length) '0') ++ decimals

def aboveCeiling (item : WorkItem) (maxHours : ℚ) : String :=
  "work item " ++ item.sourceId ++ " estimates " ++ fixed item.estimatedHours ++ " hours, above the " ++
    fixed maxHours ++ "-hour block ceiling; split it before scheduling"

/-- The two parallel lists of `_pack_blocks`. -/
structure OpenBlocks where
  blocks : List (List WorkItem)
  totals : List ℚ

/-- The blocks that still take an item, each with its deviation from the target. -/
def candidates (targetHours maxHours hours : ℚ) (totals : List ℚ) : List (ℚ ×ₗ Nat) :=
  totals.zipIdx.filterMap fun row =>
    if row.1 + hours ≤ maxHours + slack then some (toLex (|targetHours - (row.1 + hours)|, row.2)) else none

/-- One iteration of `_pack_blocks`. -/
def placeItem (targetHours maxHours : ℚ) (opened : OpenBlocks) (item : WorkItem) : Except String OpenBlocks := do
  require (item.estimatedHours ≤ maxHours + slack) (aboveCeiling item maxHours)
  match (candidates targetHours maxHours item.estimatedHours opened.totals).min? with
  | some best =>
    return ⟨opened.blocks.modify (ofLex best).2 (· ++ [item]),
      opened.totals.modify (ofLex best).2 (· + item.estimatedHours)⟩
  | none => return ⟨opened.blocks ++ [[item]], opened.totals ++ [item.estimatedHours]⟩

def sortItems (items : List WorkItem) : List WorkItem := items.insertionSort fun a b => a.sortKey ≤ b.sortKey

def packBlocks (items : List WorkItem) (targetHours maxHours : ℚ) : Except String (List (List WorkItem)) :=
  OpenBlocks.blocks <$> (sortItems items).foldlM (placeItem targetHours maxHours) ⟨[], []⟩

/-- The hours of a block. -/
def hoursOf (block : List WorkItem) : ℚ := (block.map WorkItem.estimatedHours).sum

section Lists

variable {α β : Type}

theorem map_modify {f : α → β} {g : α → α} {g' : β → β} (h : ∀ a, f (g a) = g' (f a)) (xs : List α) (i : Nat) :
    (xs.modify i g).map f = (xs.map f).modify i g' := by
  induction xs generalizing i with
  | nil => simp
  | cons x xs ih =>
    cases i with
    | zero => simp [h]
    | succ i => simp [ih]

/-- An element appended to one of the lists is one more element of them all. -/
theorem flatten_modify {blocks : List (List α)} {i : Nat} (hi : i < blocks.length) (a : α) :
    (blocks.modify i (· ++ [a])).flatten.Perm (blocks.flatten ++ [a]) := by
  induction blocks generalizing i with
  | nil => exact absurd hi (Nat.not_lt_zero i)
  | cons block blocks ih =>
    cases i with
    | zero =>
      rw [List.modify_zero_cons, List.flatten_cons, List.flatten_cons, List.append_assoc, List.append_assoc]
      exact List.perm_append_comm.append_left block
    | succ i =>
      rw [List.modify_succ_cons, List.flatten_cons, List.flatten_cons, List.append_assoc]
      exact (ih (Nat.lt_of_succ_lt_succ hi)).append_left block

theorem forall_mem_modify {p : α → Prop} {g : α → α} {xs : List α} {i : Nat} (h : ∀ a ∈ xs, p a)
    (hg : ∀ a, xs[i]? = some a → p (g a)) : ∀ a ∈ xs.modify i g, p a := by
  intro a ha
  obtain ⟨j, hj⟩ := List.mem_iff_getElem?.mp ha
  rw [List.getElem?_modify, Option.map_eq_map, Option.map_eq_some_iff] at hj
  obtain ⟨b, hb, rfl⟩ := hj
  split
  · next hij =>
    subst hij
    exact hg b hb
  · exact h b (List.mem_of_getElem? hb)

end Lists

section Placed

variable {targetHours maxHours : ℚ} {items placed : List WorkItem} {item : WorkItem} {opened next : OpenBlocks}
  {totals : List ℚ} {best : ℚ ×ₗ Nat}

theorem mem_candidates {hours : ℚ} (h : best ∈ candidates targetHours maxHours hours totals) :
    ∃ total, totals[(ofLex best).2]? = some total ∧ total + hours ≤ maxHours + slack := by
  obtain ⟨⟨total, i⟩, hrow, hbest⟩ := List.mem_filterMap.mp h
  split at hbest
  · next hfits =>
    obtain rfl := Option.some.inj hbest
    exact ⟨total, List.mem_zipIdx_iff_getElem?.mp hrow, hfits⟩
  · cases hbest

theorem candidates_eq_nil {hours : ℚ} (h : candidates targetHours maxHours hours totals = []) :
    ∀ total ∈ totals, maxHours + slack < total + hours := by
  intro total htotal
  obtain ⟨i, hi⟩ := List.mem_iff_getElem?.mp htotal
  have hnone := List.filterMap_eq_nil_iff.mp h (total, i) (List.mem_zipIdx_iff_getElem?.mpr hi)
  by_contra hfits
  rw [if_pos (not_lt.mp hfits)] at hnone
  cases hnone

/-- An item joins a block with room for it, or no block has and it opens one. -/
theorem placeItem_eq_ok (h : placeItem targetHours maxHours opened item = .ok next) :
    item.estimatedHours ≤ maxHours + slack ∧
      ((∃ i total, opened.totals[i]? = some total ∧ total + item.estimatedHours ≤ maxHours + slack ∧
          next = ⟨opened.blocks.modify i (· ++ [item]), opened.totals.modify i (· + item.estimatedHours)⟩) ∨
        ((∀ total ∈ opened.totals, maxHours + slack < total + item.estimatedHours) ∧
          next = ⟨opened.blocks ++ [[item]], opened.totals ++ [item.estimatedHours]⟩)) := by
  simp only [placeItem, bind_eq_ok, require_eq_ok, exists_const] at h
  obtain ⟨hceiling, h⟩ := h
  refine ⟨hceiling, ?_⟩
  split at h
  · next best hbest =>
    left
    obtain ⟨total, htotal, hfits⟩ := mem_candidates (List.min?_mem hbest)
    exact ⟨_, total, htotal, hfits, (pure_eq_ok.mp h).symm⟩
  · next hnone =>
    right
    exact ⟨candidates_eq_nil (List.min?_eq_none_iff.mp hnone), (pure_eq_ok.mp h).symm⟩

theorem placeItem_isOk (h : item.estimatedHours ≤ maxHours + slack) (opened : OpenBlocks) :
    ∃ next, placeItem targetHours maxHours opened item = .ok next := by
  rw [placeItem, require, if_pos h, ok_bind]
  split
  · exact ⟨_, rfl⟩
  · exact ⟨_, rfl⟩

/-- What holds of the blocks once `placed` is in them. -/
structure Filled (maxHours : ℚ) (placed : List WorkItem) (opened : OpenBlocks) : Prop where
  totals : opened.totals = opened.blocks.map hoursOf
  perm : opened.blocks.flatten.Perm placed
  nonempty : ∀ block ∈ opened.blocks, block ≠ []
  bounded : ∀ total ∈ opened.totals, total ≤ maxHours + slack
  saturated : Saturated (maxHours + slack) opened.totals

theorem filled_nil : Filled maxHours [] ⟨[], []⟩ :=
  ⟨rfl, .refl _, by simp, by simp, List.Pairwise.nil⟩

theorem hoursOf_append (block block' : List WorkItem) : hoursOf (block ++ block') = hoursOf block + hoursOf block' := by
  simp [hoursOf]

theorem hoursOf_singleton (item : WorkItem) : hoursOf [item] = item.estimatedHours := by simp [hoursOf]

theorem Filled.placeItem (h : Filled maxHours placed opened) (hpos : 0 < item.estimatedHours)
    (hplace : placeItem targetHours maxHours opened item = .ok next) : Filled maxHours (placed ++ [item]) next := by
  obtain ⟨hceiling, ⟨i, total, htotal, hfits, rfl⟩ | ⟨hfull, rfl⟩⟩ := placeItem_eq_ok hplace
  · have hi : i < opened.blocks.length := by
      have hlength := (List.getElem?_eq_some_iff.mp htotal).1
      rwa [h.totals, List.length_map] at hlength
    refine ⟨?_, ?_, ?_, ?_, h.saturated.modify i hpos.le⟩
    · have hgrown : ∀ block, hoursOf (block ++ [item]) = hoursOf block + item.estimatedHours := fun block => by
        rw [hoursOf_append, hoursOf_singleton]
      rw [h.totals]
      exact (@map_modify _ _ _ _ (· + item.estimatedHours) hgrown opened.blocks i).symm
    · exact (flatten_modify hi item).trans (h.perm.append_right [item])
    · exact forall_mem_modify h.nonempty fun block _ => by simp
    · refine forall_mem_modify h.bounded fun total' htotal' => ?_
      obtain rfl := Option.some.inj (htotal.symm.trans htotal')
      exact hfits
  · refine ⟨?_, ?_, ?_, ?_, h.saturated.concat hfull⟩
    · rw [h.totals, List.map_append, List.map_singleton, hoursOf_singleton]
    · rw [List.flatten_append, List.flatten_singleton]
      exact h.perm.append_right [item]
    · intro block hblock
      rcases List.mem_append.mp hblock with hblock | hblock
      · exact h.nonempty block hblock
      · rw [List.mem_singleton.mp hblock]
        exact List.cons_ne_nil item []
    · intro total htotal
      rcases List.mem_append.mp htotal with htotal | htotal
      · exact h.bounded total htotal
      · rw [List.mem_singleton.mp htotal]
        exact hceiling

theorem Filled.foldlM (h : Filled maxHours placed opened) (hpos : ∀ item ∈ items, 0 < item.estimatedHours)
    (hplace : items.foldlM (Planning.placeItem targetHours maxHours) opened = .ok next) :
    Filled maxHours (placed ++ items) next := by
  induction items generalizing placed opened with
  | nil =>
    rw [List.foldlM_nil, pure_eq_ok] at hplace
    rw [← hplace, List.append_nil]
    exact h
  | cons item items ih =>
    obtain ⟨hitem, hitems⟩ := List.forall_mem_cons.mp hpos
    rw [List.foldlM_cons] at hplace
    obtain ⟨after, hafter, hplace⟩ := bind_eq_ok.mp hplace
    have hrest := ih (h.placeItem hitem hafter) hitems hplace
    rwa [List.append_assoc, List.singleton_append] at hrest

/-- The loop ends unless it meets an item above the ceiling. -/
theorem foldlM_placeItem_isOk :
    (∃ next, items.foldlM (placeItem targetHours maxHours) opened = .ok next) ↔
      ∀ item ∈ items, item.estimatedHours ≤ maxHours + slack := by
  refine foldlM_isOk fun opened item => ⟨fun ⟨_, hafter⟩ => (placeItem_eq_ok hafter).1, fun hitem => ?_⟩
  exact placeItem_isOk hitem opened

end Placed

section Partition

variable {targetHours maxHours : ℚ} {items items' : List WorkItem} {blocks : List (List WorkItem)}

theorem sortItems_perm (items : List WorkItem) : (sortItems items).Perm items := List.perm_insertionSort _ _

theorem packBlocks_isOk :
    (∃ blocks, packBlocks items targetHours maxHours = .ok blocks) ↔
      ∀ item ∈ items, item.estimatedHours ≤ maxHours + slack := by
  have hitems : (∀ item ∈ items, item.estimatedHours ≤ maxHours + slack) ↔
      ∀ item ∈ sortItems items, item.estimatedHours ≤ maxHours + slack := by
    simp only [(sortItems_perm items).mem_iff]
  rw [hitems, ← @foldlM_placeItem_isOk targetHours maxHours (sortItems items) ⟨[], []⟩]
  simp only [packBlocks, map_eq_ok]
  exact ⟨fun ⟨_, opened, h, _⟩ => ⟨opened, h⟩, fun ⟨opened, h⟩ => ⟨_, opened, h, rfl⟩⟩

theorem packBlocks_isError :
    (∃ error, packBlocks items targetHours maxHours = .error error) ↔
      ∃ item ∈ items, maxHours + slack < item.estimatedHours := by
  have hok := @packBlocks_isOk targetHours maxHours items
  cases hpack : packBlocks items targetHours maxHours with
  | ok blocks =>
    have hall := hok.mp ⟨blocks, hpack⟩
    refine ⟨fun ⟨_, h⟩ => (by cases h), fun ⟨item, hitem, hhours⟩ => ?_⟩
    exact absurd (hall item hitem) (not_le.mpr hhours)
  | error error =>
    refine ⟨fun _ => ?_, fun _ => ⟨error, rfl⟩⟩
    by_contra hnone
    push Not at hnone
    obtain ⟨blocks, hblocks⟩ := hok.mpr hnone
    cases hpack.symm.trans hblocks

theorem packBlocks_filled (hpos : ∀ item ∈ items, 0 < item.estimatedHours)
    (h : packBlocks items targetHours maxHours = .ok blocks) :
    ∃ totals, Filled maxHours (sortItems items) ⟨blocks, totals⟩ := by
  obtain ⟨opened, hplace, rfl⟩ := map_eq_ok.mp h
  have hpos' : ∀ item ∈ sortItems items, 0 < item.estimatedHours :=
    fun item hitem => hpos item ((sortItems_perm items).mem_iff.mp hitem)
  exact ⟨opened.totals, filled_nil.foldlM hpos' hplace⟩

theorem hoursOf_perm (h : items.Perm items') : hoursOf items = hoursOf items' := (h.map _).sum_eq

theorem hoursOf_flatten (blocks : List (List WorkItem)) : (blocks.map hoursOf).sum = hoursOf blocks.flatten := by
  induction blocks with
  | nil => rfl
  | cons block blocks ih => rw [List.map_cons, List.sum_cons, ih, List.flatten_cons, hoursOf_append]

theorem hoursOf_nonneg (hpos : ∀ item ∈ items, 0 < item.estimatedHours) : 0 ≤ hoursOf items := by
  refine List.sum_nonneg fun hours hhours => ?_
  obtain ⟨item, hitem, rfl⟩ := List.mem_map.mp hhours
  exact (hpos item hitem).le

/-- Items that differ in hours or rank are sorted in one way. -/
theorem sortItems_eq (hperm : items'.Perm items) (hdistinct : (items.map WorkItem.sortKey).Nodup) :
    sortItems items' = sortItems items := by
  have hboth : (sortItems items').Perm (sortItems items) :=
    ((sortItems_perm items').trans hperm).trans (sortItems_perm items).symm
  refine hboth.eq_of_pairwise ?_ (List.pairwise_insertionSort _ _) (List.pairwise_insertionSort _ _)
  intro a b ha hb hab hba
  have ha' := ((sortItems_perm items').trans hperm).mem_iff.mp ha
  have hb' := (sortItems_perm items).mem_iff.mp hb
  exact List.inj_on_of_nodup_map hdistinct ha' hb' (le_antisymm hab hba)

/-- The packing refuses just an item above the ceiling; otherwise it partitions the items into bounded blocks of which
at most one is light, and does so in the same way for every order of items that differ in hours or rank. -/
theorem packBlocks_bounded_partition (hpos : ∀ item ∈ items, 0 < item.estimatedHours) (htarget : 0 < targetHours)
    (hmax : targetHours ≤ maxHours) :
    ((∃ error, packBlocks items targetHours maxHours = .error error) ↔
      ∃ item ∈ items, maxHours + slack < item.estimatedHours) ∧
    (∀ blocks, packBlocks items targetHours maxHours = .ok blocks →
      blocks.flatten.Perm items ∧ (∀ block ∈ blocks, block ≠ [] ∧ hoursOf block ≤ maxHours + slack) ∧
        blocks.countP (fun block => hoursOf block ≤ maxHours / 2) ≤ 1 ∧
        (blocks.length : ℚ) ≤ 2 * hoursOf items / maxHours + 1) ∧
    ∀ items', items'.Perm items → (items.map WorkItem.sortKey).Nodup →
      packBlocks items' targetHours maxHours = packBlocks items targetHours maxHours := by
  have hpositive : 0 < maxHours := lt_of_lt_of_le htarget hmax
  have hslack : 0 ≤ slack := by norm_num [slack]
  refine ⟨packBlocks_isError, fun blocks h => ?_, fun items' hperm hdistinct => ?_⟩
  · obtain ⟨totals, hfilled⟩ := packBlocks_filled hpos h
    obtain rfl : totals = blocks.map hoursOf := hfilled.totals
    have hperm := hfilled.perm.trans (sortItems_perm items)
    -- two blocks that do not fit into the ceiling with its tolerance do not fit into the ceiling
    have hsaturated : Saturated maxHours (blocks.map hoursOf) :=
      hfilled.saturated.imp fun hab => lt_of_le_of_lt (le_add_of_nonneg_right hslack) hab
    refine ⟨hperm, fun block hblock => ?_, ?_, ?_⟩
    · exact ⟨hfilled.nonempty block hblock, hfilled.bounded _ (List.mem_map_of_mem hblock)⟩
    · have hlight := hsaturated.countP_light
      rwa [List.countP_map] at hlight
    · have hnonneg : ∀ total ∈ blocks.map hoursOf, 0 ≤ total := by
        intro total htotal
        obtain ⟨block, hblock, rfl⟩ := List.mem_map.mp htotal
        refine hoursOf_nonneg fun item hitem => hpos item ?_
        exact hperm.mem_iff.mp (List.mem_flatten.mpr ⟨block, hblock, hitem⟩)
      have hlength := hsaturated.length_le hpositive hnonneg
      rwa [List.length_map, hoursOf_flatten, hoursOf_perm hperm] at hlength
  · rw [packBlocks, sortItems_eq hperm hdistinct]
    rfl

end Partition

section Hour

/-- An item half of the tolerance above one hour. -/
def longHour : WorkItem := ⟨"zlib", 0, 1 + slack / 2⟩

/-- An item above the ceiling, but within its tolerance, is packed all the same. -/
theorem longHour_packed : packBlocks [longHour] 1 1 = .ok [[longHour]] := by
  have hfits : longHour.estimatedHours ≤ 1 + slack := by norm_num [longHour, slack]
  simp [packBlocks, sortItems, placeItem, require, hfits, candidates]

theorem tolerance_exceeds_ceiling :
    ¬ ((∃ error, packBlocks [longHour] 1 1 = .error error) ↔ ∃ item ∈ [longHour], 1 < item.estimatedHours) ∧
      ∃ blocks, packBlocks [longHour] 1 1 = .ok blocks ∧ ∃ block ∈ blocks, 1 < hoursOf block := by
  have hlong : 1 < longHour.estimatedHours := by norm_num [longHour, slack]
  refine ⟨fun h => ?_, [[longHour]], longHour_packed, [longHour], by simp, by rwa [hoursOf_singleton]⟩
  obtain ⟨error, herror⟩ := h.mpr ⟨longHour, by simp, hlong⟩
  cases longHour_packed.symm.trans herror

/-- Two items of half an hour and one of an hour fill two blocks of an hour. -/
theorem halves_bounded_partition :
    ∃ blocks, packBlocks [⟨"zlib", 1, 1 / 2⟩, ⟨"lua", 0, 1⟩, ⟨"curl", 2, 1 / 2⟩] 1 1 = .ok blocks ∧
      (blocks.length : ℚ) ≤ 5 := by
  have hpos : ∀ item ∈ ([⟨"zlib", 1, 1 / 2⟩, ⟨"lua", 0, 1⟩, ⟨"curl", 2, 1 / 2⟩] : List WorkItem),
      0 < item.estimatedHours := by
    simp
  have hpartition := packBlocks_bounded_partition hpos zero_lt_one (le_refl (1 : ℚ))
  obtain ⟨blocks, hblocks⟩ := (@packBlocks_isOk 1 1 [⟨"zlib", 1, 1 / 2⟩, ⟨"lua", 0, 1⟩, ⟨"curl", 2, 1 / 2⟩]).mpr
    (by norm_num [slack])
  refine ⟨blocks, hblocks, (hpartition.2.1 blocks hblocks).2.2.2.trans ?_⟩
  norm_num [hoursOf]

end Hour

end FidbPoc.Planning
