import FidbPoc.Campaigns.Records
import FidbPoc.Lib.Makespan
import FidbPoc.Lib.Table

namespace FidbPoc.Campaigns.Balancing

open FidbPoc.Lib FidbPoc.Lib.Makespan

/-- The key of the sort, `(-row[1], row[0])`. -/
def scheduleOrder (x y : String × Nat) : Prop := y.2 < x.2 ∨ x.2 = y.2 ∧ x.1 ≤ y.1

instance : DecidableRel scheduleOrder := fun x y => inferInstanceAs (Decidable (y.2 < x.2 ∨ x.2 = y.2 ∧ x.1 ≤ y.1))

/-- `min(range(count), key=lambda index: (loads[index], index))`; `none` is the `ValueError` of an empty range. -/
def leastLoaded : List Nat → Option Nat
  | [] => none
  | load :: rest => if ∀ other ∈ rest, load ≤ other then some 0 else (leastLoaded rest).map (· + 1)

def placeCase (state : List (List String) × List Nat) (row : String × Nat) : Option (List (List String) × List Nat) :=
  (leastLoaded state.2).map fun worker =>
    (state.1.modify worker (· ++ [row.1]), state.2.modify worker (· + row.2))

def balancedCaseChunks (weightedCases : List (String × Nat)) (workers : Nat) :
    Option (List (List String) × List Nat) :=
  let pending := weightedCases.insertionSort scheduleOrder
  let count := min workers pending.length
  pending.foldlM placeCase (List.replicate count [], List.replicate count 0)

/-- What a listed case weighs. -/
def weightOf (weightedCases : List (String × Nat)) (case : String) : Nat :=
  ((weightedCases.find? fun row => row.1 = case).map Prod.snd).getD 0

section Order

theorem scheduleOrder_total (x y : String × Nat) : scheduleOrder x y ∨ scheduleOrder y x := by
  unfold scheduleOrder
  obtain h | h := String.le_total x.1 y.1 <;> obtain hw | hw | hw := Nat.lt_trichotomy x.2 y.2
  all_goals simp_all [eq_comm]

theorem scheduleOrder_trans {x y z : String × Nat} (hxy : scheduleOrder x y) (hyz : scheduleOrder y z) :
    scheduleOrder x z := by
  obtain h | ⟨h, hle⟩ := hxy <;> obtain h' | ⟨h', hle'⟩ := hyz
  · exact .inl (h'.trans h)
  · exact .inl (h' ▸ h)
  · exact .inl (h ▸ h')
  · exact .inr ⟨h.trans h', String.le_trans hle hle'⟩

theorem scheduleOrder_antisymm {x y : String × Nat} (hxy : scheduleOrder x y) (hyx : scheduleOrder y x) : x = y := by
  obtain h | ⟨h, hle⟩ := hxy <;> obtain h' | ⟨h', hle'⟩ := hyx
  · omega
  · omega
  · omega
  · exact Prod.ext (String.le_antisymm hle hle') h

instance : Std.Total scheduleOrder := ⟨scheduleOrder_total⟩

instance : IsTrans (String × Nat) scheduleOrder := ⟨fun _ _ _ => scheduleOrder_trans⟩

instance : Std.Antisymm scheduleOrder := ⟨fun _ _ => scheduleOrder_antisymm⟩

/-- Sorting forgets the order in which the cases came. -/
theorem insertionSort_perm {weighted other : List (String × Nat)} (h : other.Perm weighted) :
    other.insertionSort scheduleOrder = weighted.insertionSort scheduleOrder := by
  refine List.Perm.eq_of_pairwise' (List.pairwise_insertionSort scheduleOrder other)
    (List.pairwise_insertionSort scheduleOrder weighted) ?_
  exact (List.perm_insertionSort _ other).trans (h.trans (List.perm_insertionSort _ weighted).symm)

end Order

section Greedy

variable {loads : List Nat} {i : Nat}

/-- The chosen worker has a least load. -/
theorem leastLoaded_spec (h : leastLoaded loads = some i) :
    ∃ load, loads[i]? = some load ∧ ∀ other ∈ loads, load ≤ other := by
  induction loads generalizing i with
  | nil => cases h
  | cons load rest ih =>
    unfold leastLoaded at h
    split at h
    · rename_i hleast
      cases h
      exact ⟨load, rfl, List.forall_mem_cons.mpr ⟨Nat.le_refl _, hleast⟩⟩
    · rename_i hmore
      obtain ⟨j, hj, rfl⟩ := Option.map_eq_some_iff.mp h
      obtain ⟨least, hget, hall⟩ := ih hj
      refine ⟨least, hget, List.forall_mem_cons.mpr ⟨?_, hall⟩⟩
      obtain ⟨other, hother, hlt⟩ := by simpa only [not_forall, exists_prop, Nat.not_le] using hmore
      exact (hall other hother).trans (Nat.le_of_lt hlt)

theorem leastLoaded_isSome (h : loads ≠ []) : (leastLoaded loads).isSome := by
  induction loads with
  | nil => exact absurd rfl h
  | cons load rest ih =>
    unfold leastLoaded
    split
    · rfl
    · rename_i hmore
      have hrest : rest ≠ [] := by
        rintro rfl
        simp at hmore
      rw [Option.isSome_map]
      exact ih hrest

variable {weight : String → Nat} {m : Nat} {rows : List (String × Nat)}

/-- The loop is list scheduling, and its loads are those of its chunks. -/
theorem foldlM_placeCase (hm : 0 < m) (hweight : ∀ row ∈ rows, weight row.1 = row.2) :
    ∃ chunks, Assigns weight m (rows.map Prod.fst) chunks ∧
      rows.foldlM placeCase (List.replicate m [], List.replicate m 0) = some (chunks, chunks.map (load weight)) := by
  induction rows using List.reverseRecOn with
  | nil => exact ⟨_, .start, by rw [List.foldlM_nil, List.map_replicate]; rfl⟩
  | append_singleton rows row ih =>
    obtain ⟨chunks, hassigns, hfold⟩ := ih fun row hrow => hweight row (List.mem_append_left _ hrow)
    have hrow := hweight row (List.mem_append_right _ (List.mem_singleton_self row))
    have hne : chunks.map (load weight) ≠ [] := by
      rw [Ne, List.map_eq_nil_iff, ← List.length_eq_zero_iff, hassigns.length_eq]
      omega
    obtain ⟨worker, hworker⟩ := Option.isSome_iff_exists.mp (leastLoaded_isSome hne)
    obtain ⟨least, hget, hall⟩ := leastLoaded_spec hworker
    rw [List.getElem?_map, Option.map_eq_some_iff] at hget
    obtain ⟨chunk, hchunk, rfl⟩ := hget
    have hplaced : Assigns weight m (rows.map Prod.fst ++ [row.1]) (chunks.set worker (chunk ++ [row.1])) :=
      .place row.1 hassigns hchunk fun other hother => hall _ (List.mem_map_of_mem hother)
    refine ⟨_, by rw [List.map_append]; exact hplaced, ?_⟩
    rw [List.foldlM_append, hfold]
    have hchunks : chunks.modify worker (· ++ [row.1]) = chunks.set worker (chunk ++ [row.1]) := by
      rw [List.modify_eq_set_getElem?, hchunk]
      rfl
    have hloads : (chunks.map (load weight)).modify worker (· + row.2) =
        (chunks.set worker (chunk ++ [row.1])).map (load weight) := by
      rw [List.modify_eq_set_getElem?, List.getElem?_map, hchunk, List.map_set, load_concat, hrow]
      rfl
    simp only [Option.bind_eq_bind, Option.bind_some, List.foldlM_cons, List.foldlM_nil, placeCase, hworker,
      Option.map_some, hchunks, hloads]
    rfl

end Greedy

section Labels

variable {workers : Nat}

/-- The labels and the loads of the chunks of a campaign. -/
def labelled (chunks : List Chunk) : List (List String) × List Nat :=
  (chunks.map fun chunk => chunk.cases.map Case.label, chunks.map Chunk.load)

theorem placeCase_labelled (chunks : List Chunk) (row : Case × Nat) (hne : chunks ≠ []) :
    placeCase (labelled chunks) (row.1.label, row.2) = some (labelled (place chunks row)) := by
  induction chunks with
  | nil => exact absurd rfl hne
  | cons chunk rest ih =>
    have hloads : (∀ other ∈ (labelled rest).2, chunk.load ≤ other) ↔ ∀ other ∈ rest, chunk.load ≤ other.load := by
      simp [labelled]
    simp only [placeCase, labelled, List.map_cons, leastLoaded, place] at hloads ih ⊢
    by_cases hleast : ∀ other ∈ rest, chunk.load ≤ other.load
    · rw [if_pos (hloads.mpr hleast), if_pos hleast]
      simp
    · have hrest : rest ≠ [] := by
        rintro rfl
        simp at hleast
      obtain ⟨worker, hworker, hstate⟩ := Option.map_eq_some_iff.mp (ih hrest)
      obtain ⟨hcases, hloads'⟩ := Prod.mk.inj hstate
      rw [if_neg fun h => hleast (hloads.mp h), if_neg hleast, hworker]
      simp only [Option.map_some, List.modify_succ_cons, List.map_cons, hcases, hloads']

/-- The chunks of the campaign are those of its labels. -/
theorem balancedCaseChunks_labels (weighted : List (Case × Nat)) (hworkers : 0 < workers) :
    balancedCaseChunks (weighted.map fun row => (row.1.label, row.2)) workers =
      some (labelled (Campaigns.balancedCaseChunks weighted workers)) := by
  have hsorted : (weighted.map fun row => (row.1.label, row.2)).insertionSort scheduleOrder =
      (weighted.insertionSort Earlier).map fun row => (row.1.label, row.2) :=
    (List.map_insertionSort Earlier scheduleOrder _ weighted fun _ _ _ _ => Iff.rfl).symm
  have hrun (rows : List (Case × Nat)) (chunks : List Chunk) (hne : rows ≠ [] → chunks ≠ []) :
      (rows.map fun row => (row.1.label, row.2)).foldlM placeCase (labelled chunks) =
        some (labelled (rows.foldl place chunks)) := by
    induction rows generalizing chunks with
    | nil => rfl
    | cons row rows ih =>
      have hchunks := hne (List.cons_ne_nil _ _)
      rw [List.map_cons, List.foldlM_cons, placeCase_labelled chunks row hchunks, List.foldl_cons]
      exact ih _ fun _ h => hchunks ((place_ne_nil chunks row).mp h)
  have hstart : (List.replicate (min workers weighted.length) ([] : List String),
      List.replicate (min workers weighted.length) 0) =
      labelled (List.replicate (min workers weighted.length) ⟨[], 0⟩) := by
    simp [labelled]
  simp only [balancedCaseChunks, hsorted, List.length_map, List.length_insertionSort, hstart]
  refine hrun _ _ fun hne => ?_
  have hlength := List.length_pos_iff.mpr hne
  rw [List.length_insertionSort] at hlength
  rw [Ne, List.replicate_eq_nil_iff]
  omega

end Labels

section Result

variable {weighted : List (String × Nat)} {workers : Nat}

theorem weightOf_of_mem (hnames : (weighted.map Prod.fst).Nodup) {row : String × Nat} (hrow : row ∈ weighted) :
    weightOf weighted row.1 = row.2 := by
  unfold weightOf
  rw [Table.find?_key hnames hrow]
  rfl

/-- Largest first: the sorted cases come by descending weight. -/
theorem pending_descending (hnames : (weighted.map Prod.fst).Nodup) :
    ((weighted.insertionSort scheduleOrder).map Prod.fst).Pairwise
      fun a b => weightOf weighted b ≤ weightOf weighted a := by
  rw [List.pairwise_map]
  refine (List.pairwise_insertionSort scheduleOrder weighted).imp_of_mem fun {x y} hx hy horder => ?_
  rw [weightOf_of_mem hnames ((List.mem_insertionSort _).mp hx), weightOf_of_mem hnames ((List.mem_insertionSort _).mp hy)]
  obtain hlt | ⟨heq, _⟩ := horder
  · exact Nat.le_of_lt hlt
  · exact Nat.le_of_eq heq.symm

theorem balancedCaseChunks_assigns (hnames : (weighted.map Prod.fst).Nodup) (hworkers : 0 < workers) :
    ∃ chunks, Assigns (weightOf weighted) (min workers weighted.length)
        ((weighted.insertionSort scheduleOrder).map Prod.fst) chunks ∧
      balancedCaseChunks weighted workers = some (chunks, chunks.map (load (weightOf weighted))) := by
  have hlength : (weighted.insertionSort scheduleOrder).length = weighted.length := List.length_insertionSort ..
  simp only [balancedCaseChunks, hlength]
  cases hempty : weighted.length with
  | zero =>
    rw [List.length_eq_zero_iff] at hempty
    subst hempty
    exact ⟨[], by simpa using @Assigns.start _ (weightOf []) 0, by simp⟩
  | succ n =>
    refine foldlM_placeCase (by omega) fun row hrow => weightOf_of_mem hnames ((List.mem_insertionSort _).mp hrow)

/-- The chunks share out the cases, none empty, with loads that no other way to share them out beats by much. -/
theorem balanced_chunks_bounded (weighted : List (String × Nat)) (workers : Nat) (hnames : (weighted.map Prod.fst).Nodup)
    (hpositive : ∀ row ∈ weighted, 0 < row.2) (hworkers : 0 < workers) :
    ∃ chunks loads, balancedCaseChunks weighted workers = some (chunks, loads) ∧
      chunks.length = min workers weighted.length ∧ (∀ chunk ∈ chunks, chunk ≠ []) ∧
      chunks.flatten.Perm (weighted.map Prod.fst) ∧
      loads = chunks.map (fun chunk => (chunk.map (weightOf weighted)).sum) ∧
      (∀ largest, (∀ row ∈ weighted, row.2 ≤ largest) → ∀ most ∈ loads, ∀ least ∈ loads, most ≤ least + largest) ∧
      (∀ partition : List (List String), partition.length = min workers weighted.length →
        partition.flatten.Perm (weighted.map Prod.fst) →
        ∀ makespan, (∀ part ∈ partition, (part.map (weightOf weighted)).sum ≤ makespan) →
        ∀ most ∈ loads, 3 * min workers weighted.length * most ≤ (4 * min workers weighted.length - 1) * makespan) ∧
      ∀ other : List (String × Nat), other.Perm weighted →
        balancedCaseChunks other workers = some (chunks, loads) := by
  obtain ⟨chunks, hassigns, hresult⟩ := balancedCaseChunks_assigns hnames hworkers
  have hperm : ((weighted.insertionSort scheduleOrder).map Prod.fst).Perm (weighted.map Prod.fst) :=
    (List.perm_insertionSort _ weighted).map _
  have hweight (case : String) (hcase : case ∈ (weighted.insertionSort scheduleOrder).map Prod.fst) :
      ∃ row ∈ weighted, weightOf weighted case = row.2 := by
    obtain ⟨row, hrow, rfl⟩ := List.mem_map.mp (hperm.mem_iff.mp hcase)
    exact ⟨row, hrow, weightOf_of_mem hnames hrow⟩
  refine ⟨chunks, _, hresult, hassigns.length_eq, ?_, hassigns.flatten_perm.trans hperm, rfl, ?_, ?_, ?_⟩
  · refine hassigns.filled (fun case hcase => ?_) ?_
    · obtain ⟨row, hrow, heq⟩ := hweight case hcase
      exact heq ▸ hpositive row hrow
    · rw [hperm.length_eq, List.length_map]
      exact Nat.min_le_right _ _
  · intro largest hlargest most hmost least hleast
    obtain ⟨part, hpart, rfl⟩ := List.mem_map.mp hmost
    obtain ⟨other, hother, rfl⟩ := List.mem_map.mp hleast
    refine hassigns.spread (fun case hcase => ?_) part hpart other hother
    obtain ⟨row, hrow, heq⟩ := hweight case hcase
    exact heq ▸ hlargest row hrow
  · intro partition hlength hpartition makespan hmakespan most hmost
    obtain ⟨part, hpart, rfl⟩ := List.mem_map.mp hmost
    exact hassigns.bounded (pending_descending hnames) (List.Sublist.refl _) hlength
      (hpartition.trans hperm.symm) hmakespan part hpart
  · intro other hother
    rw [← hresult]
    unfold balancedCaseChunks
    rw [insertionSort_perm hother]

/-- Three workers, seven cases: the loads come to 11 where 9 would do, the very ratio of the bound. -/
theorem balanced_chunks_bounded_seven :
    ∃ chunks loads, balancedCaseChunks [("1:A", 5), ("1:B", 5), ("2:A", 4), ("2:B", 4), ("3:A", 3), ("3:B", 3), ("4:A", 3)] 3 =
      some (chunks, loads) ∧ chunks.length = 3 ∧ loads = [11, 8, 8] := by
  obtain ⟨chunks, loads, hresult, hlength, _⟩ := balanced_chunks_bounded
    [("1:A", 5), ("1:B", 5), ("2:A", 4), ("2:B", 4), ("3:A", 3), ("3:B", 3), ("4:A", 3)] 3
    (by decide) (by decide) (by decide)
  refine ⟨chunks, loads, hresult, hlength, ?_⟩
  have hrun : (balancedCaseChunks
      [("1:A", 5), ("1:B", 5), ("2:A", 4), ("2:B", 4), ("3:A", 3), ("3:B", 3), ("4:A", 3)] 3).map Prod.snd =
      some [11, 8, 8] := by decide
  rw [hresult] at hrun
  exact Option.some.inj hrun

end Result

end FidbPoc.Campaigns.Balancing
