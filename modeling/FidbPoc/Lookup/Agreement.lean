import FidbPoc.Lookup.Probe

namespace FidbPoc.Lookup

open Std FidbPoc.Lib FidbPoc.Lib.Checked FidbPoc.Lib.Lexicographic

section First

variable {α : Type} [DecidableEq α]

/-- The index of the first equal element, or the sentinel. -/
def firstIndex (xs : List α) (x : α) : UInt32 := if x ∈ xs then UInt32.ofNat (xs.idxOf x) else sentinel

/-- The sentinel is no index of a list that is short enough. -/
theorem firstIndex_spec {xs : List α} (hlength : xs.length < 4294967296) (x : α) :
    (firstIndex xs x = sentinel ↔ x ∉ xs) ∧ (x ∈ xs → (firstIndex xs x).toNat = xs.idxOf x) := by
  by_cases hmem : x ∈ xs
  · have hlt := List.idxOf_lt_length_of_mem hmem
    have hword : (UInt32.ofNat (xs.idxOf x)).toNat = xs.idxOf x := UInt32.toNat_ofNat_of_lt' (by simp only [UInt32.size]; omega)
    rw [firstIndex, if_pos hmem]
    refine ⟨⟨fun he => ?_, fun hnot => (hnot hmem).elim⟩, fun _ => hword⟩
    have hvalue := congrArg UInt32.toNat he
    rw [hword] at hvalue
    simp only [sentinel, UInt32.reduceToNat] at hvalue
    omega
  · rw [firstIndex, if_neg hmem]
    exact ⟨⟨fun _ => hmem, fun _ => rfl⟩, fun h => (hmem h).elim⟩

/-- Images under a packing that tells the element from the others have the same first index. -/
theorem firstIndex_map {β : Type} [DecidableEq β] {f : α → β} {xs : List α} {x : α}
    (hinj : ∀ y ∈ xs, f y = f x → y = x) : firstIndex (xs.map f) (f x) = firstIndex xs x := by
  have hsame : (f x ∈ xs.map f ↔ x ∈ xs) ∧ (xs.map f).idxOf (f x) = xs.idxOf x := by
    induction xs with
    | nil => simp
    | cons y xs ih =>
      obtain ⟨hmem, hindex⟩ := ih fun z hz => hinj z (List.mem_cons_of_mem y hz)
      rw [List.map_cons]
      by_cases hy : y = x
      · rw [hy, List.idxOf_cons_self, List.idxOf_cons_self]
        simp
      · have hfy : f y ≠ f x := fun he => hy (hinj y List.mem_cons_self he)
        rw [List.idxOf_cons_ne _ hfy, List.idxOf_cons_ne _ hy, hindex, List.mem_cons, List.mem_cons, hmem]
        simp [hfy.symm, Ne.symm hy]
  rw [firstIndex, firstIndex, hsame.2]
  simp only [hsame.1]

end First

instance Row.order_trans : TransCmp Row.order := trans_on Row.words

/-- The search by a scan of the sorted records. -/
def scan (rows : List Row) (query : Row) : Nat := (rows.takeWhile fun row => row.order query = .lt).length

theorem searchSorted_scan : SearchSorted scan where
  before := by
    intro rows query hsorted i row hrow hi
    clear hsorted
    induction rows generalizing i with
    | nil => cases hrow
    | cons r rows ih =>
      by_cases hr : r.order query = .lt
      · rw [scan, List.takeWhile_cons_of_pos (by simpa using hr), List.length_cons] at hi
        cases i with
        | zero => exact Option.some.inj hrow ▸ hr
        | succ i => exact ih i hrow (Nat.succ_lt_succ_iff.mp hi)
      · rw [scan, List.takeWhile_cons_of_neg (by simpa using hr)] at hi
        cases hi
  after := by
    intro rows query hsorted i row hrow hi
    induction rows generalizing i with
    | nil => cases hrow
    | cons r rows ih =>
      obtain ⟨hfirst, hrest⟩ := List.pairwise_cons.mp hsorted
      by_cases hr : r.order query = .lt
      · rw [scan, List.takeWhile_cons_of_pos (by simpa using hr), List.length_cons] at hi
        cases i with
        | zero => cases hi
        | succ i => exact ih hrest i hrow (Nat.succ_le_succ_iff.mp hi)
      · cases i with
        | zero => exact Option.some.inj hrow ▸ hr
        | succ i =>
          have hle := hfirst row (List.mem_of_getElem? hrow)
          exact fun hlt => hr (TransCmp.lt_of_isLE_of_lt hle hlt)

section Probes

variable {reference queries : List Row} {query : Row}

/-- Where the rows before an index are smaller and the others are not, a row at the index is the first of its kind. -/
theorem first_of_bounds (hsorted : Sorted reference) {p : Nat}
    (hbefore : ∀ i row, reference[i]? = some row → i < p → row.order query = .lt)
    (hafter : ∀ i row, reference[i]? = some row → p ≤ i → row.order query ≠ .lt) :
    (if reference[p]? = some query then UInt32.ofNat p else sentinel) = firstIndex reference query := by
  by_cases hmem : query ∈ reference
  · have hlt := List.idxOf_lt_length_of_mem hmem
    have hat : reference[reference.idxOf query]? = some query := by
      rw [List.getElem?_eq_getElem hlt, List.getElem_idxOf]
    have hself : query.order query = .eq := Row.order_eq_eq.mpr rfl
    have hle : p ≤ reference.idxOf query := by
      by_contra hgt
      rw [hbefore _ _ hat (Nat.not_le.mp hgt)] at hself
      cases hself
    have hp : p < reference.length := Nat.lt_of_le_of_lt hle hlt
    have hrow : reference[p] = query := by
      rcases Nat.eq_or_lt_of_le hle with he | hlt'
      · simp [he]
      · have hpair := List.pairwise_iff_getElem.mp hsorted p _ hp hlt hlt'
        rw [List.getElem_idxOf] at hpair
        have hnot := hafter p _ (List.getElem?_eq_getElem hp) (Nat.le_refl p)
        apply Row.order_eq_eq.mp
        cases horder : reference[p].order query with
        | lt => exact (hnot horder).elim
        | eq => rfl
        | gt => rw [horder] at hpair; cases hpair
    have hfirst : reference.idxOf query = p := by
      refine Nat.le_antisymm ?_ hle
      by_contra hgt
      have hne := List.not_of_lt_findIdx (Nat.not_le.mp hgt)
      simp [hrow] at hne
    rw [firstIndex, if_pos hmem, hfirst, if_pos]
    rw [List.getElem?_eq_getElem hp, hrow]
  · rw [firstIndex, if_neg hmem, if_neg]
    exact fun he => hmem (List.mem_of_getElem? he)

theorem cpuProbe_eq {searchsorted : List Row → Row → Nat} (hs : SearchSorted searchsorted) (hsorted : Sorted reference) :
    cpuProbe searchsorted reference queries = queries.map (firstIndex reference) := by
  apply List.map_congr_left
  intro query _
  exact first_of_bounds hsorted (hs.before reference query hsorted) (hs.after reference query hsorted)

/-- An invocation writes the first index of its query. -/
theorem shaderMain_eq (hsorted : Sorted reference) (hreference : 7 * reference.length ≤ 4294967296)
    (hqueries : 7 * queries.length ≤ 4294967296) {i : Nat} (hquery : queries[i]? = some query) :
    shaderMain (buffer reference) (buffer queries) (UInt32.ofNat reference.length) (UInt32.ofNat queries.length)
      (UInt32.ofNat i) = some (firstIndex reference query) := by
  have hi : i < queries.length := (List.getElem?_eq_some_iff.mp hquery).1
  have hguard : ¬UInt32.ofNat queries.length ≤ UInt32.ofNat i := by
    rw [UInt32.le_iff_toNat_le, UInt32.toNat_ofNat', UInt32.toNat_ofNat']
    omega
  have hcompare : ∀ {j row}, reference[j]? = some row →
      shaderCompare (buffer reference) (buffer queries) (UInt32.ofNat j) (UInt32.ofNat i) = row.order query := by
    intro j row hrow
    have hj : j < reference.length := (List.getElem?_eq_some_iff.mp hrow).1
    exact shaderCompare_eq hrow hquery (by omega) (by omega)
  set below : UInt32 → Bool := fun middle =>
    shaderCompare (buffer reference) (buffer queries) middle (UInt32.ofNat i) = .lt with hbelow
  have hiff : ∀ {j row}, reference[j]? = some row → (below (UInt32.ofNat j) = true ↔ row.order query = .lt) := by
    intro j row hrow
    simp only [hbelow, decide_eq_true_eq, hcompare hrow]
  obtain ⟨hle, hbefore, hafter⟩ := @lowerBound_indices below reference.length (by omega) (by
    intro j k hjk hk hkb
    have hj : j < reference.length := by omega
    rw [hiff (List.getElem?_eq_getElem hk)] at hkb
    rw [hiff (List.getElem?_eq_getElem hj)]
    rcases Nat.eq_or_lt_of_le hjk with rfl | hlt
    · exact hkb
    · exact TransCmp.lt_of_isLE_of_lt (List.pairwise_iff_getElem.mp hsorted _ _ hj hk hlt) hkb)
  set low := lowerBound below 0 (UInt32.ofNat reference.length) with hlow
  have hresult := @first_of_bounds reference query hsorted low.toNat
    (fun j row hrow hj => (hiff hrow).mp (hbefore j hj))
    (fun j row hrow hj horder => by
      have hnot := hafter j hj (List.getElem?_eq_some_iff.mp hrow).1
      rw [(hiff hrow).mpr horder] at hnot
      cases hnot)
  have hfound : (low < UInt32.ofNat reference.length ∧
      shaderCompare (buffer reference) (buffer queries) low (UInt32.ofNat i) = .eq) ↔
        reference[low.toNat]? = some query := by
    have hcount : (UInt32.ofNat reference.length).toNat = reference.length :=
      UInt32.toNat_ofNat_of_lt' (by simp only [UInt32.size]; omega)
    have hlowCompare : ∀ {row}, reference[low.toNat]? = some row →
        shaderCompare (buffer reference) (buffer queries) low (UInt32.ofNat i) = row.order query := by
      intro row hrow
      have heq := hcompare hrow
      rwa [UInt32.ofNat_toNat] at heq
    rw [UInt32.lt_iff_toNat_lt, hcount]
    constructor
    · rintro ⟨hlt, heq⟩
      rw [hlowCompare (List.getElem?_eq_getElem hlt), Row.order_eq_eq] at heq
      rw [List.getElem?_eq_getElem hlt, heq]
    · intro he
      exact ⟨(List.getElem?_eq_some_iff.mp he).1, by rw [hlowCompare he, Row.order_eq_eq]⟩
  have hmain : shaderMain (buffer reference) (buffer queries) (UInt32.ofNat reference.length)
      (UInt32.ofNat queries.length) (UInt32.ofNat i) =
        some (if low < UInt32.ofNat reference.length ∧
          shaderCompare (buffer reference) (buffer queries) low (UInt32.ofNat i) = .eq then low else sentinel) := by
    rw [shaderMain, if_neg hguard]
  rw [hmain, ← hresult, UInt32.ofNat_toNat]
  simp only [hfound]

/-- The device finds the first index of every query. -/
theorem gpuProbe_eq (hsorted : Sorted reference) (hreference : 7 * reference.length ≤ 4294967296)
    (hqueries : 7 * queries.length ≤ 4294967296) {workgroupSize : Nat} (hsize : 0 < workgroupSize)
    {invocations : List UInt32} (hinvocations : invocations.Perm (invocationIds queries.length workgroupSize)) :
    gpuProbe invocations reference queries = queries.map (firstIndex reference) := by
  apply List.ext_getElem?
  intro i
  by_cases hi : i < queries.length
  · have hmain := shaderMain_eq hsorted hreference hqueries (List.getElem?_eq_getElem hi)
    have hmem := hinvocations.mem_iff.mpr (mem_invocationIds hsize hi)
    rw [gpuProbe, foldl_invoke (by omega) hmain (by rw [List.length_replicate]; exact hi), if_pos hmem, List.getElem?_map,
      List.getElem?_eq_getElem hi, Option.map_some]
  · rw [List.getElem?_eq_none, List.getElem?_eq_none]
    · rw [List.length_map]
      omega
    · rw [gpuProbe, foldl_invoke_length, List.length_replicate]
      omega

end Probes

end FidbPoc.Lookup
