import FidbPoc.Lookup.Agreement

namespace FidbPoc.Lookup

open Std FidbPoc.Lib FidbPoc.Lib.Checked FidbPoc.Corpus

instance LookupKey.order_trans : TransCmp LookupKey.order :=
  have := @Lexicographic.trans_on LookupKey String collate _ (·.scope)
  have := @Lexicographic.trans_on LookupKey String collate _ (·.fullHash)
  have := @Lexicographic.trans_on LookupKey String collate _ (·.specificHash)
  have := @Lexicographic.trans_on LookupKey Int compare _ (·.additionalSize)
  have := @Lexicographic.trans_on LookupKey Int compare _ (·.codeSize)
  inferInstanceAs (TransCmp (compareLex (fun k k' : LookupKey => collate k.scope k'.scope)
    (compareLex (fun k k' => collate k.fullHash k'.fullHash) (compareLex
      (fun k k' => collate k.specificHash k'.specificHash) (compareLex
        (fun k k' => compare k.additionalSize k'.additionalSize) (fun k k' => compare k.codeSize k'.codeSize))))))

section Selection

variable {index : Index} {selects : Nat → Bool}

theorem mem_scopes {scope : String} : scope ∈ scopes index ↔ ∃ s ∈ index.signature.keys, s.scope = scope := by
  rw [scopes, List.mem_insertionSort, List.mem_dedup, List.mem_map]

/-- The scopes are numbered in their own order. -/
theorem scopes_sorted (index : Index) : (scopes index).Pairwise fun a b => collate a b = .lt := by
  have hsorted : (scopes index).Pairwise fun a b => (collate a b).isLE = true := List.pairwise_insertionSort _ _
  have hnodup : (scopes index).Nodup := (List.perm_insertionSort _ _).nodup_iff.mpr (List.nodup_dedup _)
  refine (hsorted.and hnodup).imp ?_
  rintro a b ⟨hle, hne⟩
  cases h : collate a b with
  | lt => rfl
  | eq => exact (hne (collate_eq_eq.mp h)).elim
  | gt => rw [h] at hle; cases hle

theorem selectKeys_sorted (index : Index) (selects : Nat → Bool) :
    (selectKeys index selects).Pairwise fun k k' => (k.order k').isLE = true :=
  List.pairwise_insertionSort _ _

theorem mem_selectKeys {k : LookupKey} (h : k ∈ selectKeys index selects) :
    ∃ s ∈ index.signature.keys, lookupKey s = k := by
  rw [selectKeys, List.mem_insertionSort, List.mem_map] at h
  obtain ⟨e, he, rfl⟩ := h
  exact ⟨e.1, List.mem_map_of_mem (List.mem_of_mem_filter he), rfl⟩

end Selection

section Matrices

variable {index : Index} {selects : Nat → Bool} {k k' : LookupKey}

instance : Inhabited Row := ⟨⟨0, 0, 0, 0, 0, 0, 0⟩⟩

/-- The row of a key. -/
def pack (index : Index) (k : LookupKey) : Row := value (packRow (scopes index) k)

/-- Every signature of the index can be packed. -/
def PackableIndex (index : Index) : Prop := ∀ s ∈ index.signature.keys, Packable (lookupKey s)

theorem matrix_total (hindex : PackableIndex index) (hscopes : (scopes index).length ≤ 4294967296) :
    ∃ rows, matrix (selectKeys index selects) (scopes index) = .ok rows := by
  apply mapM_total
  intro k hk
  obtain ⟨s, hs, rfl⟩ := mem_selectKeys hk
  exact packRow_total (hindex s hs) (mem_scopes.mpr ⟨s, hs, rfl⟩) hscopes

theorem matrix_eq {keys : List LookupKey} {rows : List Row} (h : matrix keys (scopes index) = .ok rows) :
    rows = keys.map (pack index) ∧ ∀ k ∈ keys, packRow (scopes index) k = .ok (pack index k) := by
  obtain ⟨hok, hrows⟩ := mapM_eq_ok_iff.mp h
  refine ⟨hrows, fun k hk => ?_⟩
  obtain ⟨r, hr⟩ := hok k hk
  rw [pack, hr]
  rfl

/-- Packing keeps the order of the keys, and tells them apart. -/
theorem pack_order (hk : Packable k) (hk' : Packable k') (h : packRow (scopes index) k = .ok (pack index k))
    (h' : packRow (scopes index) k' = .ok (pack index k')) :
    (pack index k).order (pack index k') = k.order k' ∧ (pack index k = pack index k' ↔ k = k') := by
  have horder := packRow_order (scopes_sorted index) hk hk' h h'
  refine ⟨horder, ?_⟩
  rw [← Row.order_eq_eq, ← LookupKey.order_eq_eq, horder]

theorem packedMatrices_eq_ok {batchId : Nat} {reference queries : List Row} (hindex : PackableIndex index)
    (h : packedMatrices index batchId = .ok (reference, queries)) :
    reference = (referenceKeys index).map (pack index) ∧ queries = (queryKeys index batchId).map (pack index) ∧
      ∀ k ∈ referenceKeys index ++ queryKeys index batchId, ∀ k' ∈ referenceKeys index ++ queryKeys index batchId,
        (pack index k).order (pack index k') = k.order k' ∧ (pack index k = pack index k' ↔ k = k') := by
  simp only [packedMatrices, bind_eq_ok, pure_eq_ok] at h
  obtain ⟨rows, hrows, rows', hrows', he⟩ := h
  obtain ⟨rfl, rfl⟩ := Prod.mk.inj he
  obtain ⟨hreference, hok⟩ := matrix_eq hrows
  obtain ⟨hqueries, hok'⟩ := matrix_eq hrows'
  have hpacked : ∀ k ∈ referenceKeys index ++ queryKeys index batchId,
      Packable k ∧ packRow (scopes index) k = .ok (pack index k) := by
    intro k hk
    rcases List.mem_append.mp hk with hk | hk
    · obtain ⟨s, hs, rfl⟩ := mem_selectKeys hk
      exact ⟨hindex s hs, hok _ hk⟩
    · obtain ⟨s, hs, rfl⟩ := mem_selectKeys hk
      exact ⟨hindex s hs, hok' _ hk⟩
  refine ⟨hreference, hqueries, fun k hk k' hk' => ?_⟩
  obtain ⟨hp, hrow⟩ := hpacked k hk
  obtain ⟨hp', hrow'⟩ := hpacked k' hk'
  exact pack_order hp hp' hrow hrow'

end Matrices

section Samples

def zeros : String := "0000000000000000"

/-- A signature that differs from its likes in its code size only. -/
def sized (i : Nat) : Signature := ⟨"", "x86", zeros, zeros, 0, i⟩

def sizedKey (i : Nat) : LookupKey := ⟨"", zeros, zeros, 0, i⟩

def sizedRow (i : Nat) : Row := ⟨0, 0, 0, 0, 0, 0, UInt32.ofNat i⟩

theorem zeros_isHash : IsHash zeros where
  length := by decide
  digits := by
    have hall : zeros.toList.all (fun c => decide (c ∈ Python.hexDigits)) = true := by decide
    intro c hc
    simpa using List.all_eq_true.mp hall c hc

theorem sizedKey_packable {i : Nat} (hi : i < 4294967296) : Packable (sizedKey i) where
  fullHash := zeros_isHash
  specificHash := zeros_isHash
  additionalSize := by
    simp only [sizedKey]
    omega
  codeSize := by
    simp only [sizedKey]
    omega

theorem sized_order (i j : Nat) : (sizedKey i).order (sizedKey j) = compare i j := by
  simp only [LookupKey.order, sizedKey, collate_eq_eq.mpr rfl, Ordering.eq_then, compare_ofNat]
  rfl

/-- An index of the sizes up to `m`, all with an owner, and a batch that queries the last. -/
def sizedIndex (m : Nat) : Index :=
  { createDatabase ⟨"", ""⟩ with
    signature := ⟨(List.range (m + 1)).map fun i => (sized i, i), by
      rw [List.map_map]
      refine List.nodup_range.map fun i j hij => ?_
      simpa [sized] using hij⟩
    signatureState := ⟨(List.range (m + 1)).map fun i => (i, ⟨1, 1, 1, 1, 0, 0, 0, 1⟩), by
      rw [List.map_map]
      exact List.nodup_range.map fun _ _ hij => hij⟩
    signatureBatch := ⟨[((1, m), ⟨1, 1, 0, 0, 0⟩)], List.nodup_singleton _⟩ }

theorem sizedIndex_packable {m : Nat} (hm : m < 4294967296) : PackableIndex (sizedIndex m) := by
  intro s hs
  simp only [sizedIndex, Dict.keys, List.map_map, List.mem_map, List.mem_range] at hs
  obtain ⟨i, hi, rfl⟩ := hs
  exact sizedKey_packable (by omega)

/-- Three sizes, of which the first has an owner and the first and the last are queried. -/
def ownedIndex : Index :=
  { sizedIndex 2 with
    signatureState := ⟨[(0, ⟨1, 1, 1, 1, 0, 0, 0, 1⟩), (1, ⟨0, 0, 0, 0, 0, 0, 0, 1⟩)], by decide⟩
    signatureBatch := ⟨[((1, 0), ⟨1, 1, 0, 0, 0⟩), ((1, 2), ⟨1, 0, 0, 0, 1⟩)], by decide⟩ }

theorem sized_sorted (n : Nat) :
    ((List.range n).map sizedKey).Pairwise fun k k' => (k.order k').isLE = true := by
  rw [List.pairwise_map]
  refine List.pairwise_lt_range.imp fun {i j} hij => ?_
  rw [sized_order, Nat.compare_eq_lt.mpr hij]
  rfl

theorem sized_referenceKeys (m : Nat) : referenceKeys (sizedIndex m) = (List.range (m + 1)).map sizedKey := by
  have hall : ((sizedIndex m).signature.entries.filter fun e =>
      ((sizedIndex m).signatureState.get? e.2).any fun state => decide (0 < state.distinctOwners)) =
        (sizedIndex m).signature.entries := by
    rw [List.filter_eq_self]
    intro e he
    obtain ⟨i, hi, rfl⟩ := List.mem_map.mp he
    have hget : (sizedIndex m).signatureState.get? i = some ⟨1, 1, 1, 1, 0, 0, 0, 1⟩ :=
      Dict.get?_eq_some_iff.mpr (List.mem_map_of_mem hi)
    simp [hget]
  rw [referenceKeys, selectKeys, hall]
  simp only [sizedIndex, List.map_map]
  exact (sized_sorted (m + 1)).insertionSort_eq

theorem sized_queryKeys (m : Nat) : queryKeys (sizedIndex m) 1 = [sizedKey m] := by
  have hget : ∀ i, ((sizedIndex m).signatureBatch.get? (1, i)).any (fun row => decide (0 < row.queryObservations)) =
      decide (i = m) := by
    intro i
    by_cases hi : i = m
    · simp [Dict.get?, sizedIndex, hi]
    · simp [Dict.get?, sizedIndex, Ne.symm hi, hi]
  have hlast : ((sizedIndex m).signature.entries.filter fun e =>
      ((sizedIndex m).signatureBatch.get? (1, e.2)).any fun row => decide (0 < row.queryObservations)) =
        [(sized m, m)] := by
    simp only [hget]
    simp only [sizedIndex, List.range_succ, List.map_append, List.filter_append, List.map_cons, List.map_nil]
    rw [List.filter_eq_nil_iff.mpr, List.nil_append]
    · simp
    · intro e he
      obtain ⟨i, hi, rfl⟩ := List.mem_map.mp he
      have hlt := List.mem_range.mp hi
      simp only [decide_eq_true_eq]
      omega
  rw [queryKeys, selectKeys, hlast]
  rfl

theorem sized_matrices {m : Nat} (hm : m < 4294967296) :
    packedMatrices (sizedIndex m) 1 = .ok ((List.range (m + 1)).map sizedRow, [sizedRow m]) := by
  have hmem : "" ∈ scopes (sizedIndex m) := by
    rw [mem_scopes]
    refine ⟨sized m, ?_, rfl⟩
    simp only [sizedIndex, Dict.keys, List.map_map]
    exact List.mem_map_of_mem (List.mem_range.mpr (Nat.lt_succ_self m))
  have hscope : (scopes (sizedIndex m)).idxOf "" = 0 := by
    cases hcons : scopes (sizedIndex m) with
    | nil => rw [hcons] at hmem; cases hmem
    | cons scope rest =>
      have hfirst : scope ∈ scopes (sizedIndex m) := hcons ▸ List.mem_cons_self
      obtain ⟨s, hs, rfl⟩ := mem_scopes.mp hfirst
      simp only [sizedIndex, Dict.keys, List.map_map, List.mem_map] at hs
      obtain ⟨i, -, rfl⟩ := hs
      exact List.idxOf_cons_self
  have hrow : ∀ i, i < 4294967296 → packRow (scopes (sizedIndex m)) (sizedKey i) = .ok (sizedRow i) := by
    intro i hi
    have hhash : hashValue zeros = .ok 0 := by decide
    have hindex : scopeIndex (scopes (sizedIndex m)) "" = .ok 0 := by
      rw [scopeIndex, if_pos hmem, hscope]
      rfl
    have hsize : uint32 (i : Int) = .ok (UInt32.ofNat i) := uint32_eq_ok.mpr ⟨by omega, rfl⟩
    have hzero : uint32 0 = .ok 0 := uint32_eq_ok.mpr ⟨by omega, rfl⟩
    simp only [packRow, sizedKey, hhash, hindex, ok_bind, Int.zero_ediv, Int.zero_emod, hzero, hsize]
    rfl
  have hmatrix : ∀ n, n ≤ m + 1 → matrix ((List.range n).map sizedKey) (scopes (sizedIndex m)) =
      .ok ((List.range n).map sizedRow) := by
    intro n hn
    rw [matrix, mapM_of_ok (g := fun k => sizedRow k.codeSize.toNat), List.map_map]
    · rfl
    · intro k hk
      obtain ⟨i, hi, rfl⟩ := List.mem_map.mp hk
      have hlt := List.mem_range.mp hi
      exact hrow i (by omega)
  have hquery : matrix [sizedKey m] (scopes (sizedIndex m)) = .ok [sizedRow m] := by
    rw [matrix, List.mapM_cons, hrow m hm]
    rfl
  rw [packedMatrices, sized_referenceKeys, sized_queryKeys, hmatrix _ (Nat.le_refl _), ok_bind, hquery]
  rfl

theorem sizedRow_order {i j : Nat} (hj : j < 4294967296) (hij : i < j) : (sizedRow i).order (sizedRow j) = .lt := by
  have hword : compare (UInt32.ofNat i) (UInt32.ofNat j) = .lt := by
    rw [compare_eq_lt, UInt32.lt_iff_toNat_lt, UInt32.toNat_ofNat', UInt32.toNat_ofNat']
    omega
  simp only [Row.order, Row.words, sizedRow, List.compareLex_cons_cons, List.compareLex_nil_nil, hword,
    @ReflCmp.compare_self _ compare _ (0 : UInt32)]
  rfl

theorem sizedRows_sorted {n : Nat} (hn : n ≤ 4294967296) : Sorted ((List.range n).map sizedRow) := by
  rw [Sorted, List.pairwise_map]
  refine List.pairwise_lt_range.imp_of_mem fun {i j} _ hj hij => ?_
  have hlt := List.mem_range.mp hj
  rw [sizedRow_order (by omega) hij]
  rfl

theorem sized_word {i v : Nat} (hv : v < 6) : (sizedRow i).words.getD v 0 = 0 := by
  match v, hv with
  | 0, _ | 1, _ | 2, _ | 3, _ | 4, _ | 5, _ => rfl

theorem sized_word_zero {v : Nat} (hv : v < 7) : (sizedRow 0).words.getD v 0 = 0 := by
  match v, hv with
  | 0, _ | 1, _ | 2, _ | 3, _ | 4, _ | 5, _ | 6, _ => rfl

/-- The seven words of the last row wrap around, and the shader reads the first row in their place: it finds every
row below a query that the last row answers. -/
theorem sized_wrapped {m : Nat} (hm : m * 7 + 4 = 4294967296) :
    gpuProbe [0] ((List.range (m + 1)).map sizedRow) [sizedRow m] = [sentinel] := by
  set reference := (List.range (m + 1)).map sizedRow with hreference
  have hrow : ∀ i, i ≤ m → reference[i]? = some (sizedRow i) := by
    intro i hi
    rw [hreference, List.getElem?_map, List.getElem?_range (by omega), Option.map_some]
  have hbelow : ∀ i, i ≤ m →
      shaderCompare (buffer reference) (buffer [sizedRow m]) (UInt32.ofNat i) 0 = .lt := by
    intro i hi
    rw [show (0 : UInt32) = UInt32.ofNat 0 from rfl]
    rcases Nat.lt_or_eq_of_le hi with hlt | rfl
    · rw [shaderCompare_eq (hrow i hi) rfl (by omega) (by omega)]
      exact sizedRow_order (by omega) hlt
    · rw [← @sizedRow_order 0 i (by omega) (by omega)]
      refine compareWords_eq rfl rfl (fun w hw => ⟨?_, word_getD rfl (by omega) hw⟩) 7 rfl
      have hindex : (UInt32.ofNat i * 7 + w).toNat = (i * 7 + w.toNat) % 4294967296 := by
        simp only [UInt32.toNat_add, UInt32.toNat_mul, UInt32.toNat_ofNat', UInt32.reduceToNat]
        omega
      by_cases hw' : w.toNat < 4
      · rw [hindex, Nat.mod_eq_of_lt (by omega), buffer_getD (hrow i (Nat.le_refl i)) hw, sized_word (by omega)]
        exact (sized_word_zero hw).symm
      · have hwrap : (i * 7 + w.toNat) % 4294967296 = 0 * 7 + (w.toNat - 4) := by omega
        rw [hindex, hwrap, buffer_getD (hrow 0 (by omega)) (by omega), sized_word_zero (by omega)]
        exact (sized_word_zero hw).symm
  set below : UInt32 → Bool := fun middle =>
    shaderCompare (buffer reference) (buffer [sizedRow m]) middle 0 = .lt with hbelowDef
  have hall : ∀ i, i < m + 1 → below (UInt32.ofNat i) = true := by
    intro i hi
    simp only [hbelowDef, decide_eq_true_eq]
    exact hbelow i (by omega)
  obtain ⟨hle, -, hafter⟩ := @lowerBound_indices below (m + 1) (by omega) fun i j hij hj _ => hall i (by omega)
  set low := lowerBound below 0 (UInt32.ofNat (m + 1)) with hlow
  have hend : ¬low < UInt32.ofNat reference.length := by
    rw [hreference, List.length_map, List.length_range, UInt32.lt_iff_toNat_lt,
      UInt32.toNat_ofNat_of_lt' (by simp only [UInt32.size]; omega)]
    intro hlt
    have hnot := hafter low.toNat (Nat.le_refl _) hlt
    rw [hall low.toNat hlt] at hnot
    cases hnot
  have hlength : UInt32.ofNat reference.length = UInt32.ofNat (m + 1) := by
    rw [hreference, List.length_map, List.length_range]
  have hmain : shaderMain (buffer reference) (buffer [sizedRow m]) (UInt32.ofNat reference.length)
      (UInt32.ofNat [sizedRow m].length) 0 = some sentinel := by
    have hfirst : ¬UInt32.ofNat [sizedRow m].length ≤ 0 := of_decide_eq_false rfl
    rw [shaderMain, if_neg hfirst]
    simp only
    rw [if_neg]
    rintro ⟨hlt, -⟩
    rw [hlength] at hlt
    exact hend (hlength ▸ hlt)
  rw [gpuProbe, List.foldl_cons, List.foldl_nil, invoke, hmain]
  rfl

end Samples

end FidbPoc.Lookup
