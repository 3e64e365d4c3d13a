import FidbPoc.Lib.LowerBound
import FidbPoc.Lookup.Order
import Mathlib.Data.List.GetD

namespace FidbPoc.Lookup

open Std FidbPoc.Lib

def sentinel : UInt32 := 4294967295

section Cpu

def Sorted (rows : List Row) : Prop := rows.Pairwise fun r r' => (r.order r').isLE = true

/-- `np.searchsorted` of sorted records: those before the index are smaller than the query, the others are not. -/
structure SearchSorted (searchsorted : List Row → Row → Nat) : Prop where
  before : ∀ rows query, Sorted rows → ∀ i row, rows[i]? = some row → i < searchsorted rows query →
    row.order query = .lt
  after : ∀ rows query, Sorted rows → ∀ i row, rows[i]? = some row → searchsorted rows query ≤ i →
    row.order query ≠ .lt

/-- `_cpu_probe`. -/
def cpuProbe (searchsorted : List Row → Row → Nat) (reference queries : List Row) : List UInt32 :=
  queries.map fun query =>
    let position := searchsorted reference query
    if reference[position]? = some query then UInt32.ofNat position else sentinel

end Cpu

section Shader

/-- A matrix as the `array<u32>` of a storage buffer. -/
def buffer (rows : List Row) : List UInt32 := rows.flatMap Row.words

/-- The loop of `compare` over the words that remain, with the index arithmetic of `u32`. -/
def compareWords (referenceKeys queryKeys : List UInt32) (referenceIndex queryIndex : UInt32) :
    Nat → UInt32 → Ordering
  | 0, _ => .eq
  | remaining + 1, word =>
    let referenceValue := referenceKeys.getD (referenceIndex * 7 + word).toNat 0
    let queryValue := queryKeys.getD (queryIndex * 7 + word).toNat 0
    if referenceValue < queryValue then .lt
    else if queryValue < referenceValue then .gt
    else compareWords referenceKeys queryKeys referenceIndex queryIndex remaining (word + 1)

/-- `compare` of the shader: less, equal and greater stand for -1, 0 and 1. -/
def shaderCompare (referenceKeys queryKeys : List UInt32) (referenceIndex queryIndex : UInt32) : Ordering :=
  compareWords referenceKeys queryKeys referenceIndex queryIndex 7 0

/-- `main` of the shader: what the invocation writes to its position, if it does. -/
def shaderMain (referenceKeys queryKeys : List UInt32) (referenceCount queryCount queryIndex : UInt32) :
    Option UInt32 :=
  if queryCount ≤ queryIndex then none
  else
    let low := lowerBound (fun middle => shaderCompare referenceKeys queryKeys middle queryIndex = .lt) 0 referenceCount
    some (if low < referenceCount ∧ shaderCompare referenceKeys queryKeys low queryIndex = .eq then low else sentinel)

/-- The invocations of the dispatched workgroups. -/
def invocationIds (queryCount workgroupSize : Nat) : List UInt32 :=
  (List.range ((queryCount + workgroupSize - 1) / workgroupSize * workgroupSize)).map UInt32.ofNat

def invoke (main : UInt32 → Option UInt32) (positions : List UInt32) (invocation : UInt32) : List UInt32 :=
  match main invocation with
  | some position => positions.set invocation.toNat position
  | none => positions

/-- `_gpu_probe`; the device runs the invocations in an order of its own. -/
def gpuProbe (invocations : List UInt32) (reference queries : List Row) : List UInt32 :=
  invocations.foldl
    (invoke (shaderMain (buffer reference) (buffer queries) (UInt32.ofNat reference.length)
      (UInt32.ofNat queries.length)))
    (List.replicate queries.length 0)

end Shader

section Buffers

theorem Row.words_length (row : Row) : row.words.length = 7 := rfl

theorem buffer_getD {rows : List Row} {i w : Nat} {row : Row} (hrow : rows[i]? = some row) (hw : w < 7) :
    (buffer rows).getD (i * 7 + w) 0 = row.words.getD w 0 := by
  induction rows generalizing i with
  | nil => cases hrow
  | cons r rows ih =>
    rw [buffer, List.flatMap_cons]
    cases i with
    | zero =>
      obtain rfl := Option.some.inj hrow
      rw [Nat.zero_mul, Nat.zero_add, List.getD_append _ _ _ _ (by rw [Row.words_length]; exact hw)]
    | succ i =>
      have hle : r.words.length ≤ (i + 1) * 7 + w := by
        rw [Row.words_length]
        omega
      have hindex : (i + 1) * 7 + w - r.words.length = i * 7 + w := by
        rw [Row.words_length]
        omega
      rw [List.getD_append_right _ _ _ _ hle, hindex]
      exact ih hrow

/-- Up to the word that the index reaches without wrapping around, the shader reads the row itself. -/
theorem word_getD {rows : List Row} {i : Nat} {row : Row} (hrow : rows[i]? = some row) (hi : i * 7 + 7 ≤ 4294967296)
    {w : UInt32} (hw : w.toNat < 7) :
    (buffer rows).getD (UInt32.ofNat i * 7 + w).toNat 0 = row.words.getD w.toNat 0 := by
  have hindex : (UInt32.ofNat i * 7 + w).toNat = i * 7 + w.toNat := by
    simp only [UInt32.toNat_add, UInt32.toNat_mul, UInt32.toNat_ofNat', UInt32.reduceToNat]
    omega
  rw [hindex, buffer_getD hrow hw]

theorem compare_branch (a b : UInt32) (rest : Ordering) :
    (if a < b then .lt else if b < a then .gt else rest) = (compare a b).then rest := by
  by_cases h : a < b
  · rw [if_pos h, compare_eq_lt.mpr h]
    rfl
  · by_cases h' : b < a
    · rw [if_neg h, if_pos h', compare_eq_gt.mpr h']
      rfl
    · obtain rfl : a = b := UInt32.le_antisymm (UInt32.not_lt.mp h') (UInt32.not_lt.mp h)
      rw [if_neg h, if_neg h', @ReflCmp.compare_self _ compare _ a]
      rfl

/-- The loop compares the words that it reads lexicographically. -/
theorem compareWords_eq {referenceKeys queryKeys as bs : List UInt32} {i j : UInt32} (ha : as.length = 7)
    (hb : bs.length = 7)
    (hread : ∀ w : UInt32, w.toNat < 7 → referenceKeys.getD (i * 7 + w).toNat 0 = as.getD w.toNat 0 ∧
      queryKeys.getD (j * 7 + w).toNat 0 = bs.getD w.toNat 0)
    (remaining : Nat) {word : UInt32} (hword : word.toNat + remaining = 7) :
    compareWords referenceKeys queryKeys i j remaining word =
      List.compareLex compare (as.drop word.toNat) (bs.drop word.toNat) := by
  induction remaining generalizing word with
  | zero =>
    rw [compareWords, List.drop_eq_nil_of_le (by omega), List.drop_eq_nil_of_le (by omega)]
    rfl
  | succ remaining ih =>
    obtain ⟨hr, hq⟩ := hread word (by omega)
    have hnext : (word + 1).toNat = word.toNat + 1 := by
      simp only [UInt32.toNat_add, UInt32.reduceToNat]
      omega
    have hlt : word.toNat < as.length := by omega
    have hlt' : word.toNat < bs.length := by omega
    rw [compareWords, hr, hq, compare_branch, ih (by omega), hnext, List.drop_eq_getElem_cons hlt, List.drop_eq_getElem_cons hlt',
      List.compareLex_cons_cons, List.getD_eq_getElem _ _ hlt, List.getD_eq_getElem _ _ hlt']

theorem shaderCompare_eq {reference queries : List Row} {i j : Nat} {row query : Row} (hrow : reference[i]? = some row)
    (hquery : queries[j]? = some query) (hi : i * 7 + 7 ≤ 4294967296) (hj : j * 7 + 7 ≤ 4294967296) :
    shaderCompare (buffer reference) (buffer queries) (UInt32.ofNat i) (UInt32.ofNat j) = row.order query :=
  compareWords_eq rfl rfl (fun _ hw => ⟨word_getD hrow hi hw, word_getD hquery hj hw⟩) 7 rfl

end Buffers

section Dispatch

variable {main : UInt32 → Option UInt32} {i : Nat} {value : UInt32}

theorem invoke_length (positions : List UInt32) (x : UInt32) : (invoke main positions x).length = positions.length := by
  unfold invoke
  split
  · exact List.length_set
  · rfl

theorem invoke_getElem? (hi : i < 4294967296) (hmain : main (UInt32.ofNat i) = some value) {positions : List UInt32}
    (hlt : i < positions.length) (x : UInt32) :
    (invoke main positions x)[i]? = if x = UInt32.ofNat i then some value else positions[i]? := by
  have hword : (UInt32.ofNat i).toNat = i := UInt32.toNat_ofNat_of_lt' hi
  by_cases hx : x = UInt32.ofNat i
  · rw [if_pos hx, hx, invoke, hmain, hword]
    exact List.getElem?_set_self hlt
  · rw [if_neg hx, invoke]
    split
    · refine List.getElem?_set_ne fun he => hx ?_
      rw [← UInt32.toNat_inj, hword, he]
    · rfl

/-- Every position that an invocation writes holds what it writes, in whatever order they run. -/
theorem foldl_invoke (hi : i < 4294967296) (hmain : main (UInt32.ofNat i) = some value) {invocations : List UInt32}
    {positions : List UInt32} (hlt : i < positions.length) :
    (invocations.foldl (invoke main) positions)[i]? =
      if UInt32.ofNat i ∈ invocations then some value else positions[i]? := by
  induction invocations generalizing positions with
  | nil => simp
  | cons x invocations ih =>
    rw [List.foldl_cons, ih (by rw [invoke_length]; exact hlt), invoke_getElem? hi hmain hlt]
    by_cases hmem : UInt32.ofNat i ∈ invocations
    · rw [if_pos hmem, if_pos (List.mem_cons_of_mem x hmem)]
    · by_cases hx : x = UInt32.ofNat i
      · rw [if_neg hmem, if_pos hx, if_pos (List.mem_cons.mpr (.inl hx.symm))]
      · rw [if_neg hmem, if_neg hx, if_neg]
        intro he
        exact (List.mem_cons.mp he).elim (fun h => hx h.symm) hmem

theorem foldl_invoke_length (invocations positions : List UInt32) :
    (invocations.foldl (invoke main) positions).length = positions.length := by
  induction invocations generalizing positions with
  | nil => rfl
  | cons x invocations ih => rw [List.foldl_cons, ih, invoke_length]

/-- The workgroups cover the queries. -/
theorem mem_invocationIds {queryCount workgroupSize : Nat} (hsize : 0 < workgroupSize) (hi : i < queryCount) :
    UInt32.ofNat i ∈ invocationIds queryCount workgroupSize := by
  have hcover := @Nat.lt_div_mul_add (queryCount + workgroupSize - 1) workgroupSize hsize
  exact List.mem_map_of_mem (List.mem_range.mpr (by omega))

end Dispatch

end FidbPoc.Lookup
