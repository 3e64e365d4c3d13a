import FidbPoc.Lookup.Packing

namespace FidbPoc.Lookup

open Std FidbPoc.Lib FidbPoc.Lib.Checked FidbPoc.Lib.Lexicographic

/-- Sixteen lowercase hexadecimal digits. -/
structure IsHash (text : String) : Prop where
  length : text.toList.length = 16
  digits : ∀ c ∈ text.toList, c ∈ Python.hexDigits

structure Packable (k : LookupKey) : Prop where
  fullHash : IsHash k.fullHash
  specificHash : IsHash k.specificHash
  additionalSize : 0 ≤ k.additionalSize ∧ k.additionalSize < 4294967296
  codeSize : 0 ≤ k.codeSize ∧ k.codeSize < 4294967296

def hashNumber (text : String) : Nat := value 16 0 (text.toList.map Python.digit)

section Hashes

variable {text text' : String}

theorem IsHash.values (h : IsHash text) : ∀ d ∈ text.toList.map Python.digit, d < 16 := by
  intro d hd
  obtain ⟨c, hc, rfl⟩ := List.mem_map.mp hd
  exact (Python.hexValue_digit (h.digits c hc)).2

theorem hashValue_eq (h : IsHash text) : hashValue text = .ok (hashNumber text : Int) := by
  have hne : text.toList ≠ [] := fun hnil => by
    have hlength := h.length
    rw [hnil] at hlength
    cases hlength
  rw [hashValue, Python.intBase16_digits hne h.digits]
  rfl

theorem hashNumber_lt (h : IsHash text) : hashNumber text < 4294967296 * 4294967296 := by
  have hlt := value_lt h.values 0
  rw [List.length_map, h.length] at hlt
  exact hlt

/-- The text of a hash sorts as its number does. -/
theorem compare_hashNumber (h : IsHash text) (h' : IsHash text') :
    compare (hashNumber text) (hashNumber text') = collate text text' := by
  have hlength : (text.toList.map Python.digit).length = (text'.toList.map Python.digit).length := by
    rw [List.length_map, List.length_map, h.length, h'.length]
  rw [hashNumber, hashNumber, compare_value hlength h.values h'.values, Nat.compare_eq_eq.mpr rfl, Ordering.eq_then,
    collate]
  apply compareLex_map
  intro c hc d hd
  exact Python.compare_digit (h.digits c hc) (h'.digits d hd)

end Hashes

section Words

theorem uint32_eq_ok {n : Int} {w : UInt32} : uint32 n = .ok w ↔ (0 ≤ n ∧ n < 4294967296) ∧ w = UInt32.ofNat n.toNat := by
  simp only [uint32, bind_eq_ok, require_eq_ok, pure_eq_ok, exists_and_left, exists_const]
  rw [eq_comm]

theorem uint32_total {n : Int} (h : 0 ≤ n ∧ n < 4294967296) : ∃ w, uint32 n = .ok w := ⟨_, uint32_eq_ok.mpr ⟨h, rfl⟩⟩

/-- Words are ordered as the integers that they hold. -/
theorem compare_uint32 {m n : Int} {w v : UInt32} (hw : uint32 m = .ok w) (hv : uint32 n = .ok v) :
    compare w v = compare m n := by
  obtain ⟨hm, rfl⟩ := uint32_eq_ok.mp hw
  obtain ⟨hn, rfl⟩ := uint32_eq_ok.mp hv
  have hword : ∀ {k : Int}, 0 ≤ k ∧ k < 4294967296 → (UInt32.ofNat k.toNat).toNat = k.toNat := by
    intro k hk
    apply UInt32.toNat_ofNat_of_lt'
    simp only [UInt32.size]
    omega
  have hlt : UInt32.ofNat m.toNat < UInt32.ofNat n.toNat ↔ m < n := by
    rw [UInt32.lt_iff_toNat_lt, hword hm, hword hn]
    omega
  have heq : UInt32.ofNat m.toNat = UInt32.ofNat n.toNat ↔ m = n := by
    rw [← UInt32.toNat_inj, hword hm, hword hn]
    omega
  change compareOfLessAndEq _ _ = compareOfLessAndEq _ _
  simp only [compareOfLessAndEq, hlt, heq]

theorem compare_ofNat (m n : Nat) : compare (m : Int) (n : Int) = compare m n := by
  change compareOfLessAndEq _ _ = compareOfLessAndEq _ _
  simp only [compareOfLessAndEq, Int.ofNat_lt, Int.ofNat_inj]

/-- The high word decides, then the low word. -/
theorem compare_split (m n : Nat) {high high' low low' : UInt32} (hh : uint32 ((m : Int) / 4294967296) = .ok high)
    (hh' : uint32 ((n : Int) / 4294967296) = .ok high') (hl : uint32 ((m : Int) % 4294967296) = .ok low)
    (hl' : uint32 ((n : Int) % 4294967296) = .ok low') :
    compare m n = (compare high high').then (compare low low') := by
  have hsplit := @compare_step 4294967296 (m / 4294967296) (n / 4294967296) _ _ (Nat.mod_lt m (by omega))
    (Nat.mod_lt n (by omega))
  rw [Nat.div_add_mod, Nat.div_add_mod] at hsplit
  rw [hsplit, compare_uint32 hh hh', compare_uint32 hl hl', ← compare_ofNat, ← compare_ofNat]
  rfl

end Words

instance collate_refl : ReflCmp collate where
  compare_self {a} := @ReflCmp.compare_self _ (List.compareLex compare) _ a.toList

instance collate_trans : TransCmp collate where
  eq_swap {a b} := @OrientedCmp.eq_swap _ (List.compareLex compare) _ a.toList b.toList
  isLE_trans {a b c} := @TransCmp.isLE_trans _ (List.compareLex compare) _ a.toList b.toList c.toList

theorem collate_eq_eq {a b : String} : collate a b = .eq ↔ a = b := by
  rw [collate, @LawfulEqCmp.compare_eq_iff_eq _ (List.compareLex compare) _ _ _, String.toList_inj]

theorem Row.order_eq_eq {r r' : Row} : r.order r' = .eq ↔ r = r' := by
  have hlist : r.order r' = .eq ↔ r.words = r'.words := @LawfulEqCmp.compare_eq_iff_eq _ (List.compareLex compare) _ _ _
  rw [hlist]
  cases r
  cases r'
  simp [Row.words]

theorem LookupKey.order_eq_eq {k k' : LookupKey} : k.order k' = .eq ↔ k = k' := by
  cases k
  cases k'
  simp [LookupKey.order, collate_eq_eq]

section Packing

variable {scopes : List String} {k k' : LookupKey} {r r' : Row}

/-- Packed rows are ordered as the keys are in SQL. -/
theorem packRow_order (hscopes : scopes.Pairwise fun a b => collate a b = .lt) (hk : Packable k) (hk' : Packable k')
    (h : packRow scopes k = .ok r) (h' : packRow scopes k' = .ok r') : r.order r' = k.order k' := by
  simp only [packRow, hashValue_eq hk.fullHash, hashValue_eq hk.specificHash, hashValue_eq hk'.fullHash,
    hashValue_eq hk'.specificHash, ok_bind, bind_eq_ok, pure_eq_ok] at h h'
  obtain ⟨scope, hs, w0, h0, w1, h1, w2, h2, w3, h3, w4, h4, w5, h5, w6, h6, rfl⟩ := h
  obtain ⟨scope', hs', w0', h0', w1', h1', w2', h2', w3', h3', w4', h4', w5', h5', w6', h6', rfl⟩ := h'
  have hscope : compare w0 w0' = collate k.scope k'.scope := by
    simp only [scopeIndex] at hs hs'
    split at hs
    · rename_i hmem
      split at hs'
      · rename_i hmem'
        rw [pure_eq_ok] at hs hs'
        subst hs hs'
        rw [compare_uint32 h0 h0', compare_ofNat]
        exact compare_idxOf hscopes hmem hmem'
      · cases hs'
    · cases hs
  have hfull := compare_hashNumber hk.fullHash hk'.fullHash
  have hspecific := compare_hashNumber hk.specificHash hk'.specificHash
  rw [compare_split _ _ h1 h1' h2 h2'] at hfull
  rw [compare_split _ _ h3 h3' h4 h4'] at hspecific
  rw [LookupKey.order, ← hscope, ← hfull, ← hspecific, ← compare_uint32 h5 h5', ← compare_uint32 h6 h6']
  simp only [Row.order, Row.words, List.compareLex_cons_cons, List.compareLex_nil_nil, Ordering.then_eq,
    Ordering.then_assoc]

theorem packRow_total (hk : Packable k) (hmem : k.scope ∈ scopes) (hlength : scopes.length ≤ 4294967296) :
    ∃ r, packRow scopes k = .ok r := by
  have hscope := List.idxOf_lt_length_of_mem hmem
  have hfull := hashNumber_lt hk.fullHash
  have hspecific := hashNumber_lt hk.specificHash
  obtain ⟨w0, h0⟩ := @uint32_total (scopes.idxOf k.scope) (by omega)
  obtain ⟨w1, h1⟩ := @uint32_total ((hashNumber k.fullHash : Int) / 4294967296) (by omega)
  obtain ⟨w2, h2⟩ := @uint32_total ((hashNumber k.fullHash : Int) % 4294967296) (by omega)
  obtain ⟨w3, h3⟩ := @uint32_total ((hashNumber k.specificHash : Int) / 4294967296) (by omega)
  obtain ⟨w4, h4⟩ := @uint32_total ((hashNumber k.specificHash : Int) % 4294967296) (by omega)
  obtain ⟨w5, h5⟩ := uint32_total hk.additionalSize
  obtain ⟨w6, h6⟩ := uint32_total hk.codeSize
  refine ⟨⟨w0, w1, w2, w3, w4, w5, w6⟩, ?_⟩
  simp only [packRow, bind_eq_ok, pure_eq_ok]
  exact ⟨_, hashValue_eq hk.fullHash, _, hashValue_eq hk.specificHash, _, if_pos hmem, w0, h0, w1, h1, w2, h2, w3, h3,
    w4, h4, w5, h5, w6, h6, rfl⟩

end Packing

end FidbPoc.Lookup
