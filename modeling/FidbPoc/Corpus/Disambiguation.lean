import FidbPoc.Corpus.Conservation
import FidbPoc.Lib.Separators

namespace FidbPoc.Corpus.HashTypes

open FidbPoc.Lib FidbPoc.Lib.Sums FidbPoc.Lib.Joins FidbPoc.Lib.Separators

section Signatures

variable {hashType : HashType} {observations : Observations} {s s' : Signature} {owner : String} {topLimit : Nat}

def signatureOwners (observations : Observations) (s : Signature) : List String :=
  (((references observations).filter fun row => row.1.signature = s).map fun row => row.1.owner).dedup

theorem mem_signatureOwners :
    owner ∈ signatureOwners observations s ↔ (s, owner) ∈ (compileSignatureOwner observations).keys := by
  rw [mem_signatureOwner]
  simp only [signatureOwners, List.mem_dedup, List.mem_map, List.mem_filter, decide_eq_true_eq, and_assoc]

theorem get?_exactPopulation {n : Nat} (h : (exactPopulation (compileSignatureOwner observations)).get? s = some n) :
    n = (signatureOwners observations s).length := by
  obtain ⟨-, rfl⟩ := Dict.get?_groupBy.mp h
  refine Dict.length_dedup_congr fun owner => ?_
  simp only [List.mem_map, List.mem_filter, decide_eq_true_eq, and_assoc]
  exact exists_row_iff (P := fun s' owner' => s' = s ∧ owner' = owner)

theorem exists_exactPopulation (h : owner ∈ signatureOwners observations s) :
    ∃ n, (exactPopulation (compileSignatureOwner observations)).get? s = some n := by
  obtain ⟨row, hrow, heq⟩ := List.mem_map.mp (mem_signatureOwners.mp h)
  exact ⟨_, Dict.get?_groupBy.mpr ⟨⟨row, hrow, congrArg Prod.fst heq⟩, rfl⟩⟩

/-- An owner of a signature owns its value. -/
theorem mem_ownersOf_component (h : owner ∈ signatureOwners observations s) :
    owner ∈ ownersOf hashType observations (hashType.component s) := by
  obtain ⟨row, hrow, hs, howner⟩ := mem_signatureOwner.mp (mem_signatureOwners.mp h)
  exact mem_ownersOf.mpr ⟨row, hrow, hs ▸ rfl, howner⟩

/-- The disambiguated rows are the signatures of one owner whose value has more. -/
theorem mem_disambiguated : (s, owner) ∈ disambiguated hashType (compileSignatureOwner observations) ↔
    owner ∈ signatureOwners observations s ∧ (signatureOwners observations s).length = 1 ∧
      1 < (ownersOf hashType observations (hashType.component s)).length := by
  simp only [disambiguated, List.mem_map]
  constructor
  · rintro ⟨⟨⟨row, component, population⟩, exact, n⟩, hjoined, heq⟩
    obtain ⟨hinner, hexact, honExact⟩ := mem_join.mp hjoined
    obtain ⟨hrow, hpopulation, honPopulation⟩ := mem_join.mp hinner
    obtain ⟨hkey, hmany⟩ := Bool.and_eq_true_iff.mp honPopulation
    obtain ⟨hexactKey, hone⟩ := Bool.and_eq_true_iff.mp honExact
    have hs : row.1 = (s, owner) := heq
    have hcount := (mem_population hpopulation).2
    have hn := get?_exactPopulation (Dict.get?_eq_some_iff.mpr hexact)
    simp only [decide_eq_true_eq] at hkey hmany hexactKey hone
    rw [hs] at hkey hexactKey
    subst hkey hexactKey
    refine ⟨mem_signatureOwners.mpr (hs ▸ Dict.mem_keys_of_mem hrow), ?_, ?_⟩
    · exact hn.symm.trans hone
    · rwa [← hcount]
  · rintro ⟨howner, hone, hmany⟩
    obtain ⟨row, hrow, heq⟩ := List.mem_map.mp (mem_signatureOwners.mp howner)
    obtain ⟨population, hpopulation⟩ := exists_population (mem_valuesOf.mpr ⟨owner, mem_ownersOf_component howner⟩)
    obtain ⟨n, hn⟩ := exists_exactPopulation howner
    refine ⟨((row, (hashType.component s, population)), (s, n)), mem_join.mpr ⟨mem_join.mpr ⟨hrow, ?_, ?_⟩, ?_, ?_⟩, heq⟩
    · exact Dict.get?_eq_some_iff.mp hpopulation
    · rw [Bool.and_eq_true_iff, decide_eq_true_eq, decide_eq_true_eq, (get?_population hpopulation).2, heq]
      exact ⟨rfl, hmany⟩
    · exact Dict.get?_eq_some_iff.mp hn
    · rw [Bool.and_eq_true_iff, decide_eq_true_eq, decide_eq_true_eq, get?_exactPopulation hn, heq]
      exact ⟨rfl, hone⟩

theorem nodup_disambiguated : (disambiguated hashType (compileSignatureOwner observations)).Nodup := by
  have hinner := @join_entries_sublist _ _ _ _ (compileSignatureOwner observations).entries
    (fun row => hashType.component row.1.1) (componentPopulation hashType (compileSignatureOwner observations))
    fun population => decide (1 < population.distinctOwners)
  have houter := @join_entries_sublist _ _ _ _
    (join (fun row component => decide (component.1 = hashType.component row.1.1) && decide (1 < component.2.distinctOwners))
      (compileSignatureOwner observations).entries
      (componentPopulation hashType (compileSignatureOwner observations)).entries)
    (fun row => row.1.1.1) (exactPopulation (compileSignatureOwner observations)) fun n => decide (n = 1)
  have hrows := (houter.map Prod.fst).trans hinner
  have hkeys := hrows.map Prod.fst
  rw [List.map_map, List.map_map] at hkeys
  exact hkeys.nodup (Dict.nodup _)

/-- The values of disambiguated rows have enough pairs of a value and an owner. -/
theorem disambiguated_le_links : ((((disambiguated hashType (compileSignatureOwner observations)).map fun row =>
    (hashType.component row.1, row.2)).dedup.length : ℕ) : ℤ) ≤
      (analysis hashType observations topLimit).ambiguousOwnerLinks := by
  have hlinks : (analysis hashType observations topLimit).ambiguousOwnerLinks =
      total (fun component => if 1 < (ownersOf hashType observations component).length then
        ((ownersOf hashType observations component).length : ℤ) else 0) (valuesOf hashType observations) :=
    total_population fun _ n => if 1 < n then (n : ℤ) else 0
  have hmany : total (fun component => if 1 < (ownersOf hashType observations component).length then
      ((ownersOf hashType observations component).length : ℤ) else 0) (valuesOf hashType observations) =
      (((valuesOf hashType observations).flatMap fun component => if 1 < (ownersOf hashType observations component).length then
        (ownersOf hashType observations component).map fun owner => (component, owner) else []).length : ℕ) := by
    rw [length_flatMap_eq_total]
    refine total_congr fun component _ => ?_
    split
    · rw [List.length_map]
    · rfl
  rw [hlinks, hmany, Nat.cast_le]
  refine (List.subperm_of_subset (List.nodup_dedup _) fun pair hpair => ?_).length_le
  obtain ⟨row, hrow, rfl⟩ := List.mem_map.mp (List.mem_dedup.mp hpair)
  obtain ⟨howner, -, hcount⟩ := mem_disambiguated.mp hrow
  have hmem : row.2 ∈ ownersOf hashType observations (hashType.component row.1) := mem_ownersOf_component howner
  refine List.mem_flatMap.mpr ⟨_, mem_valuesOf.mpr ⟨_, hmem⟩, ?_⟩
  rw [if_pos hcount]
  exact List.mem_map_of_mem hmem

/-- The joined text of a signature with one owner is that of a signature of another owner. -/
def Collides (observations : Observations) : Prop :=
  ∃ s s' owner owner', signatureOwners observations s = [owner] ∧ owner' ∈ signatureOwners observations s' ∧ owner' ≠ owner ∧
    HashType.complete.component s' = HashType.complete.component s

theorem exists_ne_of_many {owners : List String} (hnodup : owners.Nodup) (h : 1 < owners.length) (owner : String) :
    ∃ owner' ∈ owners, owner' ≠ owner := by
  obtain ⟨x, hx, y, hy, hne⟩ := exists_ne_of_two hnodup h
  by_cases hxo : x = owner
  · exact ⟨y, hy, fun hyo => hne (hxo.trans hyo.symm)⟩
  · exact ⟨x, hx, hxo⟩

/-- The complete type disambiguates nothing, unless the joined texts of different signatures agree. -/
theorem length_disambiguated_complete_iff :
    (analysis .complete observations topLimit).completeDisambiguatedOwnerSignatures = 0 ↔ ¬Collides observations := by
  have hlength : (analysis .complete observations topLimit).completeDisambiguatedOwnerSignatures = 0 ↔
      disambiguated .complete (compileSignatureOwner observations) = [] := List.length_eq_zero_iff
  rw [hlength, List.eq_nil_iff_forall_not_mem]
  constructor
  · rintro h ⟨s, s', owner, owner', hone, howner', hne, htext⟩
    refine h (s, owner) (mem_disambiguated.mpr ⟨hone ▸ List.mem_singleton_self _, hone ▸ rfl, ?_⟩)
    have hmem : owner ∈ ownersOf .complete observations (HashType.complete.component s) :=
      mem_ownersOf_component (hone ▸ List.mem_singleton_self _)
    have hmem' : owner' ∈ ownersOf .complete observations (HashType.complete.component s) :=
      htext ▸ mem_ownersOf_component howner'
    have hsubset : [owner', owner] ⊆ ownersOf .complete observations (HashType.complete.component s) := by
      simp [hmem, hmem']
    have hnodup : [owner', owner].Nodup := by simpa using hne
    exact (List.subperm_of_subset hnodup hsubset).length_le
  · rintro hcollides ⟨s, owner⟩ hmem
    obtain ⟨howner, hone, hmany⟩ := mem_disambiguated.mp hmem
    obtain ⟨owner', howner', hne⟩ := exists_ne_of_many (List.nodup_dedup _) hmany owner
    obtain ⟨row, hrow, htext, hrowOwner⟩ := mem_ownersOf.mp howner'
    obtain ⟨sole, hsole⟩ := List.length_eq_one_iff.mp hone
    have heq : owner = sole := by
      rw [hsole] at howner
      exact List.mem_singleton.mp howner
    refine hcollides ⟨s, row.1.signature, owner, owner', heq ▸ hsole, ?_, hne, htext⟩
    exact mem_signatureOwners.mpr (mem_signatureOwner.mpr ⟨row, hrow, rfl, hrowOwner⟩)

end Signatures

section Hashes

variable {observations : Observations} {s s' : Signature}

/-- The hashes have no colon, as hexadecimal hashes do not. -/
def Signature.Plain (s : Signature) : Prop := ':' ∉ s.fullHash.toList ∧ ':' ∉ s.specificHash.toList

theorem text_toList (s : Signature) : s.text.toList = s.fullHash.toList ++ ':' :: (s.specificHash.toList ++ ':' ::
    ((toString s.additionalSize).toList ++ ':' :: (toString s.codeSize).toList)) := by
  simp only [Corpus.Signature.text, String.toList_append, toString, List.append_assoc]
  rfl

/-- Plain hashes are read off the joined text. -/
theorem component_complete_injective (h : Signature.Plain s) (h' : Signature.Plain s')
    (heq : HashType.complete.component s = HashType.complete.component s') : s = s' := by
  have hscope : s.scope = s'.scope := congrArg Component.scope heq
  have hlanguage : s.language = s'.language := congrArg Component.language heq
  have htext : s.text.toList = s'.text.toList := congrArg (fun component => component.value.toList) heq
  have hsize (n : Int) : ':' ∉ (toString n).toList := not_mem_toString_int (by decide) (by decide)
  rw [text_toList, text_toList] at htext
  obtain ⟨hfull, hrest⟩ := split_inj h.1 h'.1 htext
  obtain ⟨hspecific, hsizes⟩ := split_inj h.2 h'.2 hrest
  obtain ⟨hadditional, hcode⟩ := split_inj (hsize _) (hsize _) hsizes
  cases s
  cases s'
  simp only [Signature.mk.injEq]
  exact ⟨hscope, hlanguage, String.toList_injective hfull, String.toList_injective hspecific,
    toString_int_injective (String.toList_injective hadditional), toString_int_injective (String.toList_injective hcode)⟩

theorem not_collides_of_plain (h : ∀ row ∈ references observations, Signature.Plain row.1.signature) : ¬Collides observations := by
  rintro ⟨s, s', owner, owner', hone, howner', hne, htext⟩
  have hplain {t : Signature} {o : String} (ho : o ∈ signatureOwners observations t) : Signature.Plain t := by
    obtain ⟨row, hrow, rfl, -⟩ := mem_signatureOwner.mp (mem_signatureOwners.mp ho)
    exact h row hrow
  have hs : s' = s := component_complete_injective (hplain howner') (hplain (hone ▸ List.mem_singleton_self owner)) htext
  rw [hs, hone] at howner'
  exact hne (List.mem_singleton.mp howner')

/-- The disambiguated rows are counted once each, they are the signatures of one owner whose value has more, the links of those
values suffice for them, and with plain hashes the complete type has none. -/
theorem hash_types_disambiguated (hashType : HashType) (observations : Observations) (topLimit : Nat) :
    (disambiguated hashType (compileSignatureOwner observations)).Nodup ∧
    (∀ s owner, (s, owner) ∈ disambiguated hashType (compileSignatureOwner observations) ↔
      signatureOwners observations s = [owner] ∧ 1 < (ownersOf hashType observations (hashType.component s)).length) ∧
    ((((disambiguated hashType (compileSignatureOwner observations)).map fun row =>
      (hashType.component row.1, row.2)).dedup.length : ℕ) : ℤ) ≤ (analysis hashType observations topLimit).ambiguousOwnerLinks ∧
    ((analysis .complete observations topLimit).completeDisambiguatedOwnerSignatures = 0 ↔ ¬Collides observations) ∧
    ((∀ row ∈ references observations, Signature.Plain row.1.signature) →
      (analysis .complete observations topLimit).completeDisambiguatedOwnerSignatures = 0) := by
  refine ⟨nodup_disambiguated, fun s owner => ?_, disambiguated_le_links, length_disambiguated_complete_iff, fun hplain => ?_⟩
  · rw [mem_disambiguated, ← and_assoc]
    refine and_congr_left fun _ => ?_
    constructor
    · rintro ⟨howner, hone⟩
      obtain ⟨sole, hsole⟩ := List.length_eq_one_iff.mp hone
      rw [hsole] at howner ⊢
      rw [List.mem_singleton.mp howner]
    · intro hone
      rw [hone]
      exact ⟨List.mem_singleton_self owner, rfl⟩
  · exact length_disambiguated_complete_iff.mpr (not_collides_of_plain hplain)

end Hashes

end FidbPoc.Corpus.HashTypes
