import FidbPoc.Corpus.HashTypes

namespace FidbPoc.Corpus.HashTypes

open FidbPoc.Lib FidbPoc.Lib.Sums FidbPoc.Lib.Joins

section Population

variable (hashType : HashType) (observations : Observations)

/-- The observations of an owner's own signatures. -/
def references : List Observation := observations.entries.filter isReference

def valuesOf : List Component := ((references observations).map fun row => hashType.component row.1.signature).dedup

def ownersOf (component : Component) : List String :=
  (((references observations).filter fun row => hashType.component row.1.signature = component).map fun row => row.1.owner).dedup

/-- The pairs of a value and an owner. -/
def valueOwners : List (Component × String) :=
  ((references observations).map fun row => (hashType.component row.1.signature, row.1.owner)).dedup

variable {hashType : HashType} {observations : Observations} {component : Component} {owner : String} {s : Signature}

theorem mem_signatureOwner : (s, owner) ∈ (compileSignatureOwner observations).keys ↔
    ∃ row ∈ references observations, row.1.signature = s ∧ row.1.owner = owner := by
  unfold compileSignatureOwner references
  rw [Dict.mem_keys_groupBy]
  simp only [Prod.mk.injEq]

theorem mem_ownersOf : owner ∈ ownersOf hashType observations component ↔
    ∃ row ∈ references observations, hashType.component row.1.signature = component ∧ row.1.owner = owner := by
  simp only [ownersOf, List.mem_dedup, List.mem_map, List.mem_filter, decide_eq_true_eq, and_assoc]

theorem mem_valueOwners : (component, owner) ∈ valueOwners hashType observations ↔ owner ∈ ownersOf hashType observations component := by
  rw [mem_ownersOf]
  simp only [valueOwners, List.mem_dedup, List.mem_map, Prod.mk.injEq]

theorem mem_valuesOf : component ∈ valuesOf hashType observations ↔ ∃ owner, owner ∈ ownersOf hashType observations component := by
  simp only [mem_ownersOf, valuesOf, List.mem_dedup, List.mem_map]
  constructor
  · rintro ⟨row, hrow, hcomponent⟩
    exact ⟨_, row, hrow, hcomponent, rfl⟩
  · rintro ⟨_, row, hrow, hcomponent, -⟩
    exact ⟨row, hrow, hcomponent⟩

/-- A row of the signatures and owners stands for an observation. -/
theorem exists_reference {row : (Signature × String) × SignatureOwner} (h : row ∈ (compileSignatureOwner observations).entries) :
    ∃ o ∈ references observations, o.1.signature = row.1.1 ∧ o.1.owner = row.1.2 :=
  mem_signatureOwner.mp (Dict.mem_keys_of_mem h)

theorem exists_signatureOwner {o : Observation} (h : o ∈ references observations) :
    ∃ row ∈ (compileSignatureOwner observations).entries, row.1 = (o.1.signature, o.1.owner) := by
  have hkey := mem_signatureOwner.mpr ⟨o, h, rfl, rfl⟩
  obtain ⟨row, hrow, heq⟩ := List.mem_map.mp hkey
  exact ⟨row, hrow, heq⟩

/-- The rows of the signatures and owners show what the observations show. -/
theorem exists_row_iff {P : Signature → String → Prop} :
    (∃ row ∈ (compileSignatureOwner observations).entries, P row.1.1 row.1.2) ↔
      ∃ o ∈ references observations, P o.1.signature o.1.owner := by
  constructor
  · rintro ⟨row, hrow, h⟩
    obtain ⟨o, ho, hs, howner⟩ := exists_reference hrow
    exact ⟨o, ho, hs ▸ howner ▸ h⟩
  · rintro ⟨o, ho, h⟩
    obtain ⟨row, hrow, heq⟩ := exists_signatureOwner ho
    exact ⟨row, hrow, by rw [heq]; exact h⟩

theorem get?_population {population : Population}
    (h : (componentPopulation hashType (compileSignatureOwner observations)).get? component = some population) :
    component ∈ valuesOf hashType observations ∧
      population.distinctOwners = (ownersOf hashType observations component).length := by
  obtain ⟨⟨row, hrow, hcomponent⟩, rfl⟩ := Dict.get?_groupBy.mp h
  obtain ⟨o, ho, hs, -⟩ := exists_reference hrow
  refine ⟨List.mem_dedup.mpr (List.mem_map.mpr ⟨o, ho, hs ▸ hcomponent⟩), ?_⟩
  refine Dict.length_dedup_congr fun owner => ?_
  simp only [List.mem_map, List.mem_filter, decide_eq_true_eq, and_assoc]
  exact exists_row_iff (P := fun s owner' => hashType.component s = component ∧ owner' = owner)

theorem exists_population (h : component ∈ valuesOf hashType observations) :
    ∃ population, (componentPopulation hashType (compileSignatureOwner observations)).get? component = some population := by
  obtain ⟨o, ho, hcomponent⟩ := List.mem_map.mp (List.mem_dedup.mp h)
  obtain ⟨row, hrow, heq⟩ := exists_signatureOwner ho
  refine ⟨_, Dict.get?_groupBy.mpr ⟨⟨row, hrow, ?_⟩, rfl⟩⟩
  rw [heq]
  exact hcomponent

theorem mem_population {row : Component × Population}
    (h : row ∈ (componentPopulation hashType (compileSignatureOwner observations)).entries) :
    row.1 ∈ valuesOf hashType observations ∧ row.2.distinctOwners = (ownersOf hashType observations row.1).length :=
  get?_population (Dict.get?_eq_some_iff.mpr h)

theorem keys_population : (componentPopulation hashType (compileSignatureOwner observations)).keys.Perm
    (valuesOf hashType observations) := by
  refine (List.perm_ext_iff_of_nodup (Dict.nodup_keys _) (List.nodup_dedup _)).mpr fun component => ?_
  rw [Dict.mem_keys]
  exact ⟨fun ⟨_, h⟩ => (get?_population h).1, exists_population⟩

theorem distinctOwners_pos {row : Component × Population}
    (h : row ∈ (componentPopulation hashType (compileSignatureOwner observations)).entries) : 0 < row.2.distinctOwners := by
  obtain ⟨hvalue, hcount⟩ := mem_population h
  obtain ⟨owner, howner⟩ := mem_valuesOf.mp hvalue
  rw [hcount]
  exact List.length_pos_of_mem howner

end Population

section Links

variable {hashType : HashType} {observations : Observations} {component : Component} {topLimit : Nat}

/-- A sum over the table of the values is one over the values. -/
theorem total_population (f : Component → Nat → ℤ) :
    total (fun row => f row.1 row.2.distinctOwners) (componentPopulation hashType (compileSignatureOwner observations)).entries =
      total (fun component => f component (ownersOf hashType observations component).length) (valuesOf hashType observations) := by
  rw [← total_perm keys_population, Dict.keys, total_map]
  refine total_congr fun row hrow => ?_
  rw [(mem_population hrow).2]

theorem length_valueOwners : ((valueOwners hashType observations).length : ℤ) =
    total (fun component => ((ownersOf hashType observations component).length : ℤ)) (valuesOf hashType observations) := by
  have hvalues : (valuesOf hashType observations).Nodup := List.nodup_dedup _
  have hmem : ∀ pair ∈ valueOwners hashType observations, pair.1 ∈ valuesOf hashType observations :=
    fun pair hpair => mem_valuesOf.mpr ⟨pair.2, mem_valueOwners.mp hpair⟩
  have hgroups := total_groups Prod.fst (fun _ : Component × String => (1 : ℤ)) hvalues hmem
  have hone (rows : List (Component × String)) : total (fun _ => (1 : ℤ)) rows = rows.length := by simp [total]
  rw [← hone, ← hgroups]
  refine total_congr fun component _ => ?_
  rw [hone, Nat.cast_inj, ← List.length_map (f := Prod.snd)]
  have hnodup : (((valueOwners hashType observations).filter fun pair => pair.1 = component).map Prod.snd).Nodup := by
    refine List.Nodup.map_on ?_ ((List.nodup_dedup _).filter _)
    intro x hx y hy hsnd
    have hfst : x.1 = y.1 :=
      (of_decide_eq_true (List.mem_filter.mp hx).2).trans (of_decide_eq_true (List.mem_filter.mp hy).2).symm
    exact Prod.ext hfst hsnd
  refine List.Perm.length_eq ((List.perm_ext_iff_of_nodup hnodup (List.nodup_dedup _)).mpr fun owner => ?_)
  rw [List.mem_map]
  constructor
  · rintro ⟨pair, hpair, rfl⟩
    obtain ⟨hmem, hcomponent⟩ := List.mem_filter.mp hpair
    rw [← of_decide_eq_true hcomponent]
    exact mem_valueOwners.mp hmem
  · intro howner
    exact ⟨(component, owner), List.mem_filter.mpr ⟨mem_valueOwners.mpr howner, decide_eq_true rfl⟩, rfl⟩

theorem ownerLinks_eq : (analysis hashType observations topLimit).ownerLinks = (valueOwners hashType observations).length :=
  (total_population fun _ n => (n : ℤ)).trans length_valueOwners.symm

theorem total_distribution : total (fun row => (row.2.distinctValues : ℤ)) (analysis hashType observations topLimit).distribution =
    (analysis hashType observations topLimit).distinctValues := by
  simp only [analysis, total_perm (Dict.ordered_perm _)]
  refine (Dict.total_groupBy_entries (fun _ => (1 : ℤ)) _ fun count => ?_).trans ?_
  · simp [total]
  · simp [total]

theorem total_links : total (fun row => (row.1 : ℤ) * row.2.distinctValues) (analysis hashType observations topLimit).distribution =
    (analysis hashType observations topLimit).ownerLinks := by
  simp only [analysis, total_perm (Dict.ordered_perm _)]
  refine Dict.total_groupBy_entries _ _ fun count => ?_
  rw [total_congr (g := fun _ => (count : ℤ)) fun row hrow => by rw [of_decide_eq_true (List.mem_filter.mp hrow).2]]
  simp [total, mul_comm]

/-- The distribution has the number of the values of each number of owners. -/
theorem distribution_values {row : Nat × Share} (h : row ∈ (analysis hashType observations topLimit).distribution) :
    row.2.distinctValues =
      ((valuesOf hashType observations).filter fun component => (ownersOf hashType observations component).length = row.1).length := by
  have hmem : row ∈ (componentDistribution (componentPopulation hashType (compileSignatureOwner observations))).entries :=
    (Dict.ordered_perm _).mem_iff.mp h
  obtain ⟨-, hrow⟩ := Dict.get?_groupBy.mp (Dict.get?_eq_some_iff.mpr hmem)
  rw [← hrow, ← Nat.cast_inj (R := ℤ), length_filter_eq_total, length_filter_eq_total]
  exact total_population fun _ n => if decide (n = row.1) = true then 1 else 0

end Links

section Libraries

variable {hashType : HashType} {observations : Observations} {component : Component} {owner : String} {topLimit : Nat}

def falsePositives (observations : Observations) : List Observation := observations.entries.filter (hasOutcome .fp)

theorem mem_componentOwnerPopulation :
    (component, owner) ∈ (componentOwnerPopulation hashType (compileSignatureOwner observations)).keys ↔
      owner ∈ ownersOf hashType observations component := by
  unfold componentOwnerPopulation
  rw [Dict.mem_keys_groupBy, mem_ownersOf]
  simp only [Prod.mk.injEq]
  exact exists_row_iff (P := fun s owner' => hashType.component s = component ∧ owner' = owner)

/-- Every pair of a value and an owner is one row of the libraries. -/
theorem libraryRows_fst : (libraryRows hashType observations).map (fun row => row.1.1) =
    (componentOwnerPopulation hashType (compileSignatureOwner observations)).entries := by
  have hjoin : ∀ row ∈ (componentOwnerPopulation hashType (compileSignatureOwner observations)).entries,
      ∃ population, (componentPopulation hashType (compileSignatureOwner observations)).get? row.1.1 = some population :=
    fun row hrow => exists_population (mem_valuesOf.mpr ⟨_, mem_componentOwnerPopulation.mp (Dict.mem_keys_of_mem hrow)⟩)
  have hfst := join_entries_fst hjoin
  unfold libraryRows
  rw [leftJoin_entries, List.map_map]
  exact hfst

theorem total_libraries (f : LibraryRow → ℤ) (c : Library → ℤ) (hc : ∀ rows, c (libraryOf rows) = total f rows) :
    total (fun row => c row.2) (analysis hashType observations topLimit).libraries = total f (libraryRows hashType observations) := by
  simp only [analysis, total_perm (List.perm_insertionSort _ _)]
  exact Dict.total_groupBy_entries f (fun row => c row.2) fun _ => hc _

/-- A column of the pairs of a value and an owner, summed library by library. -/
theorem total_libraries_column (g : OwnerPopulation → ℤ) (c : Library → ℤ)
    (hc : ∀ rows, c (libraryOf rows) = total (fun row => g row.1.1.2) rows) :
    total (fun row => c row.2) (analysis hashType observations topLimit).libraries =
      total (fun row => g row.2) (componentOwnerPopulation hashType (compileSignatureOwner observations)).entries := by
  rw [total_libraries _ c hc, ← libraryRows_fst, total_map]

theorem total_references : total (fun row => row.2.referenceObservations) (compileSignatureOwner observations).entries =
    (references observations).length := by
  have hone : total (fun _ => (1 : ℤ)) (references observations) = (references observations).length := by simp [total]
  rw [← hone]
  refine Dict.total_groupBy_entries _ _ fun key => ?_
  simp [countReferences, total]

theorem total_missed : total (fun row => row.2.missedObservations) (compileSignatureOwner observations).entries =
    sumOutcome .fn (references observations) :=
  Dict.total_groupBy_entries _ _ fun _ => rfl

/-- The references of the libraries, of the type, and the observations that are references. -/
theorem libraries_references : total (fun row => row.2.referenceObservations) (analysis hashType observations topLimit).libraries =
    (references observations).length := by
  rw [total_libraries_column (fun row => row.referenceObservations) _ fun _ => rfl, ← total_references]
  exact Dict.total_groupBy_entries _ _ fun _ => rfl

theorem type_references : (analysis hashType observations topLimit).referenceObservations = (references observations).length := by
  rw [← total_references]
  exact Dict.total_groupBy_entries _ _ fun _ => rfl

theorem libraries_missed : total (fun row => row.2.missedObservations) (analysis hashType observations topLimit).libraries =
    sumOutcome .fn (references observations) := by
  rw [total_libraries_column (fun row => row.missedObservations) _ fun _ => rfl, ← total_missed]
  exact Dict.total_groupBy_entries _ _ fun _ => rfl

theorem type_falsePositives : (analysis hashType observations topLimit).exactFalsePositiveObservations =
    (falsePositives observations).length := Dict.total_groupBy_length

/-- The libraries have the false positives of the pairs that the references name. -/
theorem libraries_falsePositives :
    total (fun row => row.2.exactFalsePositiveObservations) (analysis hashType observations topLimit).libraries =
      ((falsePositives observations).filter fun row =>
        row.1.owner ∈ ownersOf hashType observations (hashType.component row.1.signature)).length := by
  have hone (rows : List Observation) : total (fun _ => (1 : ℤ)) rows = rows.length := by simp [total]
  have hcount (key : Component × String) : (((componentFp hashType observations).get? key).elim 0 fun n => (n : ℤ)) =
      total (fun _ => (1 : ℤ)) ((falsePositives observations).filter fun row =>
        (hashType.component row.1.signature, row.1.owner) = key) := by
    have hget : ((componentFp hashType observations).get? key).getD 0 = _ := Dict.getD_groupBy List.length_nil key
    rw [hone, falsePositives, ← hget]
    cases (componentFp hashType observations).get? key <;> rfl
  have hrows : total (fun row => row.2.elim 0 fun fp => (fp.2 : ℤ)) (libraryRows hashType observations) =
      total (fun key => ((componentFp hashType observations).get? key).elim 0 fun n => (n : ℤ))
        (componentOwnerPopulation hashType (compileSignatureOwner observations)).keys := by
    rw [Dict.keys, ← libraryRows_fst, total_map, total_map]
    refine total_congr fun row hrow => ?_
    unfold libraryRows at hrow
    rw [leftJoin_entries] at hrow
    obtain ⟨joined, -, rfl⟩ := List.mem_map.mp hrow
    cases (componentFp hashType observations).get? joined.1.1 <;> rfl
  rw [total_libraries _ _ fun _ => rfl, hrows, total_congr fun key _ => hcount key,
    total_groups_filter _ _ (Dict.nodup_keys _), hone]
  refine congrArg (fun rows : List Observation => (rows.length : ℤ)) (List.filter_congr fun row _ => ?_)
  rw [decide_eq_decide, mem_componentOwnerPopulation]

/-- The libraries have every false positive exactly where its owner has the value of its signature. -/
theorem libraries_falsePositives_iff :
    total (fun row => row.2.exactFalsePositiveObservations) (analysis hashType observations topLimit).libraries =
      (analysis hashType observations topLimit).exactFalsePositiveObservations ↔
      ∀ row ∈ falsePositives observations, row.1.owner ∈ ownersOf hashType observations (hashType.component row.1.signature) := by
  rw [libraries_falsePositives, type_falsePositives, Nat.cast_inj, List.length_filter_eq_length_iff]
  simp only [decide_eq_true_eq]

end Libraries

section MultiOwner

variable {hashType : HashType} {observations : Observations} {component : Component} {owner : String} {noise : Noise}

theorem noise_population {group : (Component × Population) × ℤ} (h : group ∈ (Dict.groupBy Prod.fst
    (fun rows => total (fun row => (row.2.elim 0 fun fp => fp.2 : Int)) rows) (noiseRows hashType observations)).entries) :
    group.1 ∈ (componentPopulation hashType (compileSignatureOwner observations)).entries ∧ 1 < group.1.2.distinctOwners := by
  obtain ⟨row, hrow, hkey⟩ := Dict.mem_keys_groupBy.mp (Dict.mem_keys_of_mem h)
  have hmem := exists_mem_leftJoin.mp ⟨row.2, hrow⟩
  rw [hkey] at hmem
  obtain ⟨hpopulation, hmany⟩ := List.mem_filter.mp hmem
  exact ⟨hpopulation, of_decide_eq_true hmany⟩

theorem componentNoise_spec (h : noise ∈ componentNoise hashType observations) :
    noise.distinctOwners = (ownersOf hashType observations noise.component).length ∧ 1 < noise.distinctOwners := by
  obtain ⟨group, hgroup, rfl⟩ := List.mem_map.mp h
  obtain ⟨hpopulation, hmany⟩ := noise_population hgroup
  exact ⟨(mem_population hpopulation).2, hmany⟩

/-- The noise rows are about the values with more than one owner. -/
theorem exists_componentNoise : (∃ noise ∈ componentNoise hashType observations, noise.component = component) ↔
    1 < (ownersOf hashType observations component).length := by
  constructor
  · rintro ⟨noise, hnoise, rfl⟩
    obtain ⟨hcount, hmany⟩ := componentNoise_spec hnoise
    rwa [← hcount]
  · intro hmany
    obtain ⟨owner, howner⟩ := List.exists_mem_of_length_pos (Nat.lt_trans Nat.one_pos hmany)
    obtain ⟨population, hpopulation⟩ := exists_population (mem_valuesOf.mpr ⟨owner, howner⟩)
    have hrow : (component, population) ∈ (componentPopulation hashType (compileSignatureOwner observations)).entries.filter
        fun row => 1 < row.2.distinctOwners := by
      refine List.mem_filter.mpr ⟨Dict.get?_eq_some_iff.mp hpopulation, decide_eq_true ?_⟩
      rwa [(get?_population hpopulation).2]
    obtain ⟨fp, hfp⟩ := exists_mem_leftJoin.mpr hrow
    have hkey : (component, population) ∈ (Dict.groupBy Prod.fst
        (fun rows => total (fun row => (row.2.elim 0 fun fp => fp.2 : Int)) rows) (noiseRows hashType observations)).keys :=
      Dict.mem_keys_groupBy.mpr ⟨_, hfp, rfl⟩
    obtain ⟨group, hgroup, heq⟩ := List.mem_map.mp hkey
    refine ⟨_, List.mem_map.mpr ⟨group, hgroup, rfl⟩, ?_⟩
    rw [heq]

theorem nodup_componentNoise : ((componentNoise hashType observations).map Noise.component).Nodup := by
  unfold componentNoise
  rw [List.map_map]
  refine List.Nodup.map_on ?_ (List.Nodup.of_map _ (Dict.nodup _))
  intro x hx y hy heq
  have hkeys : x.1 = y.1 := List.inj_on_of_nodup_map (Dict.nodup _) (noise_population hx).1 (noise_population hy).1 heq
  exact List.inj_on_of_nodup_map (Dict.nodup _) hx hy hkeys

theorem nodup_componentOwner :
    ((componentOwner hashType observations).map fun row => (row.component, row.owner)).Nodup := by
  unfold componentOwner ownerRows
  rw [leftJoin_entries, List.map_map, List.map_map]
  have hsublist := (@join_entries_sublist _ _ _ _ (componentOwnerPopulation hashType (compileSignatureOwner observations)).entries
    (fun row => row.1.1) (componentPopulation hashType (compileSignatureOwner observations))
    fun population => decide (1 < population.distinctOwners)).map Prod.fst
  rw [List.map_map] at hsublist
  exact hsublist.nodup (Dict.nodup _)

theorem mem_componentOwner :
    (∃ row ∈ componentOwner hashType observations, row.component = component ∧ row.owner = owner) ↔
      owner ∈ ownersOf hashType observations component ∧ 1 < (ownersOf hashType observations component).length := by
  unfold componentOwner ownerRows
  rw [leftJoin_entries, List.map_map]
  simp only [List.mem_map, Function.comp_apply]
  constructor
  · rintro ⟨_, ⟨⟨pair, population⟩, hjoined, rfl⟩, rfl, rfl⟩
    obtain ⟨hpair, hpopulation, hon⟩ := mem_join.mp hjoined
    obtain ⟨hkey, hmany⟩ := Bool.and_eq_true_iff.mp hon
    have hcount := (mem_population hpopulation).2
    rw [of_decide_eq_true hkey] at hcount
    refine ⟨mem_componentOwnerPopulation.mp (Dict.mem_keys_of_mem hpair), ?_⟩
    rw [← hcount]
    exact of_decide_eq_true hmany
  · rintro ⟨howner, hmany⟩
    obtain ⟨pair, hpair, heq⟩ := List.mem_map.mp (mem_componentOwnerPopulation.mpr howner)
    obtain ⟨population, hpopulation⟩ := exists_population (mem_valuesOf.mpr ⟨owner, howner⟩)
    refine ⟨_, ⟨(pair, (component, population)), mem_join.mpr ⟨hpair, Dict.get?_eq_some_iff.mp hpopulation, ?_⟩, rfl⟩, ?_, ?_⟩
    · rw [Bool.and_eq_true_iff, decide_eq_true_eq, decide_eq_true_eq, (get?_population hpopulation).2, heq]
      exact ⟨rfl, hmany⟩
    · exact congrArg Prod.fst heq
    · exact congrArg Prod.snd heq

/-- The owners that are listed of a value with more than one owner. -/
theorem listedOwners_perm (h : 1 < (ownersOf hashType observations component).length) :
    (listedOwners hashType observations component).Perm (ownersOf hashType observations component) := by
  refine (List.perm_insertionSort _ _).trans ?_
  have hnodup : (((componentOwner hashType observations).filter fun row => row.component = component).map
      ComponentOwner.owner).Nodup := by
    have hrows := List.Nodup.of_map _ (@nodup_componentOwner hashType observations)
    refine List.Nodup.map_on ?_ (hrows.filter _)
    intro x hx y hy howner
    obtain ⟨hx, hcomponent⟩ := List.mem_filter.mp hx
    obtain ⟨hy, hcomponent'⟩ := List.mem_filter.mp hy
    have hsame := (of_decide_eq_true hcomponent).trans (of_decide_eq_true hcomponent').symm
    exact List.inj_on_of_nodup_map nodup_componentOwner hx hy (Prod.ext hsame howner)
  refine (List.perm_ext_iff_of_nodup hnodup (List.nodup_dedup _)).mpr fun owner => ?_
  have hmem := @mem_componentOwner hashType observations component owner
  simp only [List.mem_map, List.mem_filter, decide_eq_true_eq, and_assoc]
  rw [hmem]
  exact and_iff_left h

end MultiOwner

section Conservation

variable (hashType : HashType) (observations : Observations) (topLimit : Nat)

/-- The tables of a hash type count one population. -/
structure Conserved : Prop where
  values : (analysis hashType observations topLimit).singletonValues + (analysis hashType observations topLimit).multiOwnerValues =
    (analysis hashType observations topLimit).distinctValues
  distribution : total (fun row => (row.2.distinctValues : ℤ)) (analysis hashType observations topLimit).distribution =
    (analysis hashType observations topLimit).distinctValues
  shares : ∀ row ∈ (analysis hashType observations topLimit).distribution, row.2.distinctValues =
    ((valuesOf hashType observations).filter fun component => (ownersOf hashType observations component).length = row.1).length
  links : total (fun row => (row.1 : ℤ) * row.2.distinctValues) (analysis hashType observations topLimit).distribution =
    (analysis hashType observations topLimit).ownerLinks
  pairs : (analysis hashType observations topLimit).ownerLinks = (valueOwners hashType observations).length
  referenced : total (fun row => row.2.referenceObservations) (analysis hashType observations topLimit).libraries =
    (analysis hashType observations topLimit).referenceObservations
  missed : total (fun row => row.2.missedObservations) (analysis hashType observations topLimit).libraries =
    sumOutcome .fn (references observations)
  wrong : (analysis hashType observations topLimit).exactFalsePositiveObservations = (falsePositives observations).length
  attributed : total (fun row => row.2.exactFalsePositiveObservations) (analysis hashType observations topLimit).libraries =
      (analysis hashType observations topLimit).exactFalsePositiveObservations ↔
    ∀ row ∈ falsePositives observations,
      row.1.owner ∈ ownersOf hashType observations (hashType.component row.1.signature)
  noise : ∀ component, (∃ noise ∈ componentNoise hashType observations, noise.component = component) ↔
    1 < (ownersOf hashType observations component).length
  noiseOnce : ((componentNoise hashType observations).map Noise.component).Nodup
  listed : ∀ noise ∈ componentNoise hashType observations,
    noise.distinctOwners = (listedOwners hashType observations noise.component).length ∧
    (listedOwners hashType observations noise.component).Perm (ownersOf hashType observations noise.component)
  top : ∀ entry ∈ (analysis hashType observations topLimit).topAmbiguous, entry.noise ∈ componentNoise hashType observations ∧
    entry.owners.length = entry.noise.distinctOwners
  topLength : (analysis hashType observations topLimit).topAmbiguous.length =
    min topLimit (analysis hashType observations topLimit).multiOwnerValues

variable {hashType : HashType} {observations : Observations} {topLimit : Nat}

theorem length_componentNoise : (componentNoise hashType observations).length =
    (analysis hashType observations topLimit).multiOwnerValues := by
  have hperm : ((componentNoise hashType observations).map Noise.component).Perm
      (((componentPopulation hashType (compileSignatureOwner observations)).entries.filter
        fun row => 1 < row.2.distinctOwners).map Prod.fst) := by
    have hnodup : (((componentPopulation hashType (compileSignatureOwner observations)).entries.filter
        fun row => 1 < row.2.distinctOwners).map Prod.fst).Nodup := List.Nodup.sublist (List.filter_sublist.map _) (Dict.nodup _)
    refine (List.perm_ext_iff_of_nodup nodup_componentNoise hnodup).mpr fun component => ?_
    rw [List.mem_map, exists_componentNoise, List.mem_map]
    constructor
    · intro hmany
      obtain ⟨owner, howner⟩ := List.exists_mem_of_length_pos (Nat.lt_trans Nat.one_pos hmany)
      obtain ⟨population, hpopulation⟩ := exists_population (mem_valuesOf.mpr ⟨owner, howner⟩)
      refine ⟨(component, population), List.mem_filter.mpr ⟨Dict.get?_eq_some_iff.mp hpopulation, decide_eq_true ?_⟩, rfl⟩
      rwa [(get?_population hpopulation).2]
    · rintro ⟨row, hrow, rfl⟩
      obtain ⟨hmem, hmany⟩ := List.mem_filter.mp hrow
      rw [← (mem_population hmem).2]
      exact of_decide_eq_true hmany
  have hlength := hperm.length_eq
  rw [List.length_map, List.length_map] at hlength
  rw [hlength, ← List.countP_eq_length_filter]
  rfl

end Conservation

end FidbPoc.Corpus.HashTypes
