import FidbPoc.Lib.Sums
import FidbPoc.Matching.Confusion

namespace FidbPoc.Matching

open FidbPoc.Lib FidbPoc.Lib.Checked FidbPoc.Lib.Sums

/-- The sum of the counts of a dictionary. -/
def countTotal (counts : List (String × Nat)) : Int := total (fun e => (e.2 : Int)) counts

def countOf (counts : List (String × Nat)) (key : String) : Nat := ((counts.find? fun e => e.1 = key).map Prod.snd).getD 0

section Counts

theorem countTotal_assign (key : String) (n : Nat) (entries : List (String × Nat)) :
    countTotal (Dict.assign key n entries) = countTotal entries - countOf entries key + n := by
  induction entries with
  | nil => simp [Dict.assign, countTotal, countOf]
  | cons e entries ih =>
    by_cases he : e.1 = key
    · simp [Dict.assign, he, countTotal, countOf]
      omega
    · simp only [Dict.assign, he, ↓reduceIte, countTotal, total_cons] at ih ⊢
      rw [ih]
      simp [countOf, he]
      omega

theorem countTotal_bump (counts : Dict String Nat) (key : String) :
    countTotal (bump counts key).entries = countTotal counts.entries + 1 := by
  rw [bump, Dict.entries_set, countTotal_assign]
  simp only [Dict.get?, countOf]
  omega

theorem countOf_bump (counts : Dict String Nat) (key key' : String) :
    countOf (bump counts key).entries key' = countOf counts.entries key' + (if key' = key then 1 else 0) := by
  have h := counts.get?_set key key' ((counts.get? key).getD 0 + 1)
  simp only [countOf, bump]
  change ((counts.set key _).get? key').getD 0 = (counts.get? key').getD 0 + _
  rw [h]
  by_cases hk : key' = key
  · simp [hk]
  · simp [hk]

theorem countTotal_sortedCounts (counts : Dict String Nat) :
    countTotal (sortedCounts counts) = countTotal counts.entries :=
  total_perm (List.perm_insertionSort _ _)

theorem countOf_sortedCounts (counts : Dict String Nat) (key : String) :
    countOf (sortedCounts counts) key = countOf counts.entries key := by
  have hperm : (sortedCounts counts).Perm counts.entries := List.perm_insertionSort _ _
  let sorted : Dict String Nat := ⟨sortedCounts counts, (hperm.map Prod.fst).nodup_iff.mpr counts.nodup⟩
  have hget : sorted.get? key = counts.get? key := by
    ext n
    rw [Dict.get?_eq_some_iff, Dict.get?_eq_some_iff]
    exact hperm.mem_iff
  exact congrArg (Option.getD · 0) hget

end Counts

section Outcomes

/-- Every category has three observations for each time it was counted. -/
def Tripled (tally : Tally) : Prop :=
  ∀ key, tally.observations.countP (fun o => o.category = key) = 3 * countOf tally.categoryCounts.entries key

variable {function : TruthFunction} {truthOwner : String} {accepted : Nat} {decisions : List OwnerOutcome} {tally : Tally}

theorem countP_observe (decision : OwnerOutcome) (key : String) :
    (observe function truthOwner accepted decision).countP (fun o => o.category = key) =
      if key = category function accepted decision then 3 else 0 := by
  by_cases h : key = category function accepted decision
  · simp [observe, hashValues, h]
  · simp [observe, hashValues, h, Ne.symm h]

theorem Tripled.recordOutcome (h : Tripled tally) (decision : OwnerOutcome) :
    Tripled (recordOutcome function truthOwner accepted tally decision) := by
  intro key
  simp only [Matching.recordOutcome, List.countP_append, countP_observe, h key, countOf_bump]
  by_cases hk : key = category function accepted decision
  · simp only [hk, ↓reduceIte]
    omega
  · simp only [hk, ↓reduceIte]
    omega

/-- Recording decisions counts each of them once and leaves the matrix and the labels alone. -/
theorem foldl_recordOutcome (h : Tripled tally) :
    let recorded := decisions.foldl (recordOutcome function truthOwner accepted) tally
    Tripled recorded ∧ recorded.matrix = tally.matrix ∧ recorded.labelled = tally.labelled ∧
      countTotal recorded.categoryCounts.entries = countTotal tally.categoryCounts.entries + decisions.length := by
  induction decisions generalizing tally with
  | nil => simp [h]
  | cons decision decisions ih =>
    obtain ⟨htripled, hmatrix, hlabelled, htotal⟩ := ih (h.recordOutcome decision)
    refine ⟨htripled, hmatrix, hlabelled, ?_⟩
    rw [List.foldl_cons, htotal, recordOutcome, countTotal_bump, List.length_cons]
    omega

theorem length_ownerOutcomes (truthOwner : String) (found : List OwnedMatch) :
    (ownerOutcomes truthOwner found).length = (incorrectOwners truthOwner found).length + 1 := by
  simp [ownerOutcomes]

end Outcomes

section Negatives

/-- Accepted owners that are not declared. -/
def foreignOwners (owners : List String) (found : List OwnedMatch) : List String :=
  (acceptedOwners found).filter fun owner => owner ∉ owners

/-- Declared owners other than the true one that are not accepted. -/
def sparedOwners (owners : List String) (truthOwner : String) (found : List OwnedMatch) : List String :=
  owners.filter fun owner => owner ≠ truthOwner ∧ owner ∉ acceptedOwners found

variable {owners : List String} {truthOwner : String} {found : List OwnedMatch}

theorem length_filter_split {α : Type} (p q : α → Bool) (xs : List α) :
    (xs.filter p).length = (xs.filter fun x => p x && q x).length + (xs.filter fun x => p x && !q x).length := by
  induction xs with
  | nil => rfl
  | cons x xs ih => cases hp : p x <;> cases hq : q x <;> simp [hp, hq, ih] <;> omega

theorem length_others (hnodup : owners.Nodup) (htruth : truthOwner ∈ owners) :
    (owners.filter fun owner => owner ≠ truthOwner).length + 1 = owners.length := by
  have h := List.length_erase_of_mem htruth
  have hpos := List.length_pos_of_mem htruth
  rw [hnodup.erase_eq_filter] at h
  have heq : (owners.filter fun owner => owner ≠ truthOwner) = owners.filter (· != truthOwner) := by
    apply List.filter_congr
    intro owner _
    by_cases ho : owner = truthOwner <;> simp [ho]
  rw [heq, h]
  omega

/-- The wrong declared owners are the accepted and the spared ones, the wrong accepted owners the declared
and the foreign ones. -/
theorem negatives_eq (hnodup : owners.Nodup) (htruth : truthOwner ∈ owners) :
    (owners.length : Int) - 1 - (incorrectOwners truthOwner found).length =
      (sparedOwners owners truthOwner found).length - (foreignOwners owners found).length := by
  have hothers := length_others hnodup htruth
  have hdeclared := length_filter_split (fun owner => decide (owner ≠ truthOwner))
    (fun owner => decide (owner ∈ acceptedOwners found)) owners
  have haccepted := length_filter_split (fun owner => decide (owner ≠ truthOwner))
    (fun owner => decide (owner ∈ owners)) (acceptedOwners found)
  have hcommon : (owners.filter fun owner => decide (owner ≠ truthOwner) && decide (owner ∈ acceptedOwners found)).Perm
      ((acceptedOwners found).filter fun owner => decide (owner ≠ truthOwner) && decide (owner ∈ owners)) := by
    apply (List.perm_ext_iff_of_nodup (hnodup.filter _) ((List.nodup_dedup _).filter _)).mpr
    intro owner
    simp only [List.mem_filter, Bool.and_eq_true, decide_eq_true_eq]
    tauto
  have hspared : sparedOwners owners truthOwner found =
      owners.filter fun owner => decide (owner ≠ truthOwner) && !decide (owner ∈ acceptedOwners found) := by
    apply List.filter_congr
    simp
  have hforeign : foreignOwners owners found =
      (acceptedOwners found).filter fun owner => decide (owner ≠ truthOwner) && !decide (owner ∈ owners) := by
    apply List.filter_congr
    intro owner _
    by_cases h : owner = truthOwner
    · simp [h, htruth]
    · simp [h]
  have hincorrect : (incorrectOwners truthOwner found).length = _ := haccepted
  have hperm := hcommon.length_eq
  rw [hspared, hforeign]
  omega

end Negatives

section Run

variable (owners : List String) (portable : Option (List (Decision OwnedMatch))) (functions : List TruthFunction)

/-- The functions whose frozen owner is declared. -/
def labelledFunctions : List TruthFunction := functions.filter fun function => (labelOf owners function).isSome

/-- The matches that decide a function: its own, or those of the portable row at its address. -/
def decidedMatches (function : TruthFunction) : List OwnedMatch :=
  match portable with
  | none => function.nativeMatches
  | some rows => ((rows.find? fun row => row.address = function.address).map Decision.found).getD []

/-- The portable rows have distinct addresses, and every labelled function has its row. -/
def Decides : Prop :=
  ∀ rows ∈ portable, (rows.map fun row => row.address).Nodup ∧
    ∀ function ∈ labelledFunctions owners functions, function.address ∈ rows.map fun row => row.address

/-- How many accepted owners of labelled functions are not declared. -/
def foreignTotal : Int :=
  total (fun function => ((foreignOwners owners (decidedMatches portable function)).length : Int))
    (labelledFunctions owners functions)

/-- How many declared wrong owners the labelled functions do not accept. -/
def sparedTotal : Int :=
  total (fun function =>
    ((sparedOwners owners ((labelOf owners function).getD "") (decidedMatches portable function)).length : Int))
    (labelledFunctions owners functions)

variable {owners portable functions} {decisions : PortableDecisions} {tally tally' : Tally} {function : TruthFunction}

/-- What the loop keeps, after the functions so far. -/
structure Tallied (owners : List String) (tally : Tally) : Prop where
  positives : tally.matrix.truePositives + tally.matrix.falseNegatives = tally.labelled
  negatives : tally.matrix.falsePositives + tally.matrix.trueNegatives = tally.labelled * ((owners.length : Int) - 1)
  counted : 0 ≤ tally.matrix.truePositives ∧ 0 ≤ tally.matrix.falsePositives ∧ 0 ≤ tally.matrix.falseNegatives
  categories : countTotal tally.categoryCounts.entries =
    tally.matrix.truePositives + tally.matrix.falseNegatives + tally.matrix.falsePositives
  tripled : Tripled tally

theorem tallied_initial : Tallied owners .initial where
  positives := rfl
  negatives := by simp [Tally.initial]
  counted := by decide
  categories := rfl
  tripled := fun _ => rfl

theorem countLabelled_spec {truthOwner : String} {found : List OwnedMatch} (h : Tripled tally) :
    let counted := countLabelled owners function truthOwner found tally
    Tripled counted ∧ counted.matrix = countMatrix owners truthOwner found tally.matrix ∧
      counted.labelled = tally.labelled ∧
      countTotal counted.categoryCounts.entries =
        countTotal tally.categoryCounts.entries + (incorrectOwners truthOwner found).length + 1 := by
  obtain ⟨htripled, hmatrix, hlabelled, htotal⟩ := @foldl_recordOutcome function truthOwner (acceptedOwners found).length
    (ownerOutcomes truthOwner found) { tally with matrix := countMatrix owners truthOwner found tally.matrix } h
  refine ⟨htripled, hmatrix, hlabelled, htotal.trans ?_⟩
  rw [length_ownerOutcomes]
  push_cast
  ring

/-- A labelled function adds one positive decision, and its wrong owners leave the other negatives. -/
theorem Tallied.step {truthOwner : String} {found : List OwnedMatch} (h : Tallied owners tally)
    (htally : tally' = countLabelled owners function truthOwner found
      { tally with labelled := tally.labelled + 1, basisCounts := bump tally.basisCounts function.truthBasis }) :
    Tallied owners tally' ∧ tally'.labelled = tally.labelled + 1 ∧ tally'.matrix.trueNegatives =
      tally.matrix.trueNegatives + ((owners.length : Int) - 1 - (incorrectOwners truthOwner found).length) := by
  obtain ⟨htripled, hmatrix, hlabelled, htotal⟩ := @countLabelled_spec owners { tally with
    labelled := tally.labelled + 1, basisCounts := bump tally.basisCounts function.truthBasis } function truthOwner
    found h.tripled
  rw [← htally] at htripled hmatrix hlabelled htotal
  have hpositives := h.positives
  have hnegatives := h.negatives
  have hcategories := h.categories
  obtain ⟨htp, hfp, hfn⟩ := h.counted
  have hcast : (tally'.labelled : Int) = tally.labelled + 1 := by exact_mod_cast hlabelled
  have htrue : tally'.matrix.truePositives + tally'.matrix.falseNegatives =
      tally.matrix.truePositives + tally.matrix.falseNegatives + 1 := by
    rw [hmatrix]
    by_cases hr : truthOwner ∈ acceptedOwners found
    · simp only [countMatrix, hr, ↓reduceIte]
      omega
    · simp only [countMatrix, hr, ↓reduceIte]
      omega
  have hfalse : tally'.matrix.falsePositives =
      tally.matrix.falsePositives + (incorrectOwners truthOwner found).length := by rw [hmatrix]; rfl
  have hspared : tally'.matrix.trueNegatives =
      tally.matrix.trueNegatives + ((owners.length : Int) - 1 - (incorrectOwners truthOwner found).length) := by
    rw [hmatrix]; rfl
  refine ⟨⟨?_, ?_, ⟨?_, ?_, ?_⟩, ?_, htripled⟩, hlabelled, hspared⟩
  · rw [htrue, hcast, hpositives]
  · rw [hfalse, hspared, hcast]
    linarith
  · rw [hmatrix]
    by_cases hr : truthOwner ∈ acceptedOwners found <;> simp only [countMatrix, hr, ↓reduceIte] <;> omega
  · rw [hfalse]
    omega
  · rw [hmatrix]
    by_cases hr : truthOwner ∈ acceptedOwners found <;> simp only [countMatrix, hr, ↓reduceIte] <;> omega
  · rw [htotal, htrue, hfalse]
    simp only
    omega

theorem byAddress_eq_ok :
    byAddress portable = .ok decisions ↔
      (∀ rows ∈ portable, (rows.map fun row => row.address).Nodup) ∧
        decisions = portable.map fun rows => Dict.ofList (rows.map fun row => (row.address, row)) := by
  cases portable with
  | none =>
    rw [byAddress, pure_eq_ok]
    simp [eq_comm]
  | some rows =>
    have hlength := @Dict.length_ofList_iff _ _ _ (rows.map fun row => (row.address, row))
    simp only [List.length_map, List.map_map] at hlength
    simp only [byAddress, bind_eq_ok, require_eq_ok, pure_eq_ok, Option.mem_some_iff, forall_eq', Option.map_some,
      hlength]
    exact ⟨fun ⟨_, hnodup, hd⟩ => ⟨hnodup, hd.symm⟩, fun ⟨hnodup, hd⟩ => ⟨(), hnodup, hd.symm⟩⟩

/-- A function is decided by its own matches, or by those of the portable row at its address. -/
theorem decisionMatches_eq_ok (hportable : byAddress portable = .ok decisions) {found : List OwnedMatch} :
    decisionMatches decisions function = .ok found ↔
      (∀ rows ∈ portable, function.address ∈ rows.map fun row => row.address) ∧
        found = decidedMatches portable function := by
  obtain ⟨hnodup, rfl⟩ := byAddress_eq_ok.mp hportable
  cases portable with
  | none =>
    simp only [decisionMatches, Option.map_none, pure_eq_ok, decidedMatches]
    simp [eq_comm]
  | some rows =>
    have hrows := hnodup rows rfl
    have hkeys : ((rows.map fun row => (row.address, row)).map Prod.fst).Nodup := by rwa [List.map_map]
    have hget : (Dict.ofList (rows.map fun row => (row.address, row))).get? function.address =
        rows.find? fun row => row.address = function.address := by
      simp only [Dict.get?, Dict.entries_ofList hkeys, List.find?_map, Option.map_map]
      exact Option.map_id' ..
    simp only [decisionMatches, Option.map_some, hget, decidedMatches, Option.mem_some_iff, forall_eq']
    cases hfind : rows.find? fun row => row.address = function.address with
    | none =>
      simp only [reduceCtorEq, false_iff, not_and]
      intro hmem
      obtain ⟨row, hrow, haddress⟩ := List.mem_map.mp hmem
      exact absurd haddress (by simpa using List.find?_eq_none.mp hfind row hrow)
    | some row =>
      have hmem := List.mem_map_of_mem (f := fun row => row.address) (List.mem_of_find?_eq_some hfind)
      have haddress : row.address = function.address := by simpa using List.find?_some hfind
      rw [haddress] at hmem
      simp only [hmem, true_and, pure_eq_ok, Option.map_some, Option.getD_some]
      exact eq_comm

/-- The balance of true negatives of a labelled function. -/
theorem classifyFunction_spec (hnodup : owners.Nodup) (hportable : byAddress portable = .ok decisions)
    (h : Tallied owners tally) (hstep : classifyFunction owners decisions tally function = .ok tally') :
    Tallied owners tally' ∧ tally'.labelled = tally.labelled + (labelledFunctions owners [function]).length ∧
      tally'.matrix.trueNegatives = tally.matrix.trueNegatives +
        (sparedTotal owners portable [function] - foreignTotal owners portable [function]) := by
  cases hlabel : labelOf owners function with
  | none =>
    simp only [classifyFunction, hlabel, pure_eq_ok] at hstep
    subst hstep
    refine ⟨⟨h.positives, h.negatives, h.counted, h.categories, h.tripled⟩, ?_, ?_⟩
    · simp [labelledFunctions, hlabel]
    · simp [sparedTotal, foreignTotal, labelledFunctions, hlabel]
  | some truthOwner =>
    have htruth : truthOwner ∈ owners := by
      have hfilter := Option.filter_eq_some_iff.mp hlabel
      have hmem := hfilter.2
      simp only [decide_eq_true_eq] at hmem
      exact hmem.2
    simp only [classifyFunction, hlabel, bind_eq_ok, pure_eq_ok, decisionMatches_eq_ok hportable] at hstep
    obtain ⟨_, ⟨-, rfl⟩, htally⟩ := hstep
    obtain ⟨htallied, hcount, hspared⟩ := h.step htally.symm
    refine ⟨htallied, ?_, ?_⟩
    · simpa [labelledFunctions, hlabel] using hcount
    · rw [hspared, negatives_eq hnodup htruth]
      simp [sparedTotal, foreignTotal, labelledFunctions, hlabel]

theorem sparedTotal_cons : sparedTotal owners portable (function :: functions) =
    sparedTotal owners portable [function] + sparedTotal owners portable functions := by
  cases hlabel : (labelOf owners function).isSome <;> simp [sparedTotal, labelledFunctions, hlabel]

theorem foreignTotal_cons : foreignTotal owners portable (function :: functions) =
    foreignTotal owners portable [function] + foreignTotal owners portable functions := by
  cases hlabel : (labelOf owners function).isSome <;> simp [foreignTotal, labelledFunctions, hlabel]

theorem labelledFunctions_cons : labelledFunctions owners (function :: functions) =
    labelledFunctions owners [function] ++ labelledFunctions owners functions := by
  cases hlabel : (labelOf owners function).isSome <;> simp [labelledFunctions, hlabel]

theorem classifyFunctions_spec (hnodup : owners.Nodup) (hportable : byAddress portable = .ok decisions)
    (h : Tallied owners tally) (hrun : functions.foldlM (classifyFunction owners decisions) tally = .ok tally') :
    Tallied owners tally' ∧ tally'.labelled = tally.labelled + (labelledFunctions owners functions).length ∧
      tally'.matrix.trueNegatives = tally.matrix.trueNegatives +
        (sparedTotal owners portable functions - foreignTotal owners portable functions) := by
  induction functions generalizing tally with
  | nil =>
    obtain rfl := Except.ok.inj hrun
    exact ⟨h, by simp [labelledFunctions], by simp [sparedTotal, foreignTotal, labelledFunctions]⟩
  | cons function functions ih =>
    rw [List.foldlM_cons, bind_eq_ok] at hrun
    obtain ⟨next, hnext, hrun⟩ := hrun
    obtain ⟨htallied, hcount, hspared⟩ := classifyFunction_spec hnodup hportable h hnext
    obtain ⟨htallied', hcount', hspared'⟩ := ih htallied hrun
    have hlabelled := congrArg List.length (@labelledFunctions_cons owners functions function)
    have hspareds := @sparedTotal_cons owners portable functions function
    have hforeigns := @foreignTotal_cons owners portable functions function
    rw [List.length_append] at hlabelled
    exact ⟨htallied', by omega, by omega⟩

theorem classifyFunctions_isOk (hportable : byAddress portable = .ok decisions) :
    (∃ tally', functions.foldlM (classifyFunction owners decisions) tally = .ok tally') ↔
      ∀ rows ∈ portable, ∀ function ∈ labelledFunctions owners functions,
        function.address ∈ rows.map fun row => row.address := by
  induction functions generalizing tally with
  | nil => simp [labelledFunctions, pure_eq_ok]
  | cons function functions ih =>
    simp only [List.foldlM_cons, bind_eq_ok]
    cases hlabel : labelOf owners function with
    | none =>
      simp only [classifyFunction, hlabel, pure_eq_ok, exists_eq_left']
      rw [ih]
      simp [labelledFunctions, hlabel]
    | some truthOwner =>
      simp only [classifyFunction, hlabel, bind_eq_ok, pure_eq_ok, decisionMatches_eq_ok hportable]
      have hcons : labelledFunctions owners (function :: functions) =
          function :: labelledFunctions owners functions := by simp [labelledFunctions, hlabel]
      rw [hcons]
      constructor
      · rintro ⟨tally', next, ⟨found, ⟨haddress, -⟩, -⟩, hrun⟩ rows hrows
        exact List.forall_mem_cons.mpr ⟨haddress rows hrows, ih.mp ⟨tally', hrun⟩ rows hrows⟩
      · intro hall
        obtain ⟨tally', hrun⟩ := ih.mpr fun rows hrows => (List.forall_mem_cons.mp (hall rows hrows)).2
        exact ⟨tally', _, ⟨_, ⟨fun rows hrows => (List.forall_mem_cons.mp (hall rows hrows)).1, rfl⟩, rfl⟩, hrun⟩

end Run

/-- What a classification is to satisfy: the positives are those of the labelled functions, the negatives
those of the other declared owners, and every counted decision has its three observations. -/
structure Reconciles (document : TruthDocument) (owners : List String) (result : Classification) : Prop where
  labelled : result.labelledFunctions = (labelledFunctions (ownerUniverse owners) document.functions).length
  positives : result.confusionMatrix.truePositives + result.confusionMatrix.falseNegatives = result.labelledFunctions
  negatives : result.confusionMatrix.falsePositives + result.confusionMatrix.trueNegatives =
    result.labelledFunctions * ((owners.dedup.length : Int) - 1)
  counts : 0 ≤ result.confusionMatrix.truePositives ∧ 0 ≤ result.confusionMatrix.falsePositives ∧
    0 ≤ result.confusionMatrix.trueNegatives ∧ 0 ≤ result.confusionMatrix.falseNegatives
  categories : countTotal result.categories = result.confusionMatrix.truePositives +
    result.confusionMatrix.falseNegatives + result.confusionMatrix.falsePositives
  observations : ∀ key, result.observations.countP (fun o => o.category = key) = 3 * countOf result.categories key

/-- A classification reconciles when the portable rows decide the labelled functions and these accept no more
undeclared owners than they leave wrong declared owners unaccepted. -/
theorem classifyMatches_reconciles_iff {document : TruthDocument} {owners : List String}
    {portable : Option (List (Decision OwnedMatch))} (hvalid : validateInput document.input = .ok ())
    (howners : 2 ≤ owners.dedup.length) :
    (∃ result, classifyMatches document owners portable = .ok result ∧ Reconciles document owners result) ↔
      Decides (ownerUniverse owners) portable document.functions ∧
        foreignTotal (ownerUniverse owners) portable document.functions ≤
          sparedTotal (ownerUniverse owners) portable document.functions := by
  have hlength : (ownerUniverse owners).length = owners.dedup.length := List.length_insertionSort _ _
  have hnodup : (ownerUniverse owners).Nodup := (List.perm_insertionSort _ _).nodup_iff.mpr (List.nodup_dedup _)
  simp only [classifyMatches, hvalid, ok_bind, bind_eq_ok, require_eq_ok, pure_eq_ok, hlength]
  constructor
  · rintro ⟨result, ⟨decisions, hportable, -, -, tally, hrun, rfl⟩, hresult⟩
    obtain ⟨-, -, hspared⟩ := classifyFunctions_spec hnodup hportable tallied_initial hrun
    refine ⟨fun rows hrows => ⟨(byAddress_eq_ok.mp hportable).1 rows hrows,
      (classifyFunctions_isOk hportable).mp ⟨tally, hrun⟩ rows hrows⟩, ?_⟩
    have hcount : 0 ≤ tally.matrix.trueNegatives := hresult.counts.2.2.1
    have hzero : Tally.initial.matrix.trueNegatives = 0 := rfl
    omega
  · rintro ⟨hdecides, hle⟩
    have hportable := byAddress_eq_ok.mpr ⟨fun rows hrows => (hdecides rows hrows).1, rfl⟩
    obtain ⟨tally, hrun⟩ := (@classifyFunctions_isOk (ownerUniverse owners) portable document.functions _ .initial
      hportable).mpr fun rows hrows => (hdecides rows hrows).2
    obtain ⟨htallied, hcount, hspared⟩ := classifyFunctions_spec hnodup hportable tallied_initial hrun
    refine ⟨_, ⟨_, hportable, (), howners, tally, hrun, rfl⟩, ?_⟩
    have hzero : Tally.initial.matrix.trueNegatives = 0 := rfl
    obtain ⟨htp, hfp, hfn⟩ := htallied.counted
    exact {
      labelled := hcount.trans (Nat.zero_add _)
      positives := htallied.positives
      negatives := hlength ▸ htallied.negatives
      counts := ⟨htp, hfp, by simp only; omega, hfn⟩
      categories := (countTotal_sortedCounts _).trans htallied.categories
      observations := fun key => by rw [countOf_sortedCounts]; exact htallied.tripled key }

namespace TwoOwners

def function (truthOwner : String) (nativeMatches : List OwnedMatch) : TruthFunction :=
  ⟨⟨⟨"1000", "aa", "bb"⟩, []⟩, "main", some truthOwner, "linker-map", [], 4, 20, nativeMatches⟩

def document (nativeMatches : List OwnedMatch) : TruthDocument :=
  ⟨matchInputSchema, [function "zlib@1" nativeMatches]⟩

def owners : List String := ["zlib@1", "xz@5"]

theorem declared_reconciles : ∃ result,
    classifyMatches (document [⟨"zlib@1", "main"⟩, ⟨"xz@5", "main"⟩]) owners none = .ok result ∧
      Reconciles (document [⟨"zlib@1", "main"⟩, ⟨"xz@5", "main"⟩]) owners result :=
  (classifyMatches_reconciles_iff (by decide) (by decide)).mpr ⟨by rintro _ ⟨⟩, by decide⟩

/-- Two owners that nobody declared, accepted for one function, leave minus one true negative. -/
theorem undeclared_negative : ∃ result,
    classifyMatches (document [⟨"png@1", "main"⟩, ⟨"jpeg@9", "main"⟩]) owners none = .ok result ∧
      result.confusionMatrix = ⟨0, 2, -1, 1⟩ := ⟨_, rfl, by decide⟩

end TwoOwners

end FidbPoc.Matching
