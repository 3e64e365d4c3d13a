import FidbPoc.Lib.Tally
import FidbPoc.Matching.Scoring
import Mathlib.Data.List.Dedup
import Mathlib.Data.List.Sort
import Mathlib.Data.String.Basic

namespace FidbPoc.Replay

open FidbPoc.Lib FidbPoc.Lib.Checked FidbPoc.Matching

/-- A decision of the native matcher. -/
structure NativeMatch (κ : Type) extends Match κ where
  primaryScore : κ
  childScore : κ
  parentScore : κ
  matchMode : String
  deriving DecidableEq

/-- The truth that a function is annotated with. -/
structure Truth where
  candidates : List String
  owner : Option String
  basis : String
  deriving DecidableEq

structure OracleFunction (κ : Type) extends InputFunction where
  functionName : String
  nativeMatches : List (NativeMatch κ)
  truth : Option Truth
  deriving DecidableEq

structure AddressBias where
  bytes : Int
  supportingSymbols : Nat
  observedBiases : Nat
  deriving DecidableEq

structure TruthTable where
  owners : List String
  truthMapPath : String
  linkMapPath : Option String
  linkerIntervals : Nat
  addressBias : AddressBias
  deriving DecidableEq

structure OracleDocument (κ : Type) where
  schemaVersion : String
  oracle : String
  languageId : String
  compilerSpecId : String
  scoreThreshold : κ
  mediumCodeUnitLimit : Int
  functions : List (OracleFunction κ)
  truth : Option TruthTable
  deriving DecidableEq

def OracleDocument.input {κ : Type} (document : OracleDocument κ) : MatchDocument :=
  ⟨document.schemaVersion, document.functions.map OracleFunction.toInputFunction⟩

/-- What the truth of a fold is read from: the owners and the names in their signatures, the intervals of the link map, the
symbols of the query, and `int(text, 16)`. -/
structure TruthSource where
  owners : List String
  nameOwners : String → List String
  intervals : List (Int × Int × String)
  symbols : String → List Int
  truthMapPath : String
  linkMapPath : Option String
  parseAddress : String → Option Int

section Annotating

variable {κ : Type} (source : TruthSource)

/-- Where the address of a function differs from that of the one symbol of its name. -/
def addressDifference (function : OracleFunction κ) : Option Int :=
  match (source.symbols function.functionName).dedup with
  | [address] => (source.parseAddress function.address).map fun parsed => parsed - address
  | _ => none

/-- `Counter.most_common(1)`: the first of the entries with the largest number. -/
def mostCommon (counts : List (Int × Nat)) : Option (Int × Nat) :=
  counts.foldl (fun best entry => if best.all fun leading => leading.2 < entry.2 then some entry else best) none

def symbolAddressBias (functions : List (OracleFunction κ)) : Result AddressBias :=
  let differences : Dict Int Nat :=
    Tally.tally .empty ((functions.filterMap (addressDifference source)).map fun difference => (difference, 1))
  match mostCommon differences.entries with
  | none => .error (valueError "could not establish Ghidra-to-linker address bias")
  | some (bias, supporting) => pure ⟨bias, supporting, differences.entries.length⟩

def sortedSet (owners : List String) : List String := owners.dedup.insertionSort (· ≤ ·)

/-- The truth of a function: the owner of its interval, or else of its name. -/
def functionTruth (bias : AddressBias) (function : OracleFunction κ) : Truth :=
  let address := ((source.parseAddress function.address).map fun parsed => parsed - bias.bytes).getD (-1)
  let intervalOwners := sortedSet ((source.intervals.filter fun (start, stop, _) =>
    start ≤ address ∧ address < stop).map fun (_, _, owner) => owner)
  let nameOwners := sortedSet (source.nameOwners function.functionName)
  let (candidates, basis) :=
    if intervalOwners.length = 1 then (intervalOwners, "linker-map")
    else if nameOwners.length = 1 then (nameOwners, "unique-reference-name")
    else
      let candidates := if intervalOwners = [] then nameOwners else intervalOwners
      (candidates, if candidates = [] then "unresolved" else "ambiguous")
  ⟨candidates, if candidates.length = 1 then candidates.head? else none, basis⟩

def annotateTruth (oracle : OracleDocument κ) : Result (OracleDocument κ) := do
  let bias ← symbolAddressBias source oracle.functions
  pure { oracle with
    functions := oracle.functions.map fun function => { function with truth := some (functionTruth source bias function) }
    truth := some ⟨source.owners, source.truthMapPath, source.linkMapPath, source.intervals.length, bias⟩ }

variable {source} {oracle annotated : OracleDocument κ}

/-- What a function says but for its truth. -/
def OracleFunction.untold (function : OracleFunction κ) : OracleFunction κ := { function with truth := none }

theorem annotateTruth_untold (h : annotateTruth source oracle = .ok annotated) :
    annotated.functions.map OracleFunction.untold = oracle.functions.map OracleFunction.untold := by
  simp only [annotateTruth, bind_eq_ok, pure_eq_ok] at h
  obtain ⟨bias, -, rfl⟩ := h
  rw [List.map_map]
  rfl

/-- The truth does not depend on the truth that was there before. -/
theorem annotateTruth_annotated (h : annotateTruth source oracle = .ok annotated) :
    annotateTruth source annotated = .ok annotated := by
  simp only [annotateTruth, bind_eq_ok, pure_eq_ok] at h ⊢
  obtain ⟨bias, hbias, rfl⟩ := h
  have hdifferences : (oracle.functions.map fun function : OracleFunction κ =>
      { function with truth := some (functionTruth source bias function) }).filterMap (addressDifference source) =
      oracle.functions.filterMap (addressDifference source) := by
    rw [List.filterMap_map]
    rfl
  refine ⟨bias, ?_, ?_⟩
  · rw [symbolAddressBias, hdifferences]
    exact hbias
  · simp only [List.map_map]
    rfl

end Annotating

/-- What an authority fixes for the comparison, and the devices of its backends. -/
structure ComparisonPolicy (κ : Type) where
  implementation : String
  device : String → String
  maximumUlps : Nat
  maximumMismatchRows : Nat
  ulps : κ → κ → Nat

structure Execution (κ : Type) where
  backend : String
  functions : List (Decision (Match κ))

structure ScoreDifference (κ : Type) where
  candidateId : String
  native : κ
  portable : κ
  ulps : Nat

structure Mismatch (κ : Type) where
  address : String
  missingCandidates : List String
  unexpectedCandidates : List String
  scoreDifferences : List (ScoreDifference κ)

structure Comparison (κ : Type) where
  equivalent : Bool
  oracle : String
  backend : String
  functions : Nat
  decisionMismatches : Nat
  mismatches : List (Mismatch κ)
  mismatchRowsTruncated : Nat

section Comparing

variable {κ : Type} (policy : ComparisonPolicy κ)

abbrev Scores (κ : Type) := Dict String κ

/-- `{str(match["candidate_id"]): float(match["score"]) for match in matches}`. -/
def scores (found : List (Match κ)) : Scores κ := .ofList (found.map fun m => (m.candidateId, m.score))

def scoreDifferences (expected actual : Scores κ) : List (ScoreDifference κ) :=
  (expected.entries.filterMap fun (candidateId, native) => (actual.get? candidateId).map fun portable =>
    (⟨candidateId, native, portable, policy.ulps native portable⟩ : ScoreDifference κ)).filter fun difference =>
      policy.maximumUlps < difference.ulps

def mismatchAt (native observed : Dict String (Scores κ)) (address : String) : Option (Mismatch κ) :=
  let expected := (native.get? address).getD .empty
  let actual := (observed.get? address).getD .empty
  let missing := sortedSet ((expected.entries.map Prod.fst).filter fun candidateId => (actual.get? candidateId).isNone)
  let unexpected := sortedSet ((actual.entries.map Prod.fst).filter fun candidateId => (expected.get? candidateId).isNone)
  let differences := (scoreDifferences policy expected actual).insertionSort fun x y => x.candidateId ≤ y.candidateId
  if missing = [] ∧ unexpected = [] ∧ differences.isEmpty then none else some ⟨address, missing, unexpected, differences⟩

def nativeScores (document : OracleDocument κ) : Dict String (Scores κ) :=
  .ofList (document.functions.map fun row => (row.address, scores (row.nativeMatches.map NativeMatch.toMatch)))

def observedScores (portable : Execution κ) : Dict String (Scores κ) :=
  .ofList (portable.functions.map fun row => (row.address, scores row.found))

def compareWithOracle (document : OracleDocument κ) (portable : Execution κ) : Result (Comparison κ) := do
  validateInput document.input
  let native := nativeScores document
  let observed := observedScores portable
  let mismatches := (sortedSet (native.entries.map Prod.fst ++ observed.entries.map Prod.fst)).filterMap
    (mismatchAt policy native observed)
  pure {
    equivalent := mismatches.length = 0
    oracle := policy.implementation
    backend := portable.backend
    functions := native.entries.length
    decisionMismatches := mismatches.length
    mismatches := mismatches.take policy.maximumMismatchRows
    mismatchRowsTruncated := mismatches.length - policy.maximumMismatchRows }

variable {policy} {native observed : Dict String (Scores κ)} {address : String} {document : OracleDocument κ}
  {portable : Execution κ} {comparison : Comparison κ}

def scoreAt (decisions : Dict String (Scores κ)) (address candidateId : String) : Option κ :=
  ((decisions.get? address).getD .empty).get? candidateId

/-- Both decide for the same candidates, with scores that differ by no more than the authority lets pass. -/
def Agree (policy : ComparisonPolicy κ) (document : OracleDocument κ) (portable : Execution κ) : Prop :=
  ∀ address candidateId, Option.Rel (fun native score => policy.ulps native score ≤ policy.maximumUlps)
    (scoreAt (nativeScores document) address candidateId) (scoreAt (observedScores portable) address candidateId)

theorem mem_sortedSet {owners : List String} {owner : String} : owner ∈ sortedSet owners ↔ owner ∈ owners := by
  rw [sortedSet, List.mem_insertionSort, List.mem_dedup]

theorem sortedSet_eq_nil {owners : List String} : sortedSet owners = [] ↔ owners = [] := by
  simp only [List.eq_nil_iff_forall_not_mem, mem_sortedSet]

theorem mem_keys {ν : Type} {d : Dict String ν} {k : String} : k ∈ d.entries.map Prod.fst ↔ ∃ v, d.get? k = some v := by
  simp only [List.mem_map, Prod.exists, Dict.get?_eq_some_iff]
  constructor
  · rintro ⟨_, v, hv, rfl⟩
    exact ⟨v, hv⟩
  · rintro ⟨v, hv⟩
    exact ⟨k, v, hv, rfl⟩

theorem rel_iff {α β : Type} {r : α → β → Prop} {x : Option α} {y : Option β} : Option.Rel r x y ↔
    (∀ a, x = some a → y.isSome) ∧ (∀ b, y = some b → x.isSome) ∧ ∀ a b, x = some a → y = some b → r a b := by
  constructor
  · intro h
    cases h with
    | none => simp
    | some h => simpa using h
  · rintro ⟨hx, hy, h⟩
    cases x with
    | none =>
      cases y with
      | none => exact .none
      | some b => cases hy b rfl
    | some a =>
      cases y with
      | none => cases hx a rfl
      | some b => exact .some (h a b rfl rfl)

theorem mismatchAt_eq_none : mismatchAt policy native observed address = none ↔ ∀ candidateId,
    Option.Rel (fun native score => policy.ulps native score ≤ policy.maximumUlps) (scoreAt native address candidateId)
      (scoreAt observed address candidateId) := by
  set expected := (native.get? address).getD .empty with hexpected
  set actual := (observed.get? address).getD .empty with hactual
  have hmissing : ((expected.entries.map Prod.fst).filter fun candidateId => (actual.get? candidateId).isNone) = [] ↔
      ∀ candidateId score, expected.get? candidateId = some score → (actual.get? candidateId).isSome := by
    simp only [List.filter_eq_nil_iff, mem_keys, Bool.not_eq_true, Option.isNone_eq_false_iff, forall_exists_index]
  have hunexpected : ((actual.entries.map Prod.fst).filter fun candidateId => (expected.get? candidateId).isNone) = [] ↔
      ∀ candidateId score, actual.get? candidateId = some score → (expected.get? candidateId).isSome := by
    simp only [List.filter_eq_nil_iff, mem_keys, Bool.not_eq_true, Option.isNone_eq_false_iff, forall_exists_index]
  have hdifferences : scoreDifferences policy expected actual = [] ↔ ∀ candidateId score portable,
      expected.get? candidateId = some score → actual.get? candidateId = some portable →
        policy.ulps score portable ≤ policy.maximumUlps := by
    rw [scoreDifferences, List.filter_eq_nil_iff]
    simp only [List.mem_filterMap, Prod.exists, Option.map_eq_some_iff, decide_eq_true_eq, not_lt, ← Dict.get?_eq_some_iff]
    constructor
    · intro h candidateId score portable hscore hportable
      exact h _ ⟨candidateId, score, hscore, portable, hportable, rfl⟩
    · rintro h _ ⟨candidateId, score, hscore, portable, hportable, rfl⟩
      exact h candidateId score portable hscore hportable
  have hsorted : ((scoreDifferences policy expected actual).insertionSort fun x y => x.candidateId ≤ y.candidateId).isEmpty =
      true ↔ scoreDifferences policy expected actual = [] := by
    rw [List.isEmpty_iff_length_eq_zero, List.length_insertionSort, List.length_eq_zero_iff]
  have hnone : mismatchAt policy native observed address = none ↔
      ((expected.entries.map Prod.fst).filter fun candidateId => (actual.get? candidateId).isNone) = [] ∧
      ((actual.entries.map Prod.fst).filter fun candidateId => (expected.get? candidateId).isNone) = [] ∧
      scoreDifferences policy expected actual = [] := by
    simp only [mismatchAt, ← hexpected, ← hactual, sortedSet_eq_nil, hsorted, ite_eq_left_iff, reduceCtorEq, imp_false,
      not_not]
  simp only [hnone, hmissing, hunexpected, hdifferences, scoreAt, ← hexpected, ← hactual, rel_iff, forall_and]

theorem compareWithOracle_isOk (h : validateInput document.input = .ok ()) :
    ∃ comparison, compareWithOracle policy document portable = .ok comparison := by
  rw [compareWithOracle, h, ok_bind]
  exact ⟨_, rfl⟩

theorem compareWithOracle_equivalent (h : compareWithOracle policy document portable = .ok comparison) :
    comparison.equivalent = true ↔ Agree policy document portable := by
  simp only [compareWithOracle, bind_eq_ok, pure_eq_ok] at h
  obtain ⟨-, -, rfl⟩ := h
  simp only [decide_eq_true_eq, List.length_eq_zero_iff, List.filterMap_eq_nil_iff, mem_sortedSet, List.mem_append]
  constructor
  · intro h address
    refine mismatchAt_eq_none.mp ?_
    by_cases hlisted : address ∈ (nativeScores document).entries.map Prod.fst ∨
        address ∈ (observedScores portable).entries.map Prod.fst
    · exact h address hlisted
    · rw [not_or, mem_keys, mem_keys, not_exists, not_exists] at hlisted
      have hnative := Option.eq_none_iff_forall_ne_some.mpr hlisted.1
      have hobserved := Option.eq_none_iff_forall_ne_some.mpr hlisted.2
      rw [mismatchAt_eq_none]
      intro candidateId
      simp only [scoreAt, hnative, hobserved]
      exact .none
  · exact fun h address _ => mismatchAt_eq_none.mpr (h address)

end Comparing

end FidbPoc.Replay
