import FidbPoc.Lib.Dict
import FidbPoc.Matching.Scoring
import Mathlib.Data.List.Sort
import Mathlib.Data.String.Basic

namespace FidbPoc.Matching

open FidbPoc.Lib FidbPoc.Lib.Checked

/-- What classification reads of a selected match. -/
structure OwnedMatch where
  owner : String
  name : String
  deriving DecidableEq

/-- A function of the match document, with its frozen truth and the defaults of its absent fields. -/
structure TruthFunction extends InputFunction where
  functionName : String
  truthOwner : Option String
  truthBasis : String
  truthCandidates : List String
  specificHashAdditionalSize : Int
  codeUnitSize : Int
  nativeMatches : List OwnedMatch
  deriving DecidableEq

structure TruthDocument where
  schemaVersion : String
  functions : List TruthFunction
  deriving DecidableEq

def TruthDocument.input (document : TruthDocument) : MatchDocument :=
  ⟨document.schemaVersion, document.functions.map TruthFunction.toInputFunction⟩

inductive Outcome
  | tp
  | fn
  | fp
  deriving DecidableEq

structure Matrix where
  truePositives : Int
  falsePositives : Int
  trueNegatives : Int
  falseNegatives : Int
  deriving DecidableEq

structure Observation where
  address : String
  functionName : String
  hashType : String
  value : String
  outcome : Outcome
  truthOwner : String
  candidateOwner : String
  truthBasis : String
  acceptedOwnerCount : Nat
  category : String
  deriving DecidableEq

/-- What the loop over the functions has counted. -/
structure Tally where
  matrix : Matrix
  basisCounts : Dict String Nat
  categoryCounts : Dict String Nat
  observations : List Observation
  labelled : Nat
  unlabelled : Nat
  ambiguousTruth : Nat

def Tally.initial : Tally := ⟨⟨0, 0, 0, 0⟩, .empty, .empty, [], 0, 0, 0⟩

/-- `counts[key] = counts.get(key, 0) + 1`. -/
def bump (counts : Dict String Nat) (key : String) : Dict String Nat := counts.set key ((counts.get? key).getD 0 + 1)

/-- `sorted(set(owners))`. -/
def ownerUniverse (owners : List String) : List String := owners.dedup.insertionSort (· ≤ ·)

/-- The owners that the matches name. -/
def acceptedOwners (found : List OwnedMatch) : List String := (found.map OwnedMatch.owner).dedup

/-- `by_owner[owner][0]`. -/
def firstMatch (found : List OwnedMatch) (owner : String) : Option OwnedMatch := found.find? fun m => m.owner = owner

/-- An owner decision of a function, with the match that shows a wrong one. -/
structure OwnerOutcome where
  owner : String
  outcome : Outcome
  evidence : Option OwnedMatch

def incorrectOwners (truthOwner : String) (found : List OwnedMatch) : List String :=
  (acceptedOwners found).filter fun owner => owner ≠ truthOwner

def ownerOutcomes (truthOwner : String) (found : List OwnedMatch) : List OwnerOutcome :=
  ⟨truthOwner, if truthOwner ∈ acceptedOwners found then .tp else .fn, none⟩ ::
    ((incorrectOwners truthOwner found).insertionSort (· ≤ ·)).map fun owner => ⟨owner, .fp, firstMatch found owner⟩

def category (function : TruthFunction) (accepted : Nat) (decision : OwnerOutcome) : String :=
  match decision.outcome with
  | .tp => "correct-attribution"
  | .fn => "miss"
  | .fp =>
    if decision.evidence.any fun m => m.name = function.functionName then "shared-code-evidence"
    else if 1 < accepted then "ambiguous-attribution"
    else "incorrect-confident-attribution"

/-- The three hash values of a function, under their types. -/
def hashValues (function : TruthFunction) : List (String × String) :=
  [("full", function.fullHash), ("specific", function.specificHash),
    ("complete", s!"{function.fullHash}:{function.specificHash}:{function.specificHashAdditionalSize}:" ++
      s!"{function.codeUnitSize}")]

def observe (function : TruthFunction) (truthOwner : String) (accepted : Nat) (decision : OwnerOutcome) :
    List Observation :=
  (hashValues function).map fun value =>
    ⟨function.address, function.functionName, value.1, value.2, decision.outcome, truthOwner, decision.owner,
      function.truthBasis, accepted, category function accepted decision⟩

/-- Count one owner decision. -/
def recordOutcome (function : TruthFunction) (truthOwner : String) (accepted : Nat) (tally : Tally)
    (decision : OwnerOutcome) : Tally :=
  { tally with
    categoryCounts := bump tally.categoryCounts (category function accepted decision)
    observations := tally.observations ++ observe function truthOwner accepted decision }

/-- Count the decisions for a labelled function. -/
def countMatrix (owners : List String) (truthOwner : String) (found : List OwnedMatch) (matrix : Matrix) : Matrix :=
  let recovered := truthOwner ∈ acceptedOwners found
  let incorrect := (incorrectOwners truthOwner found).length
  { truePositives := matrix.truePositives + (if recovered then 1 else 0)
    falseNegatives := matrix.falseNegatives + (if recovered then 0 else 1)
    falsePositives := matrix.falsePositives + incorrect
    trueNegatives := matrix.trueNegatives + (owners.length - 1 - incorrect) }

def countLabelled (owners : List String) (function : TruthFunction) (truthOwner : String) (found : List OwnedMatch)
    (tally : Tally) : Tally :=
  (ownerOutcomes truthOwner found).foldl (recordOutcome function truthOwner (acceptedOwners found).length)
    { tally with matrix := countMatrix owners truthOwner found tally.matrix }

/-- Portable decisions by address, when classification is given them. -/
abbrev PortableDecisions := Option (Dict String (Decision OwnedMatch))

/-- The matches that decide a function. -/
def decisionMatches (portable : PortableDecisions) (function : TruthFunction) : Result (List OwnedMatch) :=
  match portable with
  | none => pure function.nativeMatches
  | some decisions =>
    match decisions.get? function.address with
    | some decision => pure decision.found
    | none => .error (valueError "portable FID classification decision is missing")

/-- The frozen owner of a function, if it is one of the declared owners. -/
def labelOf (owners : List String) (function : TruthFunction) : Option String :=
  function.truthOwner.filter fun owner => owner ≠ "" ∧ owner ∈ owners

def classifyFunction (owners : List String) (portable : PortableDecisions) (tally : Tally) (function : TruthFunction) :
    Result Tally :=
  match labelOf owners function with
  | none =>
    pure { tally with
      unlabelled := tally.unlabelled + 1
      ambiguousTruth := tally.ambiguousTruth + (if 1 < function.truthCandidates.length then 1 else 0) }
  | some truthOwner => do
    let found ← decisionMatches portable function
    pure (countLabelled owners function truthOwner found
      { tally with labelled := tally.labelled + 1, basisCounts := bump tally.basisCounts function.truthBasis })

def byAddress (portable : Option (List (Decision OwnedMatch))) : Result PortableDecisions :=
  match portable with
  | none => pure none
  | some rows => do
    let decisions := Dict.ofList (rows.map fun row => (row.address, row))
    require (decisions.entries.length = rows.length)
      (valueError "portable FID classification addresses are duplicated")
    pure (some decisions)

/-- `dict(sorted(counts.items()))`. -/
def sortedCounts (counts : Dict String Nat) : List (String × Nat) :=
  counts.entries.insertionSort fun a b => a.1 ≤ b.1

structure Rates where
  precision : Option Rat
  «recall» : Option Rat
  falsePositiveRate : Option Rat
  specificity : Option Rat

def rate (numerator denominator : Int) : Option Rat :=
  if denominator = 0 then none else some (numerator / denominator)

def Matrix.rates (matrix : Matrix) : Rates :=
  ⟨rate matrix.truePositives (matrix.truePositives + matrix.falsePositives),
    rate matrix.truePositives (matrix.truePositives + matrix.falseNegatives),
    rate matrix.falsePositives (matrix.falsePositives + matrix.trueNegatives),
    rate matrix.trueNegatives (matrix.trueNegatives + matrix.falsePositives)⟩

structure Classification where
  owners : List String
  labelledFunctions : Nat
  unlabelledFunctions : Nat
  ambiguousTruthFunctions : Nat
  basisCounts : List (String × Nat)
  confusionMatrix : Matrix
  rates : Rates
  categories : List (String × Nat)
  observations : List Observation

def classifyMatches (document : TruthDocument) (owners : List String)
    (portable : Option (List (Decision OwnedMatch))) : Result Classification := do
  validateInput document.input
  let decisions ← byAddress portable
  let declared := ownerUniverse owners
  require (2 ≤ declared.length) (valueError "portable FID classification requires multiple owners")
  let tally ← document.functions.foldlM (classifyFunction declared decisions) .initial
  pure ⟨declared, tally.labelled, tally.unlabelled, tally.ambiguousTruth, sortedCounts tally.basisCounts, tally.matrix,
    tally.matrix.rates, sortedCounts tally.categoryCounts, tally.observations⟩

end FidbPoc.Matching
