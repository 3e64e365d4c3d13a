import FidbPoc.Corpus.Ownership
import FidbPoc.Lib.Joins

namespace FidbPoc.Corpus.HashTypes

open FidbPoc.Lib FidbPoc.Lib.Sums FidbPoc.Lib.Joins

inductive HashType
  | full
  | specific
  | complete
  deriving DecidableEq

/-- `_component_expression`; the expression of the complete type is the signature as text. -/
def HashType.componentExpression : HashType → Signature → String
  | .full, s => s.fullHash
  | .specific, s => s.specificHash
  | .complete, s => s.text

/-- A value of a hash type, in the scope and the language of its signatures. -/
structure Component where
  scope : String
  language : String
  value : String
  deriving DecidableEq

def HashType.component (hashType : HashType) (s : Signature) : Component :=
  ⟨s.scope, s.language, hashType.componentExpression s⟩

abbrev Observations := Dict ObservationKey ObservationDetail
abbrev SignatureOwners := Dict (Signature × String) SignatureOwner

section Populations

variable (hashType : HashType) (owners : SignatureOwners)

/-- `exact_population` -/
def exactPopulation : Dict Signature Nat :=
  Dict.groupBy (fun row => row.1.1) (fun rows => (rows.map fun row => row.1.2).dedup.length) owners.entries

structure OwnerPopulation where
  referenceObservations : Int
  missedObservations : Int

/-- `component_owner_population` -/
def componentOwnerPopulation : Dict (Component × String) OwnerPopulation :=
  Dict.groupBy (fun row => (hashType.component row.1.1, row.1.2))
    (fun rows => ⟨total (fun row => row.2.referenceObservations) rows, total (fun row => row.2.missedObservations) rows⟩)
    owners.entries

structure Population where
  distinctOwners : Nat
  referenceObservations : Int
  exactSignatureVariants : Nat
  deriving DecidableEq

/-- `component_population` -/
def componentPopulation : Dict Component Population :=
  Dict.groupBy (fun row => hashType.component row.1.1)
    (fun rows => ⟨(rows.map fun row => row.1.2).dedup.length, total (fun row => row.2.referenceObservations) rows,
      (rows.map fun row => row.1.1.text).dedup.length⟩)
    owners.entries

/-- `component_fp` -/
def componentFp (observations : Observations) : Dict (Component × String) Nat :=
  Dict.groupBy (fun row => (hashType.component row.1.signature, row.1.owner)) List.length
    (observations.entries.filter (hasOutcome .fp))

/-- The signatures of one owner whose component has more than one. -/
def disambiguated : List (Signature × String) :=
  (join (fun row exact => decide (exact.1 = row.1.1.1) && decide (exact.2 = 1))
    (join (fun row component => decide (component.1 = hashType.component row.1.1) && decide (1 < component.2.distinctOwners))
      owners.entries (componentPopulation hashType owners).entries)
    (exactPopulation owners).entries).map fun row => row.1.1.1

end Populations

section Tables

variable (hashType : HashType) (observations : Observations)

structure Share where
  distinctValues : Nat
  fractionOfValues : ℚ

/-- The rows of a type in `hash_component_distribution`. -/
def componentDistribution (population : Dict Component Population) : Dict Nat Share :=
  Dict.groupBy (fun row => row.2.distinctOwners)
    (fun rows => ⟨rows.length, rows.length / (if population.entries.length = 0 then 1 else population.entries.length)⟩)
    population.entries

/-- A row of `hash_component_noise`. -/
structure Noise where
  component : Component
  distinctOwners : Nat
  referenceObservations : Int
  exactSignatureVariants : Nat
  exactFalsePositiveObservations : Int
  deriving DecidableEq

/-- The values with more than one owner, each with the false positives of its owners. -/
def noiseRows : List ((Component × Population) × Option ((Component × String) × Nat)) :=
  leftJoin (fun row fp => decide (fp.1.1 = row.1))
    ((componentPopulation hashType (compileSignatureOwner observations)).entries.filter fun row => 1 < row.2.distinctOwners)
    (componentFp hashType observations).entries

/-- The rows of a type in `hash_component_noise`; the key of the population stands for its row. -/
def componentNoise : List Noise :=
  (Dict.groupBy Prod.fst (fun rows => total (fun row => (row.2.elim 0 fun fp => fp.2 : Int)) rows)
    (noiseRows hashType observations)).entries.map
    fun group => ⟨group.1.1, group.1.2.distinctOwners, group.1.2.referenceObservations, group.1.2.exactSignatureVariants,
      group.2⟩

/-- A row of `hash_component_owner`. -/
structure ComponentOwner where
  component : Component
  owner : String
  referenceObservations : Int
  missedObservations : Int
  exactFalsePositiveObservations : Int

abbrev LibraryRow := (((Component × String) × OwnerPopulation) × (Component × Population)) × Option ((Component × String) × Nat)

def ownerRows : List LibraryRow :=
  leftJoin (fun row fp => decide (fp.1 = row.1.1))
    (join (fun row component => decide (component.1 = row.1.1) && decide (1 < component.2.distinctOwners))
      (componentOwnerPopulation hashType (compileSignatureOwner observations)).entries
      (componentPopulation hashType (compileSignatureOwner observations)).entries)
    (componentFp hashType observations).entries

/-- The rows of a type in `hash_component_owner`. -/
def componentOwner : List ComponentOwner :=
  (ownerRows hashType observations).map fun row =>
    ⟨row.1.1.1.1, row.1.1.1.2, row.1.1.2.referenceObservations, row.1.1.2.missedObservations, row.2.elim 0 fun fp => fp.2⟩

structure Library where
  distinctValues : Nat
  multiOwnerValues : Nat
  ambiguousFraction : ℚ
  referenceObservations : Int
  missedObservations : Int
  exactFalsePositiveObservations : Int

def libraryOf (rows : List LibraryRow) : Library :=
  let multiOwner := rows.countP fun row => 1 < row.1.2.2.distinctOwners
  ⟨rows.length, multiOwner, multiOwner / rows.length, total (fun row => row.1.1.2.referenceObservations) rows,
    total (fun row => row.1.1.2.missedObservations) rows, total (fun row => row.2.elim 0 fun fp => fp.2) rows⟩

def libraryRows : List LibraryRow :=
  leftJoin (fun row fp => decide (fp.1 = row.1.1))
    (join (fun row component => decide (component.1 = row.1.1))
      (componentOwnerPopulation hashType (compileSignatureOwner observations)).entries
      (componentPopulation hashType (compileSignatureOwner observations)).entries)
    (componentFp hashType observations).entries

/-- The rows of a type in `hash_component_library`. -/
def componentLibrary : Dict String Library :=
  Dict.groupBy (fun row => row.1.1.1.2) libraryOf (libraryRows hashType observations)

end Tables

section Analysis

variable (hashType : HashType) (observations : Observations)

/-- `ORDER BY` of the most ambiguous values. -/
def noiseOrder (x y : Noise) : Bool :=
  y.distinctOwners < x.distinctOwners || (x.distinctOwners = y.distinctOwners &&
    (y.exactFalsePositiveObservations < x.exactFalsePositiveObservations ||
      (x.exactFalsePositiveObservations = y.exactFalsePositiveObservations &&
        (y.referenceObservations < x.referenceObservations ||
          (x.referenceObservations = y.referenceObservations && x.component.value ≤ y.component.value)))))

/-- `SELECT owner FROM hash_component_owner` of a value. -/
def listedOwners (component : Component) : List String :=
  (((componentOwner hashType observations).filter fun row => row.component = component).map ComponentOwner.owner).insertionSort
    (· ≤ ·)

structure Ambiguous where
  noise : Noise
  owners : List String

/-- What `_compile_hash_type_analysis` returns of a type. -/
structure Analysis where
  hashType : HashType
  distinctValues : Nat
  singletonValues : Nat
  multiOwnerValues : Nat
  multiOwnerFraction : ℚ
  ownerLinks : Int
  ambiguousOwnerLinks : Int
  completeDisambiguatedOwnerSignatures : Nat
  referenceObservations : Int
  exactFalsePositiveObservations : Int
  maximumDistinctOwners : Nat
  distribution : List (Nat × Share)
  topAmbiguous : List Ambiguous
  libraries : List (String × Library)

def libraryOrder (x y : String × Library) : Bool :=
  y.2.ambiguousFraction < x.2.ambiguousFraction || (x.2.ambiguousFraction = y.2.ambiguousFraction &&
    (y.2.multiOwnerValues < x.2.multiOwnerValues || (x.2.multiOwnerValues = y.2.multiOwnerValues && x.1 ≤ y.1)))

def analysis (topLimit : Nat) : Analysis :=
  let owners := compileSignatureOwner observations
  let population := (componentPopulation hashType owners).entries
  let multiOwner := population.countP fun row => 1 < row.2.distinctOwners
  { hashType
    distinctValues := population.length
    singletonValues := population.countP fun row => row.2.distinctOwners = 1
    multiOwnerValues := multiOwner
    multiOwnerFraction := multiOwner / population.length
    ownerLinks := total (fun row => (row.2.distinctOwners : Int)) population
    ambiguousOwnerLinks := total (fun row => if 1 < row.2.distinctOwners then (row.2.distinctOwners : Int) else 0) population
    completeDisambiguatedOwnerSignatures := (disambiguated hashType owners).length
    referenceObservations := total (fun row => row.2.referenceObservations) population
    exactFalsePositiveObservations := total (fun row => (row.2 : Int)) (componentFp hashType observations).entries
    maximumDistinctOwners := (population.map fun row => row.2.distinctOwners).foldr max 0
    distribution := (componentDistribution (componentPopulation hashType owners)).ordered
    topAmbiguous := (((componentNoise hashType observations).insertionSort fun x y => noiseOrder x y).take topLimit).map fun noise =>
      ⟨noise, listedOwners hashType observations noise.component⟩
    libraries := (componentLibrary hashType observations).entries.insertionSort fun x y => libraryOrder x y }

/-- `_compile_hash_type_analysis` -/
def compileHashTypeAnalysis (topLimit : Nat) : List Analysis :=
  [.full, .specific, .complete].map fun hashType => analysis hashType observations topLimit

end Analysis

end FidbPoc.Corpus.HashTypes
