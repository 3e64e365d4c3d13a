import FidbPoc.Lib.Grouping
import FidbPoc.Planning.Resolution

namespace FidbPoc.Planning

open FidbPoc.Lib FidbPoc.Lib.Checked FidbPoc.Lib.Grouping FidbPoc.Width
open FidbPoc.Coordinator (QueueRow RowState)

/-- A row of the factor-variants catalog. -/
structure FactorVariant where
  id : String
  factor : String
  group : String
  label : String
  state : String
  authority : String

/-- The counts of the variants that a matrix selects. -/
structure VariantSummary where
  selected : Nat
  combinations : Nat
  registeredCombinations : Nat
  registered : Nat
  unmet : Nat

def addVariant (knownFactors : List String) (catalog : Dict String FactorVariant) (row : FactorVariant) :
    Result (Dict String FactorVariant) := do
  token row.id "factor variant id"
  require ((catalog.get? row.id).isNone = true) s!"duplicate factor variant: {row.id}"
  token row.factor s!"factor variant {row.id} factor"
  token row.group s!"factor variant {row.id} group"
  token row.label s!"factor variant {row.id} label"
  token row.state s!"factor variant {row.id} state"
  token row.authority s!"factor variant {row.id} authority"
  require (row.factor ∈ knownFactors) s!"factor variant {row.id} references unknown factor: {row.factor}"
  pure (catalog.set row.id row)

def countFactor (byFactor : Dict String Nat) (row : FactorVariant) : Dict String Nat :=
  byFactor.set row.factor ((byFactor.get? row.factor).getD 0 + 1)

def summarizeVariants (selected : List FactorVariant) : VariantSummary :=
  let byFactor := selected.foldl countFactor Dict.empty
  let registered (factor : String) : Nat := selected.countP fun row => row.factor = factor ∧ row.state = "registered"
  { selected := selected.length
    combinations := if selected = [] then 1 else (byFactor.values.foldl (· * ·) 1)
    registeredCombinations :=
      if selected = [] then 1 else (byFactor.entries.foldl (fun n entry => n * registered entry.1) 1)
    registered := selected.countP fun row => row.state = "registered"
    unmet := selected.countP fun row => row.state ≠ "registered" }

/-- The variants of the catalog that are requested, and their counts. -/
def factorVariants (rows : List FactorVariant) (knownFactors requested : List String) :
    Result (List FactorVariant × VariantSummary) := do
  require (rows.length ≠ 0) "factor-variants catalog must contain [[variant]] rows"
  let catalog ← rows.foldlM (addVariant knownFactors) Dict.empty
  let missing := requested.filter fun id => (catalog.get? id).isNone
  require (missing = []) ("unknown factor variants: " ++ ", ".intercalate missing.mergeSort)
  let selected := requested.filterMap catalog.get?
  pure (selected, summarizeVariants selected)

/-- A matrix and the variants that it sets in place of the plan's. -/
structure MatrixVariants where
  id : String
  factorVariants : Option (List String)

abbrev VariantsByMatrix := Dict String (List FactorVariant × VariantSummary)

def matrixSelection (rows : List FactorVariant) (knownFactors : List String)
    (plan : List FactorVariant × VariantSummary) : Option (List String) → Result (List FactorVariant × VariantSummary)
  | none => pure plan
  | some requested => factorVariants rows knownFactors requested

def selectVariants (rows : List FactorVariant) (knownFactors : List String) (plan : List FactorVariant × VariantSummary)
    (variants : VariantsByMatrix) (matrix : MatrixVariants) : Result VariantsByMatrix := do
  let selected ← matrixSelection rows knownFactors plan matrix.factorVariants
  pure (variants.set matrix.id selected)

/-- The variants of each matrix and their counts. -/
def resolveVariants (rows : List FactorVariant) (knownFactors planVariants : List String)
    (matrices : List MatrixVariants) : Result VariantsByMatrix := do
  let plan ← factorVariants rows knownFactors planVariants
  matrices.foldlM (selectVariants rows knownFactors plan) Dict.empty

/-- A resolved cell with the treatment that fixes some of its factors. -/
structure FactoredCell extends Cell where
  treatment : String
  requirements : Dict String String

def groupVariant (byFactor : Dict String (List FactorVariant)) (variant : FactorVariant) :
    Dict String (List FactorVariant) :=
  byFactor.set variant.factor ((byFactor.get? variant.factor).getD [] ++ [variant])

def variantCombinations (variants : List FactorVariant) : List (List FactorVariant) :=
  product (variants.foldl groupVariant Dict.empty).values

inductive Strategy
  | recipeThenVariant
  | variantThenRecipe

abbrev Profiles := Dict (List String) (List FactorVariant × List FactoredCell)

def addProfile (profiles : Profiles) (row : FactoredCell × List FactorVariant) : Profiles :=
  let profile := row.2.map FactorVariant.id
  let known := (profiles.get? profile).getD (row.2, [])
  profiles.set profile (known.1, known.2 ++ [row.1])

/-- The cells of a queue with their combinations, in the order of its strategy. -/
def queuePairs (strategy : Strategy) (rows : List (FactoredCell × List FactorVariant)) :
    List (FactoredCell × List FactorVariant) :=
  match strategy with
  | .recipeThenVariant => rows.flatMap fun row => (variantCombinations row.2).map (Prod.mk row.1)
  | .variantThenRecipe =>
    (rows.foldl addProfile Dict.empty).values.flatMap fun profile =>
      (variantCombinations profile.1).flatMap fun combination => profile.2.map fun cell => (cell, combination)

def rowBlockers (cell : FactoredCell) (combination : List FactorVariant) : List String :=
  cell.blockers ++
    (combination.filter fun variant => variant.state ≠ "registered").map (fun variant =>
      s!"factor variant {variant.id} is {variant.state}") ++
    (combination.filter fun variant => (cell.requirements.get? variant.factor).any fun id => id ≠ variant.id).map
      fun variant => s!"factor variant {variant.id} is incompatible with {cell.treatment}"

def queueRow (i : Nat) (pair : FactoredCell × List FactorVariant) : QueueRow :=
  ⟨i + 1, pair.1.id, pair.2.map FactorVariant.id, if rowBlockers pair.1 pair.2 = [] then .planned else .blocked,
    rowBlockers pair.1 pair.2, Nat.succ_pos i⟩

/-- A cell with the variants and the counts of its matrix. -/
def cellVariants (variants : VariantsByMatrix) (cell : FactoredCell) :
    Result (FactoredCell × List FactorVariant × VariantSummary) :=
  match variants.get? cell.matrix with
  | none => .error "KeyError"
  | some selected => .ok (cell, selected)

def factoredPreview (variants : VariantsByMatrix) (strategy : Strategy) (cells : List FactoredCell) :
    Result (List QueueRow) := do
  let rows ← cells.mapM (cellVariants variants)
  pure ((queuePairs strategy (rows.map fun row => (row.1, row.2.1))).mapIdx queueRow)

def desiredCells (variants : VariantsByMatrix) (cells : List FactoredCell) : Result Nat := do
  let rows ← cells.mapM (cellVariants variants)
  pure (rows.map fun row => row.2.2.combinations).sum

structure PlanSummary where
  baseCells : Nat
  desiredCells : Nat
  plannedCells : Nat
  blockedCells : Int

def planSummary (cells : List FactoredCell) (desired : Nat) (preview : List QueueRow) : PlanSummary :=
  let planned := preview.countP fun row => row.state = .planned
  ⟨cells.length, desired, planned, desired - planned⟩

/-- The admission of a plan's cells to its queue. -/
def resolveQueue (variants : VariantsByMatrix) (strategy : Strategy) (maxCells : Nat) (cells : List FactoredCell) :
    Result (List QueueRow × PlanSummary) := do
  let desired ← desiredCells variants cells
  require (desired ≤ maxCells)
    s!"resolved plan has {desired} desired cells after factor expansion, exceeding max_cells={maxCells}"
  let preview ← factoredPreview variants strategy cells
  pure (preview, planSummary cells desired preview)

end FidbPoc.Planning
