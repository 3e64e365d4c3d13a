import FidbPoc.Lib.Checked
import FidbPoc.Lib.Leaders

namespace FidbPoc.Matching

open FidbPoc.Lib.Checked

/-- A raised exception: the name of its type and its message. -/
structure Error where
  kind : String
  message : String
  deriving DecidableEq

abbrev Result := Except Error

def valueError (message : String) : Error := ⟨"ValueError", message⟩

def matchInputSchema : String := "fidb-portable-fid-input/v1"

def autoPass : Nat := 1
def autoFail : Nat := 2
def forceSpecific : Nat := 4
def forceRelation : Nat := 8

/-- The fields of the `semantics` table that scoring reads. -/
structure Semantics (κ : Type) where
  scoreThreshold : κ
  mediumCodeUnitLimit : Int
  specificConstantWeight : κ
  maximumParentsForScore : Int

/-- Double arithmetic and the rounding of `_f32`, which raises outside its range. -/
structure FloatArithmetic (κ : Type) where
  float : Int → Result κ
  f32 : κ → Result κ
  add : κ → κ → κ
  mul : κ → κ → κ

/-- What `_score_inputs` and `_cull` read of a function. -/
structure FunctionIdentity where
  address : String
  fullHash : String
  specificHash : String
  deriving DecidableEq

structure Candidate where
  candidateId : String
  owner : String
  name : String
  fullHash : String
  specificHash : String
  specificHashAdditionalSize : Int
  codeUnitSize : Int
  childCodeUnits : Int
  parentCodeUnits : Int
  autoPass : Bool
  autoFail : Bool
  forceSpecific : Bool
  forceRelation : Bool
  deriving DecidableEq

structure ScoreInput where
  functionUnits : Int
  specificUnits : Int
  childUnits : Int
  parentUnits : Int
  flags : Nat
  deriving DecidableEq

def candidateFlags (candidate : Candidate) : Nat :=
  let flags := 0
  let flags := if candidate.autoPass then flags ||| autoPass else flags
  let flags := if candidate.autoFail then flags ||| autoFail else flags
  let flags := if candidate.forceSpecific then flags ||| forceSpecific else flags
  if candidate.forceRelation then flags ||| forceRelation else flags

variable {κ : Type}

def scoreInputs (function : FunctionIdentity) (candidate : Candidate) (semantics : Semantics κ) :
    Result ScoreInput := do
  require (candidate.fullHash = function.fullHash)
    (valueError "portable FID candidate does not share the query full hash")
  let flags := candidateFlags candidate
  let functionUnits :=
    if flags &&& autoPass ≠ 0 then max candidate.codeUnitSize semantics.mediumCodeUnitLimit
    else candidate.codeUnitSize
  let specificUnits :=
    if candidate.specificHash = function.specificHash then candidate.specificHashAdditionalSize else 0
  pure ⟨functionUnits, specificUnits, candidate.childCodeUnits, candidate.parentCodeUnits, flags⟩

section score

variable [LinearOrder κ]

def scoreCpuRow (float : FloatArithmetic κ) (semantics : Semantics κ) (values : ScoreInput) :
    Result (Option κ) :=
  if values.flags &&& autoFail ≠ 0 then pure none
  else if values.flags &&& forceSpecific ≠ 0 ∧ values.specificUnits = 0 then pure none
  else if values.flags &&& forceRelation ≠ 0 ∧ values.childUnits = 0 then pure none
  else do
    let primary ← float.f32 (← float.float values.functionUnits)
    let specific ← float.float values.specificUnits
    let primary ← float.f32 (float.add primary (float.mul semantics.specificConstantWeight specific))
    let child ← float.f32 (← float.float values.childUnits)
    let sum ← float.f32 (float.add primary child)
    let parent ← float.f32 (← float.float values.parentUnits)
    let overall ← float.f32 (float.add sum parent)
    let threshold ← float.f32 semantics.scoreThreshold
    pure (if overall < threshold then none else some overall)

end score

/-- The scoring of one packed row on the CPU. -/
abbrev RowScorer (κ : Type) := ScoreInput → Result (Option κ)

def scoreRowsCpu (score : RowScorer κ) (rows : List ScoreInput) : Result (List (Option κ)) := rows.mapM score

structure Match (κ : Type) where
  candidateId : String
  owner : String
  name : String
  score : κ
  deriving DecidableEq

/-- A decision: the function and the matches kept for it. -/
structure Decision (μ : Type) extends FunctionIdentity where
  found : List μ
  deriving DecidableEq

structure InputFunction extends FunctionIdentity where
  candidates : List Candidate
  deriving DecidableEq

structure MatchDocument where
  schemaVersion : String
  functions : List InputFunction
  deriving DecidableEq

section cull

variable [LinearOrder κ]

/-- The accepted rows of one function, then those with the maximal score. -/
def cullFunction (candidates : List Candidate) (values : List (Option κ)) : List (Match κ) :=
  let accepted := (candidates.zip values).filterMap fun (candidate, score) => score.map fun s => (candidate, s)
  match (accepted.map Prod.snd).max? with
  | none => []
  | some maximum =>
    (accepted.filter fun (_, score) => score = maximum).map fun (candidate, score) =>
      ⟨candidate.candidateId, candidate.owner, candidate.name, score⟩

/-- The loop of `_cull` with its cursor into the score vector. -/
def cullFrom (scores : List (Option κ)) (cursor : Nat) : List InputFunction → List (Decision (Match κ)) × Nat
  | [] => ([], cursor)
  | function :: rest =>
    let values := (scores.drop cursor).take function.candidates.length
    let (output, cursor) := cullFrom scores (cursor + function.candidates.length) rest
    (⟨function.toFunctionIdentity, cullFunction function.candidates values⟩ :: output, cursor)

def cull (functions : List InputFunction) (scores : List (Option κ)) : Result (List (Decision (Match κ))) := do
  let (output, cursor) := cullFrom scores 0 functions
  require (cursor = scores.length) (valueError "portable FID score vector does not reconcile")
  pure output

end cull

def validateCandidates : List Candidate → List String → Result Unit
  | [], _ => pure ()
  | candidate :: rest, candidateIds => do
    require (candidate.candidateId ∉ candidateIds) (valueError "portable FID candidate identity is duplicated")
    validateCandidates rest (candidate.candidateId :: candidateIds)

def validateFunctions : List InputFunction → List String → Result Unit
  | [], _ => pure ()
  | function :: rest, seen => do
    require (function.address ∉ seen) (valueError "portable FID function identity is duplicated or invalid")
    validateCandidates function.candidates []
    validateFunctions rest (function.address :: seen)

def validateInput (document : MatchDocument) : Result Unit := do
  require (document.schemaVersion = matchInputSchema) (valueError "portable FID input has unsupported schema")
  validateFunctions document.functions []

structure MatchReport (μ : Type) where
  backend : String
  functions : List (Decision μ)
  candidateCount : Nat
  matchedFunctions : Nat

def matchedFunctions {μ : Type} (decisions : List (Decision μ)) : Nat :=
  decisions.countP fun row => !row.found.isEmpty

def matchCpu [LinearOrder κ] (score : RowScorer κ) (semantics : Semantics κ) (document : MatchDocument) :
    Result (MatchReport (Match κ)) := do
  validateInput document
  let pairs := document.functions.flatMap fun function =>
    function.candidates.map fun candidate => (function.toFunctionIdentity, candidate)
  let rows ← pairs.mapM fun (function, candidate) => scoreInputs function candidate semantics
  let scores ← scoreRowsCpu score rows
  let decisions ← cull document.functions scores
  pure ⟨"cpu-portable-fid-v1", decisions, rows.length, matchedFunctions decisions⟩

end FidbPoc.Matching
