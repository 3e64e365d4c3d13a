import FidbPoc.Corpus.Evidence

namespace FidbPoc.Corpus

open FidbPoc.Lib FidbPoc.Lib.Checked FidbPoc.Lib.Sums

/-- The columns that a query and a reference are joined on. -/
structure Identity where
  language : String
  fullHash : String
  specificHash : String
  additionalSize : Int
  codeSize : Int
  deriving DecidableEq

/-- A line of a signature export, with the keys that may be absent. -/
structure SignatureLine where
  address : Option String
  functionName : Option String
  name : Option String
  ghidraLanguageId : Option String
  language : Option String
  fullHash : Option String
  specificHash : Option String
  specificHashAdditionalSize : Option Int
  codeUnitSize : Option Int
  deriving DecidableEq

structure SignatureRow where
  address : String
  functionName : String
  identity : Identity
  deriving DecidableEq

/-- `row[key]`. -/
def required {α : Type} (key : String) : Option α → Result α
  | none => .error ⟨"KeyError", key⟩
  | some value => .ok value

/-- One row of `_signature_rows`. -/
def signatureRow (line : SignatureLine) : Result SignatureRow := do
  let fullHash ← required "full_hash" line.fullHash
  let specificHash ← required "specific_hash" line.specificHash
  let additionalSize ← required "specific_hash_additional_size" line.specificHashAdditionalSize
  let codeSize ← required "code_unit_size" line.codeUnitSize
  pure
    { address := line.address.getD ""
      functionName := line.functionName.getD (line.name.getD "")
      identity := ⟨line.ghidraLanguageId.getD (line.language.getD ""), fullHash, specificHash, additionalSize, codeSize⟩ }

/-- The other columns of `query_signature`. -/
structure QueryFunction where
  address : String
  functionName : String
  deriving DecidableEq

/-- The table `query_signature`. -/
abbrev Query := Dict Identity QueryFunction

/-- `_load_query`. -/
def loadQuery (lines : List SignatureLine) : Result Query := do
  let rows ← lines.mapM signatureRow
  pure (Dict.empty.insertOrIgnore (rows.map fun row => (row.identity, ⟨row.address, row.functionName⟩)))

structure ReferenceDetail where
  functionName : String
  evidencePath : String
  deriving DecidableEq

/-- The primary key of `reference_identity`. -/
structure ReferenceKey where
  targetOs : String
  binaryFormat : String
  identity : Identity
  owner : String
  routeId : String
  treatmentId : String
  deriving DecidableEq

/-- The reference tables of a connection. -/
structure ReferenceDatabase where
  referenceIdentity : Dict ReferenceKey ReferenceDetail
  unitReference : Dict (Identity × String) ReferenceDetail

/-- The signature export of an owner for a route and a treatment. -/
structure SignatureFile where
  lines : List SignatureLine
  source : String

/-- `_load_unit_reference`. -/
def loadUnitReference (signatures : Dict (String × String × String) SignatureFile) (cohort : List String)
    (routeId treatmentId : String) : Result (Dict (Identity × String) ReferenceDetail) :=
  cohort.foldlM
    (fun table owner => do
      let item ← required owner (signatures.get? (owner, routeId, treatmentId))
      let rows ← item.lines.mapM signatureRow
      pure (table.insertOrIgnore
        (rows.map fun row => ((row.identity, owner), (⟨row.functionName, item.source⟩ : ReferenceDetail)))))
    Dict.empty

/-- The arguments of `_classify_fold`, with the rows and the digest of its query file. -/
structure FoldCall where
  position : Int
  routeId : String
  treatmentId : String
  targetOs : String
  binaryFormat : String
  fold : String
  present : List String
  cohort : List String
  query : List SignatureLine
  queryFileSha256 : String
  queryRelative : String
  referenceTable : String
  querySha256 : Option String

structure FoldResult where
  queryDistinctSignatures : Int
  truePositives : Int
  falsePositives : Int
  trueNegatives : Int
  falseNegatives : Int
  unattributedQuerySignatures : Int
  deriving DecidableEq

namespace FoldCall

def unit (call : FoldCall) : FoldUnit := ⟨call.routeId, call.treatmentId, call.fold⟩

/-- `_scope`, with the other columns of a signature. -/
def signature (call : FoldCall) (i : Identity) : Signature where
  scope := call.targetOs ++ "|" ++ call.binaryFormat ++ "|" ++ i.language
  language := i.language
  fullHash := i.fullHash
  specificHash := i.specificHash
  additionalSize := i.additionalSize
  codeSize := i.codeSize

/-- `set(cohort) - set(present)`. -/
def absent (call : FoldCall) : List String := call.cohort.dedup.filter fun o => o ∉ call.present

end FoldCall

/-- A row of either reference table. -/
structure ReferenceRow where
  identity : Identity
  owner : String
  detail : ReferenceDetail
  deriving DecidableEq

/-- The rows of the reference table that pass the identity filter. -/
def referenceRows (db : ReferenceDatabase) (call : FoldCall) : List ReferenceRow :=
  if call.referenceTable = "unit_reference" then
    db.unitReference.entries.map fun row => ⟨row.1.1, row.1.2, row.2⟩
  else
    (db.referenceIdentity.entries.filter fun row =>
      row.1.targetOs = call.targetOs ∧ row.1.binaryFormat = call.binaryFormat ∧ row.1.routeId = call.routeId ∧
        row.1.treatmentId = call.treatmentId).map fun row => ⟨row.1.identity, row.1.owner, row.2⟩

structure MatchRow where
  query : Identity × QueryFunction
  reference : ReferenceRow
  isPresent : Bool

/-- `match_sql`. -/
def matchRows (query : Query) (references : List ReferenceRow) (foldOwner : Dict String Bool) : List MatchRow :=
  query.entries.flatMap fun q =>
    (references.filter fun r => r.identity = q.1).filterMap fun r =>
      (foldOwner.get? r.owner).map fun isPresent => ⟨q, r, isPresent⟩

/-- `miss_sql`. -/
def missRows (query : Query) (references : List ReferenceRow) (foldOwner : Dict String Bool) : List ReferenceRow :=
  references.filter fun r => foldOwner.get? r.owner = some true ∧ query.get? r.identity = none

section observations

variable (call : FoldCall)

def matchObservation (row : MatchRow) : Observation :=
  (⟨call.signature row.query.1, if row.isPresent then .tp else .fp, row.reference.owner, call.unit⟩,
    ⟨row.query.2.address, row.query.2.functionName, row.reference.detail.functionName,
      row.reference.detail.evidencePath⟩)

def unattributedObservation (q : Identity × QueryFunction) : Observation :=
  (⟨call.signature q.1, .unattributed, "", call.unit⟩, ⟨q.2.address, q.2.functionName, "", call.queryRelative⟩)

def missObservation (r : ReferenceRow) : Observation :=
  (⟨call.signature r.identity, .fn, r.owner, call.unit⟩, ⟨"", "", r.detail.functionName, r.detail.evidencePath⟩)

end observations

/-- The table `hash_observation`. -/
abbrev Observations := Dict ObservationKey ObservationDetail

/-- The rows that wait for the next `executemany`, and the table. -/
structure Pending where
  rows : List Observation
  table : Observations

namespace Pending

def flush (p : Pending) : Pending := ⟨[], p.table.replaceRows p.rows⟩

/-- Append a row, and write all of them once there are 5000. -/
def add (p : Pending) (row : Observation) : Pending :=
  let appended : Pending := ⟨p.rows ++ [row], p.table⟩
  if appended.rows.length ≥ 5000 then appended.flush else appended

end Pending

/-- The variables of the loop over `match_sql`. -/
structure MatchLoop where
  tp : Int
  fp : Int
  matchedQuery : List Identity
  pending : Pending

def matchStep (call : FoldCall) (loop : MatchLoop) (row : MatchRow) : MatchLoop :=
  let pending := loop.pending.add (matchObservation call row)
  if row.isPresent then
    { loop with tp := loop.tp + 1, matchedQuery := loop.matchedQuery ++ [row.query.1], pending }
  else { loop with fp := loop.fp + 1, pending }

/-- The variables of the loops over the query and over `miss_sql`. -/
structure CountLoop where
  count : Int
  pending : Pending

def countStep {α : Type} (skip : α → Bool) (observation : α → Observation) (loop : CountLoop) (x : α) : CountLoop :=
  if skip x then loop else ⟨loop.count + 1, loop.pending.add (observation x)⟩

/-- `query_sha256 or _sha256(query_path)`. -/
def FoldCall.recordedSha256 (call : FoldCall) : String :=
  match call.querySha256 with
  | none => call.queryFileSha256
  | some digest => if digest = "" then call.queryFileSha256 else digest

/-- `_classify_fold`. -/
def classifyFold (output : Evidence) (db : ReferenceDatabase) (call : FoldCall) : Result (Evidence × FoldResult) := do
  require (call.referenceTable = "reference_identity" ∨ call.referenceTable = "unit_reference")
    (valueError "unsupported single-hash reference table")
  let query ← loadQuery call.query
  let foldOwner ← Dict.insertRows (integrityError "UNIQUE constraint failed: fold_owner.owner") Dict.empty
    (call.cohort.map fun owner => (owner, decide (owner ∈ call.present)))
  let references := referenceRows db call
  let matched := (matchRows query references foldOwner).foldl (matchStep call) ⟨0, 0, [], [], output.hashObservation⟩
  let unattributed := query.entries.foldl
    (countStep (fun q => q.1 ∈ matched.matchedQuery) (unattributedObservation call)) ⟨0, matched.pending.flush⟩
  let missed := (missRows query references foldOwner).foldl
    (countStep (fun _ => false) (missObservation call)) ⟨0, unattributed.pending.flush⟩
  let queryCount : Int := query.entries.length
  let tn := queryCount * call.absent.length - matched.fp
  let result : UnitResult :=
    { routeId := call.routeId, treatmentId := call.treatmentId, queryPath := call.queryRelative
      querySha256 := call.recordedSha256, queryDistinctSignatures := queryCount
      truePositives := matched.tp, falsePositives := matched.fp, trueNegatives := tn
      falseNegatives := missed.count, unattributedQuerySignatures := unattributed.count }
  pure
    ({ output with
        hashObservation := missed.pending.flush.table
        unitResult := output.unitResult.set (call.position, call.fold) result },
      ⟨queryCount, matched.tp, matched.fp, tn, missed.count, unattributed.count⟩)

/-- Folds classified one after the other, each against the reference tables of its time. -/
def classifyFolds (output : Evidence) (calls : List (ReferenceDatabase × FoldCall)) : Result Evidence :=
  calls.foldlM (fun output c => Prod.fst <$> classifyFold output c.1 c.2) output

/-- What `analyze_hashes` reads of a fold. -/
structure FoldInput where
  fold : String
  present : List String
  query : List SignatureLine
  queryFileSha256 : String
  queryRelative : String

/-- What `analyze_hashes` reads of a work unit and its route. -/
structure WorkUnit where
  position : Int
  routeId : String
  treatmentId : String
  targetOs : String
  binaryFormat : String
  folds : List FoldInput

def WorkUnit.foldCall (work : WorkUnit) (cohort : List String) (input : FoldInput) : FoldCall where
  position := work.position
  routeId := work.routeId
  treatmentId := work.treatmentId
  targetOs := work.targetOs
  binaryFormat := work.binaryFormat
  fold := input.fold
  present := input.present
  cohort := cohort
  query := input.query
  queryFileSha256 := input.queryFileSha256
  queryRelative := input.queryRelative
  referenceTable := "unit_reference"
  querySha256 := some input.queryFileSha256

/-- The classification loop of `analyze_hashes`. -/
def classifyUnits (signatures : Dict (String × String × String) SignatureFile) (cohort : List String)
    (output : Evidence) (units : List WorkUnit) : Result Evidence :=
  units.foldlM
    (fun output work => do
      let unitReference ← loadUnitReference signatures cohort work.routeId work.treatmentId
      classifyFolds output (work.folds.map fun input => (⟨Dict.empty, unitReference⟩, work.foldCall cohort input)))
    output

end FidbPoc.Corpus
