import FidbPoc.Lib.Relation

namespace FidbPoc.Corpus

open FidbPoc.Lib FidbPoc.Lib.Checked FidbPoc.Lib.Sums

/-- A raised exception: the name of its type and its message. -/
structure Raised where
  kind : String
  message : String
  deriving DecidableEq

abbrev Result := Except Raised

def valueError (message : String) : Raised := ⟨"ValueError", message⟩
def integrityError (message : String) : Raised := ⟨"sqlite3.IntegrityError", message⟩

def hashEvidenceSchema : String := "fidb-machine-validation-hash-evidence/v1"
def decisionUnit : String := "complete-fid-signature-owner-assertion"

/-- The six columns that identify a complete signature. -/
structure Signature where
  scope : String
  language : String
  fullHash : String
  specificHash : String
  additionalSize : Int
  codeSize : Int
  deriving DecidableEq

inductive Outcome
  | tp | fp | fn | unattributed
  deriving DecidableEq

/-- One query: a fold of the work unit of a route and a treatment. -/
structure FoldUnit where
  routeId : String
  treatmentId : String
  fold : String
  deriving DecidableEq

/-- The primary key of `hash_observation`. -/
structure ObservationKey where
  signature : Signature
  outcome : Outcome
  owner : String
  unit : FoldUnit
  deriving DecidableEq

/-- The other columns of `hash_observation`. -/
structure ObservationDetail where
  queryAddress : String
  queryFunction : String
  corpusFunction : String
  evidencePath : String
  deriving DecidableEq

abbrev Observation := ObservationKey × ObservationDetail

/-- A row of `unit_result`, whose primary key is its position and its fold. -/
structure UnitResult where
  routeId : String
  treatmentId : String
  queryPath : String
  querySha256 : String
  queryDistinctSignatures : Int
  truePositives : Int
  falsePositives : Int
  trueNegatives : Int
  falseNegatives : Int
  unattributedQuerySignatures : Int
  deriving DecidableEq

/-- A row of `hash_summary`. -/
structure HashSummary where
  truePositives : Int
  falsePositives : Int
  falseNegatives : Int
  unattributedObservations : Int
  distinctCorrectOwners : Int
  distinctIncorrectOwners : Int
  distinctReferenceOwners : Int
  distinctRoutes : Int
  distinctTreatments : Int
  deriving DecidableEq

/-- A row of `hash_signature_owner`. -/
structure SignatureOwner where
  referenceObservations : Int
  recoveredObservations : Int
  missedObservations : Int
  deriving DecidableEq

/-- The tables of a hash evidence database that classification writes and the index reads. -/
structure Evidence where
  metadata : Dict String String
  unitResult : Dict (Int × String) UnitResult
  hashObservation : Dict ObservationKey ObservationDetail
  hashSummary : Dict Signature HashSummary
  hashSignatureOwner : Dict (Signature × String) SignatureOwner

/-- `_create_evidence`. -/
def createEvidence (sourceRunId sourceDigest methodId methodDigest : String) : Evidence where
  metadata := Dict.ofList
    [("schema_version", hashEvidenceSchema), ("source_run_id", sourceRunId), ("source_digest", sourceDigest),
      ("decision_unit", decisionUnit), ("method_id", methodId), ("method_sha256", methodDigest), ("state", "building")]
  unitResult := Dict.empty
  hashObservation := Dict.empty
  hashSummary := Dict.empty
  hashSignatureOwner := Dict.empty

section sealing

def hasOutcome (o : Outcome) (row : Observation) : Bool := row.1.outcome = o

/-- `SUM(outcome=..)`. -/
def sumOutcome (o : Outcome) (rows : List Observation) : Int := total (fun row => if hasOutcome o row then 1 else 0) rows

/-- `COUNT(DISTINCT ..)`. -/
def countDistinct (column : Observation → String) (rows : List Observation) : Int := (rows.map column).dedup.length

def summarize (rows : List Observation) : HashSummary where
  truePositives := sumOutcome .tp rows
  falsePositives := sumOutcome .fp rows
  falseNegatives := sumOutcome .fn rows
  unattributedObservations := sumOutcome .unattributed rows
  distinctCorrectOwners := countDistinct (·.1.owner) (rows.filter (hasOutcome .tp))
  distinctIncorrectOwners := countDistinct (·.1.owner) (rows.filter (hasOutcome .fp))
  distinctReferenceOwners := countDistinct (·.1.owner) rows
  distinctRoutes := countDistinct (·.1.unit.routeId) rows
  distinctTreatments := countDistinct (·.1.unit.treatmentId) rows

def compileSummary (hashObservation : Dict ObservationKey ObservationDetail) : Dict Signature HashSummary :=
  Dict.groupBy (·.1.signature) summarize hashObservation.entries

/-- Observations of an owner's own signature: recovered or missed. -/
def isReference (row : Observation) : Bool := (hasOutcome .tp row || hasOutcome .fn row) && row.1.owner ≠ ""

def countReferences (rows : List Observation) : SignatureOwner where
  referenceObservations := rows.length
  recoveredObservations := sumOutcome .tp rows
  missedObservations := sumOutcome .fn rows

def compileSignatureOwner (hashObservation : Dict ObservationKey ObservationDetail) :
    Dict (Signature × String) SignatureOwner :=
  Dict.groupBy (fun row => (row.1.signature, row.1.owner)) countReferences (hashObservation.entries.filter isReference)

/-- What `analyze_hashes` does once all folds are classified. -/
def sealEvidence (e : Evidence) : Evidence :=
  { e with
    hashSummary := compileSummary e.hashObservation
    hashSignatureOwner := compileSignatureOwner e.hashObservation
    metadata := e.metadata.set "state" "complete" }

end sealing

/-- What the index reads of the metadata of sealed evidence. -/
structure SourceMetadata where
  sourceDigest : String
  methodId : String
  methodSha256 : String
  deriving DecidableEq

/-- `_source_metadata`. -/
def sourceMetadata (e : Evidence) : Result SourceMetadata :=
  let column (key : String) : String := (e.metadata.get? key).getD ""
  if column "schema_version" ≠ hashEvidenceSchema ∨ column "state" ≠ "complete" ∨ column "source_digest" = "" ∨
      column "method_id" = "" ∨ column "method_sha256" = "" then
    .error (valueError "source machine-validation hash evidence is not sealed")
  else .ok ⟨column "source_digest", column "method_id", column "method_sha256"⟩

namespace Evidence

/-- `SELECT DISTINCT owner FROM evidence.hash_signature_owner ORDER BY owner`. -/
def owners (e : Evidence) : List String := (e.hashSignatureOwner.keys.map Prod.snd).dedup.insertionSort (· ≤ ·)

/-- The owners that reference a signature. -/
def ownersOf (e : Evidence) (s : Signature) : List String :=
  (e.hashSignatureOwner.keys.filter fun k => k.1 = s).map Prod.snd

/-- `SELECT DISTINCT` of the signature and the unit of every observation. -/
def observedUnits (e : Evidence) : List (Signature × FoldUnit) :=
  (e.hashObservation.keys.map fun k => (k.signature, k.unit)).dedup

/-- The units that observed a signature, whatever the outcome. -/
def unitsOf (e : Evidence) (s : Signature) : List FoldUnit := (e.observedUnits.filter fun u => u.1 = s).map Prod.snd

/-- Every observed or referenced signature has a row in `hash_summary`. -/
structure Covered (e : Evidence) : Prop where
  observed : ∀ k ∈ e.hashObservation.keys, k.signature ∈ e.hashSummary.keys
  referenced : ∀ k ∈ e.hashSignatureOwner.keys, k.1 ∈ e.hashSummary.keys

/-- The summary and the units agree on the false positives, and no population of true
negatives is negative. -/
structure Reconciled (e : Evidence) : Prop where
  falsePositives : total (·.falsePositives) e.hashSummary.values = total (·.falsePositives) e.unitResult.values
  trueNegatives : ∀ u ∈ e.unitResult.values, 0 ≤ u.trueNegatives

theorem mem_owners {e : Evidence} {o : String} : o ∈ e.owners ↔ ∃ s, (s, o) ∈ e.hashSignatureOwner.keys := by
  simp [owners]

theorem nodup_owners (e : Evidence) : e.owners.Nodup :=
  ((List.perm_insertionSort _ _).nodup_iff).mpr (List.nodup_dedup _)

theorem mem_ownersOf {e : Evidence} {s : Signature} {o : String} :
    o ∈ e.ownersOf s ↔ (s, o) ∈ e.hashSignatureOwner.keys := by
  simp only [ownersOf, List.mem_map, List.mem_filter, decide_eq_true_eq]
  constructor
  · rintro ⟨k, ⟨hk, rfl⟩, rfl⟩
    exact hk
  · exact fun h => ⟨(s, o), ⟨h, rfl⟩, rfl⟩

theorem nodup_ownersOf (e : Evidence) (s : Signature) : (e.ownersOf s).Nodup := by
  refine List.Nodup.map_on ?_ (e.hashSignatureOwner.nodup_keys.filter _)
  intro k hk k' hk' h
  have hs : k.1 = s := of_decide_eq_true (List.mem_filter.mp hk).2
  have hs' : k'.1 = s := of_decide_eq_true (List.mem_filter.mp hk').2
  exact Prod.ext (hs.trans hs'.symm) h

/-- A signature has no more owners than the evidence has. -/
theorem length_ownersOf_le (e : Evidence) (s : Signature) : (e.ownersOf s).length ≤ e.owners.length :=
  (List.subperm_of_subset (e.nodup_ownersOf s) fun _ ho => mem_owners.mpr ⟨s, mem_ownersOf.mp ho⟩).length_le

theorem mem_unitsOf {e : Evidence} {s : Signature} {u : FoldUnit} :
    u ∈ e.unitsOf s ↔ ∃ k ∈ e.hashObservation.keys, k.signature = s ∧ k.unit = u := by
  simp only [unitsOf, observedUnits, List.mem_map, List.mem_filter, List.mem_dedup, decide_eq_true_eq]
  constructor
  · rintro ⟨u', ⟨⟨k, hk, rfl⟩, rfl⟩, rfl⟩
    exact ⟨k, hk, rfl, rfl⟩
  · rintro ⟨k, hk, rfl, rfl⟩
    exact ⟨_, ⟨⟨k, hk, rfl⟩, rfl⟩, rfl⟩

theorem nodup_unitsOf (e : Evidence) (s : Signature) : (e.unitsOf s).Nodup := by
  refine List.Nodup.map_on ?_ ((List.nodup_dedup _).filter _)
  intro u hu u' hu' h
  have hs : u.1 = s := of_decide_eq_true (List.mem_filter.mp hu).2
  have hs' : u'.1 = s := of_decide_eq_true (List.mem_filter.mp hu').2
  exact Prod.ext (hs.trans hs'.symm) h

end Evidence

/-- Sealing summarises whatever was observed or referenced. -/
theorem covered_sealEvidence (e : Evidence) : (sealEvidence e).Covered := by
  have hsummary : ∀ k ∈ e.hashObservation.keys, k.signature ∈ (sealEvidence e).hashSummary.keys := by
    intro k hk
    obtain ⟨row, hrow, rfl⟩ := List.mem_map.mp hk
    exact Dict.mem_keys_groupBy.mpr ⟨row, hrow, rfl⟩
  refine ⟨hsummary, ?_⟩
  intro k hk
  obtain ⟨row, hrow, rfl⟩ := Dict.mem_keys_groupBy.mp hk
  exact hsummary row.1 (Dict.mem_keys_of_mem (List.mem_filter.mp hrow).1)

end FidbPoc.Corpus
