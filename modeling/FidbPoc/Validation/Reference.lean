import FidbPoc.Lib.Relation
import Mathlib.Data.List.Sort

namespace FidbPoc.Validation.Reference

open FidbPoc.Lib FidbPoc.Lib.Checked

inductive Raised
  | value
  | key (name : String)
  | overflow
  deriving DecidableEq

abbrev Result := Except Raised

/-- A line of a signature file: its fields as `str()` and `int()` read them. -/
structure SignatureRow where
  language : Option String
  ghidraLanguageId : Option String
  fullHash : Option String
  specificHash : Option String
  additionalSize : Option Int
  codeUnitSize : Option Int
  name : Option String
  functionName : Option String
  address : Option String

/-- The lines of a file, `none` for one that is no object. -/
abbrev Lines := List (Option SignatureRow)

structure Item where
  source : String
  lines : Lines

structure Route where
  id : String
  targetOs : String
  binaryFormat : String

/-- An owner, a route and a treatment. -/
abbrev Place := String × String × String

structure Evidence where
  signatures : Dict Place Item
  routes : List Route

/-- The columns that a query function and a reference must share. -/
structure Signature where
  targetOs : String
  binaryFormat : String
  language : String
  fullHash : String
  specificHash : String
  additionalSize : Int
  codeSize : Int
  deriving DecidableEq

/-- The primary key of `reference_identity`. -/
structure Identity where
  signature : Signature
  owner : String
  routeId : String
  treatmentId : String
  deriving DecidableEq

structure Named where
  functionName : String
  evidencePath : String

structure OwnerRow where
  functionName : String
  evidencePath : String
  identityCount : Nat

structure Index where
  referenceIdentity : Dict Identity Named
  /-- `reference_owner_signature`, by signature and owner -/
  referenceOwnerSignature : Dict (Signature × String) OwnerRow

section Rows

/-- `_read_signature_rows`, one line. -/
def readRow (line : Option SignatureRow) : Result SignatureRow := line.elim (.error .value) .ok

def required {α : Type} (name : String) (value : Option α) : Result α := value.elim (.error (.key name)) .ok

/-- An integer as SQLite takes it. -/
def sqlInteger (n : Int) : Result Int :=
  if -9223372036854775808 ≤ n ∧ n ≤ 9223372036854775807 then .ok n else .error .overflow

def signatureOf (language targetOs binaryFormat : String) (row : SignatureRow) : Result Signature := do
  let fullHash ← required "full_hash" row.fullHash
  let specificHash ← required "specific_hash" row.specificHash
  let additionalSize ← required "specific_hash_additional_size" row.additionalSize
  let codeSize ← required "code_unit_size" row.codeUnitSize
  let additionalSize ← sqlInteger additionalSize
  let codeSize ← sqlInteger codeSize
  return ⟨targetOs, binaryFormat, language, fullHash, specificHash, additionalSize, codeSize⟩

def referenceLanguage (row : SignatureRow) : String := row.language.getD (row.ghidraLanguageId.getD "")

def queryLanguage (row : SignatureRow) : String := row.ghidraLanguageId.getD (row.language.getD "")

end Rows

section Build

/-- The order of the sorted keys. -/
def placeOrder (a b : Place × Item) : Prop :=
  a.1.1 < b.1.1 ∨ a.1.1 = b.1.1 ∧ (a.1.2.1 < b.1.2.1 ∨ a.1.2.1 = b.1.2.1 ∧ a.1.2.2 ≤ b.1.2.2)

instance : DecidableRel placeOrder := fun _ _ => inferInstanceAs (Decidable (_ ∨ _))

/-- `routes[route]`, where the last route of an id counts. -/
def routeOf (routes : List Route) (id : String) : Result Route :=
  ((routes.reverse.find? fun route => route.id = id).elim (.error (.key id)) .ok)

def identityRow (route : Route) (place : Place) (item : Item) (line : Option SignatureRow) :
    Result (Identity × Named) := do
  let row ← readRow line
  let signature ← signatureOf (referenceLanguage row) route.targetOs route.binaryFormat row
  return (⟨signature, place.1, place.2.1, place.2.2⟩, ⟨row.name.getD (row.functionName.getD ""), item.source⟩)

/-- One line: the batch grows, and is inserted when it is full. -/
def batchRow (limit : Nat) (route : Route) (place : Place) (item : Item)
    (state : Dict Identity Named × List (Identity × Named)) (line : Option SignatureRow) :
    Result (Dict Identity Named × List (Identity × Named)) := do
  let row ← identityRow route place item line
  let batch := state.2 ++ [row]
  return if limit ≤ batch.length then (state.1.insertOrIgnore batch, []) else (state.1, batch)

/-- One signature file; what is left of the batch is inserted at its end. -/
def insertFile (limit : Nat) (routes : List Route) (table : Dict Identity Named) (file : Place × Item) :
    Result (Dict Identity Named) := do
  let route ← routeOf routes file.1.2.1
  let state ← file.2.lines.foldlM (batchRow limit route file.1 file.2) (table, [])
  return state.1.insertOrIgnore state.2

def leastText : List String → String
  | [] => ""
  | text :: rest => rest.foldl (fun least other => if other < least then other else least) text

def ownerRow (rows : List (Identity × Named)) : OwnerRow :=
  ⟨leastText (rows.map fun row => row.2.functionName), leastText (rows.map fun row => row.2.evidencePath), rows.length⟩

/-- `build_reference_index`, where no index of the same files is there; a batch is 5000 rows. -/
def buildReferenceIndex (limit : Nat) (evidence : Evidence) : Result Index := do
  let table ← (evidence.signatures.entries.insertionSort placeOrder).foldlM (insertFile limit evidence.routes) .empty
  return ⟨table, Dict.groupBy (fun row => (row.1.signature, row.1.owner)) ownerRow table.entries⟩

end Build

section Query

structure QueryRow where
  address : String
  functionName : String
  signature : Signature

/-- What `_query_index` asks for. -/
structure Query where
  routeId : String
  treatmentId : String
  targetOs : String
  binaryFormat : String
  includeExact : Bool

structure Example where
  functionId : String
  signature : String
  candidateOwner : String
  evidencePath : String
  corpusFunction : String

def queryRow (query : Query) (line : Option SignatureRow) : Result QueryRow := do
  let row ← readRow line
  let signature ← signatureOf (queryLanguage row) query.targetOs query.binaryFormat row
  return ⟨row.address.getD "", row.functionName.getD "", signature⟩

/-- The signature of a match, full hash to code size. -/
def Signature.text (s : Signature) : String :=
  s!"{s.fullHash}:{s.specificHash}:{s.additionalSize}:{s.codeSize}"

def QueryRow.text (row : QueryRow) : String := s!"{row.address}:{row.signature.text}"

/-- The exact clause: more identities than one, or none of the query's own route and treatment. -/
def passes (index : Index) (query : Query) (reference : (Signature × String) × OwnerRow) : Bool :=
  query.includeExact || decide (1 < reference.2.identityCount) ||
    !(index.referenceIdentity.entries.any fun row =>
      row.1.signature = reference.1.1 && row.1.owner = reference.1.2 && row.1.routeId = query.routeId &&
        row.1.treatmentId = query.treatmentId)

/-- The rows of the join. -/
def joined (index : Index) (query : Query) (rows : List QueryRow) : List (QueryRow × (Signature × String) × OwnerRow) :=
  rows.flatMap fun row =>
    (index.referenceOwnerSignature.entries.filter fun reference =>
      reference.1.1 = row.signature && passes index query reference).map (row, ·)

/-- The sets of the matches, by owner, and the first example of each. -/
abbrev Matches := Dict String (List String) × Dict String Example

def addMatch (found : Matches) (row : QueryRow × (Signature × String) × OwnerRow) : Matches :=
  let owner := row.2.1.2
  let texts := (found.1.get? owner).getD []
  (found.1.set owner (if row.1.text ∈ texts then texts else texts ++ [row.1.text]),
    found.2.setDefault owner ⟨if row.1.functionName = "" then row.1.address else row.1.functionName,
      row.1.signature.text, owner, row.2.2.evidencePath, row.2.2.functionName⟩)

def queryIndex (index : Index) (query : Query) (lines : Lines) : Result Matches := do
  let rows ← lines.mapM (queryRow query)
  return (joined index query rows).foldl addMatch (.empty, .empty)

end Query

end FidbPoc.Validation.Reference
