import FidbPoc.Corpus.Index
import FidbPoc.Lib.Python
import Mathlib.Data.List.Dedup

namespace FidbPoc.Lookup

open FidbPoc.Lib FidbPoc.Lib.Checked FidbPoc.Corpus

/-- The columns that a lookup selects; `language` is not among them. -/
structure LookupKey where
  scope : String
  fullHash : String
  specificHash : String
  additionalSize : Int
  codeSize : Int
  deriving DecidableEq

def lookupKey (signature : Signature) : LookupKey :=
  ⟨signature.scope, signature.fullHash, signature.specificHash, signature.additionalSize, signature.codeSize⟩

/-- The `BINARY` collation. -/
def collate (a b : String) : Ordering := List.compareLex compare a.toList b.toList

/-- `ORDER BY scope, full_hash, specific_hash, additional_size, code_size`. -/
def LookupKey.order (k k' : LookupKey) : Ordering :=
  (collate k.scope k'.scope).then ((collate k.fullHash k'.fullHash).then ((collate k.specificHash k'.specificHash).then
    ((compare k.additionalSize k'.additionalSize).then (compare k.codeSize k'.codeSize))))

/-- `SELECT DISTINCT scope FROM signature ORDER BY scope`. -/
def scopes (index : Index) : List String :=
  (index.signature.keys.map (·.scope)).dedup.insertionSort fun a b => (collate a b).isLE = true

/-- The signatures that are selected by their id, as keys in order. -/
def selectKeys (index : Index) (selects : Nat → Bool) : List LookupKey :=
  ((index.signature.entries.filter fun e => selects e.2).map fun e => lookupKey e.1).insertionSort
    fun k k' => (k.order k').isLE = true

/-- `reference_sql`. -/
def referenceKeys (index : Index) : List LookupKey :=
  selectKeys index fun id => (index.signatureState.get? id).any fun state => decide (0 < state.distinctOwners)

/-- `query_sql`. -/
def queryKeys (index : Index) (batchId : Nat) : List LookupKey :=
  selectKeys index fun id =>
    (index.signatureBatch.get? (batchId, id)).any fun row => decide (0 < row.queryObservations)

/-- A row of a matrix, seen through `_structured` as one record. -/
structure Row where
  word0 : UInt32
  word1 : UInt32
  word2 : UInt32
  word3 : UInt32
  word4 : UInt32
  word5 : UInt32
  word6 : UInt32
  deriving DecidableEq

def Row.words (row : Row) : List UInt32 :=
  [row.word0, row.word1, row.word2, row.word3, row.word4, row.word5, row.word6]

def Row.order (row row' : Row) : Ordering := List.compareLex compare row.words row'.words

/-- `int(str(value), 16)`. -/
def hashValue (text : String) : Result Int :=
  match Python.intBase16 text with
  | some value => pure value
  | none => .error (valueError "invalid literal for int() with base 16")

def scopeIndex (scopes : List String) (scope : String) : Result Int :=
  if scope ∈ scopes then pure (scopes.idxOf scope) else .error ⟨"KeyError", scope⟩

/-- A Python integer assigned to an element of a `uint32` array. -/
def uint32 (value : Int) : Result UInt32 := do
  require (0 ≤ value ∧ value < 4294967296) ⟨"OverflowError", "Python integer out of bounds for uint32"⟩
  pure (UInt32.ofNat value.toNat)

/-- One iteration of `_matrix`; `/` and `%` stand for the shift and the mask by 32 bits. -/
def packRow (scopes : List String) (k : LookupKey) : Result Row := do
  let full ← hashValue k.fullHash
  let specific ← hashValue k.specificHash
  let scope ← scopeIndex scopes k.scope
  let word0 ← uint32 scope
  let word1 ← uint32 (full / 4294967296)
  let word2 ← uint32 (full % 4294967296)
  let word3 ← uint32 (specific / 4294967296)
  let word4 ← uint32 (specific % 4294967296)
  let word5 ← uint32 k.additionalSize
  let word6 ← uint32 k.codeSize
  pure ⟨word0, word1, word2, word3, word4, word5, word6⟩

/-- `_matrix`. -/
def matrix (keys : List LookupKey) (scopes : List String) : Result (List Row) := keys.mapM (packRow scopes)

/-- `_packed_matrices`, where no packed arrays of the generation are cached. -/
def packedMatrices (index : Index) (batchId : Nat) : Result (List Row × List Row) := do
  let reference ← matrix (referenceKeys index) (scopes index)
  let queries ← matrix (queryKeys index batchId) (scopes index)
  pure (reference, queries)

end FidbPoc.Lookup
