import FidbPoc.Lib.Toml
import FidbPoc.Lib.Dict
import FidbPoc.Lib.Checked
import Mathlib.Algebra.Order.Ring.Nat
import Mathlib.Data.List.Sort

namespace FidbPoc.Noise

open FidbPoc.Lib FidbPoc.Lib.Checked FidbPoc.Lib.Toml

inductive Raised
  | valueError (message : Text)
  | tomlDecodeError
  | unicodeEncodeError
  deriving DecidableEq

/-- The parts of a path below the project root. -/
abbrev Path := List Text

/-- The regular files of the project. -/
abbrev Files := Dict Path Text

/-- `NOISY_HASH_DECISION_SCHEMA` -/
def decisionSchema : Text := text "fidb-noisy-hash-decision/v1"

/-- The only `allowed_states` that `load_noisy_hash_authority` accepts. -/
def allowedStates : List Text :=
  [text "observe", text "quarantine", text "reviewed-shared", text "cleared"]

/-- `str.isspace` of one character. -/
def isSpace (c : CodePoint) : Bool :=
  let n := c.val
  (9 ≤ n && n ≤ 13) || (28 ≤ n && n ≤ 32) || n = 0x85 || n = 0xA0 || n = 0x1680 || (0x2000 ≤ n && n ≤ 0x200A) ||
    n = 0x2028 || n = 0x2029 || n = 0x202F || n = 0x205F || n = 0x3000

/-- `value.strip()` -/
def strip (value : Text) : Text := ((value.dropWhile isSpace).reverse.dropWhile isSpace).reverse

def isHex (c : CodePoint) : Bool := (48 ≤ c.val && c.val ≤ 57) || (97 ≤ c.val && c.val ≤ 102)

/-- `_SIGNATURE_ID.fullmatch(value)` -/
def isSignatureId (value : Text) : Bool :=
  decide (value.take 6 = text "noise-") && decide (value.length = 30) && (value.drop 6).all isHex

/-- What the rest of the project supplies: where it lies, the files that `decision_glob` selects, what `tomllib` does
beyond keys with basic strings, and the hex digest of an encoded text. -/
structure Settings where
  root : Text
  selected : Path → Bool
  loadsOther : Text → Option Fields
  sha256 : Text → Text

/-- The string that a document has under a key. -/
def stringAt (document : Fields) (key : String) : Option Text :=
  match document.get? (text key) with
  | some (.str value) => some value
  | _ => none

/-- The check of `_decision_files`. -/
def isDecision (document : Fields) : Bool :=
  decide (stringAt document "schema_version" = some decisionSchema) &&
    (stringAt document "signature_id").any isSignatureId &&
    (stringAt document "state").any (fun state => decide (state ∈ allowedStates)) &&
    (stringAt document "reason").any (fun reason => decide (strip reason ≠ []))

/-- `{**document, "path": path}` -/
structure Decision where
  document : Fields
  path : Path

/-- The order of paths: part by part. -/
def precedes : List Nat → List Nat → Bool
  | [], _ => true
  | _ :: _, [] => false
  | a :: as, b :: bs => a < b || a = b && precedes as bs

def orderKey (path : Path) : List Nat := path.flatMap fun part => part.map (fun c => c.val + 1) ++ [0]

def joined (path : Path) : Text := path.flatMap fun part => ofChar '/' :: part

/-- One iteration of `_decision_files`. -/
def addDecision (settings : Settings) (decisions : Dict Text Decision) (file : Path × Text) :
    Except Raised (Dict Text Decision) :=
  match loads settings.loadsOther file.2 with
  | none => .error .tomlDecodeError
  | some document => do
    require (isDecision document = true)
      (.valueError (text "invalid noisy-hash decision: " ++ settings.root ++ joined file.1))
    return decisions.set ((stringAt document "signature_id").getD []) ⟨document, file.1⟩

def sortedGlob (settings : Settings) (files : Files) : List (Path × Text) :=
  (files.entries.filter fun file => settings.selected file.1).insertionSort
    fun a b => precedes (orderKey a.1) (orderKey b.1) = true

def decisionFiles (settings : Settings) (files : Files) : Except Raised (Dict Text Decision) :=
  (sortedGlob settings files).foldlM (addDecision settings) Dict.empty

/-- The fields of a ledger row that a decision is made from. -/
structure Row where
  signatureId : Text
  scope : Text
  signature : Text
  decision : Option Decision

/-- The groups of `(scope, signature)` that the evidence has, and the rest of the digested body. -/
structure Evidence where
  groups : List (Text × Text)
  body : List Row → Text

structure Status where
  hashes : List Row
  statusDigest : Text

/-- The row of one group. `encode` refuses a surrogate. -/
def ledgerRow (settings : Settings) (decisions : Dict Text Decision) (group : Text × Text) : Except Raised Row := do
  let identity := group.1 ++ ofChar '\x00' :: group.2
  require (identity.all (fun c => decide (¬ IsSurrogate c)) = true) .unicodeEncodeError
  let signatureId := text "noise-" ++ (settings.sha256 identity).take 24
  return ⟨signatureId, group.1, group.2, decisions.get? signatureId⟩

def compileNoisyHashes (settings : Settings) (evidence : Evidence) (files : Files) : Except Raised Status := do
  let decisions ← decisionFiles settings files
  let hashes ← evidence.groups.mapM (ledgerRow settings decisions)
  return ⟨hashes, settings.sha256 (evidence.body hashes)⟩

/-- A UTC time. -/
structure Moment where
  year : Nat
  month : Nat
  day : Nat
  hour : Nat
  minute : Nat
  second : Nat
  microsecond : Nat

/-- `n` with the given number of decimal digits. -/
def padded (width n : Nat) : Text :=
  (List.range width).reverse.map fun i => ofChar (Nat.digitChar (n / 10 ^ i % 10))

def Moment.isoformat (now : Moment) : Text :=
  padded 4 now.year ++ text "-" ++ padded 2 now.month ++ text "-" ++ padded 2 now.day ++ text "T" ++
    padded 2 now.hour ++ text ":" ++ padded 2 now.minute ++ text ":" ++ padded 2 now.second ++
    (if now.microsecond = 0 then [] else text "." ++ padded 6 now.microsecond) ++ text "+00:00"

structure Request where
  signatureId : Text
  state : Text
  reason : Text
  reviewedBy : Text

/-- The document that `save_noisy_hash_decision` writes. -/
structure Document where
  signatureId : Text
  scope : Text
  signature : Text
  state : Text
  reason : Text
  reviewedBy : Text
  reviewedAt : Text
  sourceStatusDigest : Text

def Document.pairs (document : Document) : List (Text × Text) :=
  [(text "schema_version", decisionSchema), (text "signature_id", document.signatureId),
    (text "scope", document.scope), (text "signature", document.signature), (text "state", document.state),
    (text "reason", document.reason), (text "reviewed_by", document.reviewedBy),
    (text "reviewed_at", document.reviewedAt), (text "source_status_digest", document.sourceStatusDigest)]

def Document.rendered (document : Document) : Text := renderPairs document.pairs

def Document.fields (document : Document) : Fields := document.pairs.map fun pair => (pair.1, .str pair.2)

def destination (signatureId : Text) : Path :=
  [text "validation", text "noisy-hash-decisions", signatureId ++ text ".toml"]

/-- `save_noisy_hash_decision` up to the file that it writes. -/
def writeDecision (settings : Settings) (evidence : Evidence) (files : Files) (request : Request) (now : Moment) :
    Except Raised (Document × Files) := do
  let status ← compileNoisyHashes settings evidence files
  match status.hashes.filter fun row => decide (row.signatureId = request.signatureId) with
  | [row] => do
    require (request.state ∈ allowedStates) (.valueError (text "unsupported noisy-hash disposition"))
    require (strip request.reason ≠ [] ∧ request.reason.length ≤ 500)
      (.valueError (text "decision reason must contain 1-500 characters"))
    require (strip request.reviewedBy ≠ [] ∧ request.reviewedBy.length ≤ 100)
      (.valueError (text "reviewed_by must contain 1-100 characters"))
    let document : Document :=
      ⟨request.signatureId, row.scope, row.signature, request.state, strip request.reason, strip request.reviewedBy,
        now.isoformat, status.statusDigest⟩
    return (document, files.set (destination request.signatureId) document.rendered)
  | _ => .error (.valueError (text "signature_id is not present in the current noisy-hash ledger"))

/-- The files that `save_noisy_hash_decision` leaves, and what its own last reading of them returns or raises. -/
def saveNoisyHashDecision (settings : Settings) (evidence : Evidence) (files : Files) (request : Request)
    (now : Moment) : Except Raised (Files × Except Raised Status) := do
  let written ← writeDecision settings evidence files request now
  return (written.2, compileNoisyHashes settings evidence written.2)

end FidbPoc.Noise
