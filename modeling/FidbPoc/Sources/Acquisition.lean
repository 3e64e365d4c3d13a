import FidbPoc.Lib.Checked
import FidbPoc.Lib.Dict
import FidbPoc.Lib.Run
import Mathlib.Algebra.BigOperators.Group.List.Basic
import Mathlib.Algebra.Ring.Nat
import Mathlib.Data.List.Dedup
import Mathlib.Data.List.Sort
import Mathlib.Data.String.Basic
import Mathlib.Logic.Function.Basic

namespace FidbPoc.Sources

open FidbPoc.Lib FidbPoc.Lib.Checked

/-- A raised exception: the name of its type and its message. -/
structure Raised where
  kind : String
  message : String
  deriving DecidableEq

abbrev Result := Except Raised

def valueError (message : String) : Raised := ⟨"ValueError", message⟩

structure Pin where
  rank : Nat
  candidateKey : String
  resolverId : String
  registryKey : String
  version : String
  registryUrl : String
  url : String
  urlRewriteId : String
  sha256 : String
  downloadBytes : Nat
  deriving DecidableEq

inductive Candidate
  | pinned (pin : Pin)
  | unresolved (rank : Nat) (candidateKey : String)
  deriving DecidableEq

namespace Candidate

def rank : Candidate → Nat
  | .pinned pin => pin.rank
  | .unresolved rank _ => rank

def candidateKey : Candidate → String
  | .pinned pin => pin.candidateKey
  | .unresolved _ key => key

def pin? : Candidate → Option Pin
  | .pinned pin => some pin
  | .unresolved _ _ => none

end Candidate

/-- A lock that `load_acquisition_lock` lets through: ranks count the candidates, and keys are distinct. -/
structure Lock where
  acquisitionId : String
  lockSha256 : String
  downloads : String
  maxArchiveBytes : Nat
  candidates : List Candidate
  ranks : candidates.map Candidate.rank = List.range' 1 candidates.length
  keys : (candidates.map Candidate.candidateKey).Nodup

/-- The digest and the length of a content. -/
structure Hashing (γ : Type) where
  sha256 : γ → String
  bytes : γ → Nat

/-- What lies under a digest: nothing, something that is no readable regular file, or a file. -/
inductive Object (γ : Type)
  | missing
  | special
  | file (content : γ)
  deriving DecidableEq

abbrev Cache (γ : Type) := String → Object γ

inductive CacheState
  | missing
  | broken
  | verifiedCached
  deriving DecidableEq

structure Inspection where
  state : CacheState
  bytes : Option Nat
  deriving DecidableEq

structure Summary where
  candidates : Nat
  pinned : Nat
  verifiedCached : Nat
  missingOrBroken : Int
  unresolved : Nat
  uniquePinnedPayloads : Nat
  duplicatePinReferences : Int
  observedCachedBytes : Nat
  uniqueObservedCachedBytes : Nat
  deriving DecidableEq

structure SourceRow where
  rank : Nat
  candidateKey : String
  resolverId : String
  registryKey : String
  version : String
  registryUrl : String
  url : String
  urlRewriteId : String
  sha256 : String
  bytes : Nat
  cachePath : String
  outcome : String
  firstObservedUtc : String
  downloadedUtc : String
  lastVerifiedUtc : String
  deriving DecidableEq

structure Failure where
  candidateKey : String
  errorType : String
  error : String
  observedUtc : String
  deriving DecidableEq

structure Receipt where
  acquisitionId : String
  lockSha256 : String
  createdUtc : String
  updatedUtc : String
  summary : Summary
  sources : List SourceRow
  failures : List Failure
  deriving DecidableEq

section Status

variable {γ : Type} (hashing : Hashing γ) (lock : Lock)

def inspectCached (cache : Cache γ) (expectedSha256 : String) : Inspection :=
  match cache expectedSha256 with
  | .missing => ⟨.missing, none⟩
  | .special => ⟨.broken, none⟩
  | .file content =>
    ⟨if hashing.sha256 content = expectedSha256 then .verifiedCached else .broken, some (hashing.bytes content)⟩

/-- The candidates of a request, in its order; all of them if it names none. -/
def selectRows (requested : List String) : Result (List Candidate) :=
  if requested = [] then pure lock.candidates
  else do
    require requested.Nodup (valueError "duplicate source acquisition candidate id")
    let unknown := (requested.filter fun key => key ∉ lock.candidates.map Candidate.candidateKey).insertionSort (· ≤ ·)
    require (unknown = []) (valueError ("unknown source acquisition candidate: " ++ ", ".intercalate unknown))
    pure (requested.filterMap fun key => lock.candidates.find? fun row => row.candidateKey = key)

def pinsOf (rows : List Candidate) : List Pin := rows.filterMap Candidate.pin?

/-- `{digest: bytes for each row}`, added up. -/
def sumByDigest (rows : List (String × Nat)) : Nat := (Dict.ofList rows).values.sum

def acquisitionStatus (cache : Cache γ) (rows : List Candidate) : Summary :=
  let pins := pinsOf rows
  let inspect := fun pin : Pin => inspectCached hashing cache pin.sha256
  let cached := pins.filter fun pin => (inspect pin).state = .verifiedCached
  let digests := (pins.map Pin.sha256).dedup
  { candidates := rows.length
    pinned := pins.length
    verifiedCached := cached.length
    missingOrBroken := (pins.length : Int) - cached.length
    unresolved := rows.length - pins.length
    uniquePinnedPayloads := digests.length
    duplicatePinReferences := (pins.length : Int) - digests.length
    observedCachedBytes := (pins.map fun pin => (inspect pin).bytes.getD 0).sum
    uniqueObservedCachedBytes := sumByDigest (cached.map fun pin => (pin.sha256, (inspect pin).bytes.getD 0)) }

end Status

section Acquiring

variable {γ : Type} (hashing : Hashing γ) (lock : Lock)

inductive Response (γ : Type)
  | failed
  | received (content : γ)

def acquisitionAttempts : Nat := 4

/-- The attempts at a download: what is too large is tried again, what has another digest is given up. -/
def download (url expectedSha256 : String) : List (Response γ) → Result γ
  | [] => .error ⟨"CacheError", s!"failed to acquire reviewed payload after {acquisitionAttempts} attempts: " ++ url⟩
  | .failed :: rest => download url expectedSha256 rest
  | .received content :: rest =>
    if lock.maxArchiveBytes < hashing.bytes content then download url expectedSha256 rest
    else if hashing.sha256 content = expectedSha256 then .ok content
    else .error ⟨"CacheIntegrityError", "downloaded payload digest does not match reviewed SHA-256: expected " ++
      expectedSha256 ++ ", observed " ++ hashing.sha256 content⟩

structure Acquired where
  bytes : Nat
  cacheHit : Bool
  deriving DecidableEq

/-- What a worker meets: the cache cannot be locked or written, or the responses of its attempts. -/
inductive Fetch (γ : Type)
  | unavailable (error : Raised)
  | responses (list : List (Response γ))

def Fetch.Delivers (content : γ) : Fetch γ → Prop
  | .unavailable _ => False
  | .responses list => .received content ∈ list

def acquirePinned (cache : Cache γ) (pin : Pin) : Fetch γ → Cache γ × Result Acquired
  | .unavailable error => (cache, .error error)
  | .responses list =>
    let cached := inspectCached hashing cache pin.sha256
    if cached.state = .verifiedCached then (cache, .ok ⟨cached.bytes.getD 0, true⟩)
    else
      match download hashing lock pin.url pin.sha256 (list.take acquisitionAttempts) with
      | .error error => (Function.update cache pin.sha256 .missing, .error error)
      | .ok content => (Function.update cache pin.sha256 (.file content), .ok ⟨hashing.bytes content, false⟩)

/-- The closure that the executor runs: the size of the lock is checked after the payload is in the cache. -/
def acquire (cache : Cache γ) (pin : Pin) (fetch : Fetch γ) : Cache γ × Result Acquired :=
  let (cache, result) := acquirePinned hashing lock cache pin fetch
  (cache, do
    let acquired ← result
    require (pin.downloadBytes = 0 ∨ acquired.bytes = pin.downloadBytes)
      (valueError s!"pinned size mismatch: expected {pin.downloadBytes}, observed {acquired.bytes}")
    pure acquired)

end Acquiring

structure Pulling where
  rows : List Candidate
  before : Summary
  createdUtc : String
  historicalFailures : List Failure
  failures : List Failure
  receiptRecords : Dict String SourceRow
  waiting : List Pin
  resolved : List (Pin × Result Acquired)

section Pulls

variable {γ : Type} (hashing : Hashing γ) (lock : Lock)

def cachePath (pin : Pin) : String := lock.downloads ++ "/" ++ pin.sha256

def sourceRow (pin : Pin) (bytes : Nat) (outcome firstObserved downloaded lastVerified : String) : SourceRow where
  rank := pin.rank
  candidateKey := pin.candidateKey
  resolverId := pin.resolverId
  registryKey := pin.registryKey
  version := pin.version
  registryUrl := pin.registryUrl
  url := pin.url
  urlRewriteId := pin.urlRewriteId
  sha256 := pin.sha256
  bytes := bytes
  cachePath := cachePath lock pin
  outcome := outcome
  firstObservedUtc := firstObserved
  downloadedUtc := downloaded
  lastVerifiedUtc := lastVerified

def renderReceipt (summary : Summary) (failures : List Failure) (records : List SourceRow) (createdUtc now : String) :
    Receipt where
  acquisitionId := lock.acquisitionId
  lockSha256 := lock.lockSha256
  createdUtc := createdUtc
  updatedUtc := now
  summary := summary
  sources := records.insertionSort fun row row' => row.rank ≤ row'.rank
  failures := failures

def existingReceipt (receipt : Option Receipt) (now : String) : Result (String × Dict String SourceRow × List Failure) :=
  match receipt with
  | none => pure (now, .empty, [])
  | some document => do
    require (document.lockSha256 = lock.lockSha256) (valueError "source acquisition receipt authority differs")
    pure (document.createdUtc, .ofList (document.sources.map fun row => (row.candidateKey, row)), document.failures)

def refreshedRow (cache : Cache γ) (startedUtc : String) (existing : Option SourceRow) (pin : Pin) : SourceRow :=
  sourceRow lock pin ((inspectCached hashing cache pin.sha256).bytes.getD 0)
    ((existing.map SourceRow.outcome).getD "pre-existing-verified-cache")
    ((existing.map SourceRow.firstObservedUtc).getD startedUtc) ((existing.map SourceRow.downloadedUtc).getD "") startedUtc

/-- The record of a pin whose object is there when the pull starts. -/
def refreshRecord (cache : Cache γ) (startedUtc : String) (records : Dict String SourceRow) (pin : Pin) :
    Dict String SourceRow :=
  records.set pin.candidateKey (refreshedRow hashing lock cache startedUtc (records.get? pin.candidateKey) pin)

def writeReceipt (pull : Pulling) (summary : Summary) (now : String) : Receipt :=
  renderReceipt lock summary (pull.historicalFailures ++ pull.failures) pull.receiptRecords.values pull.createdUtc now

/-- A pull up to its first receipt, which nothing is written before. -/
def startPull (cache : Cache γ) (receipt : Option Receipt) (requested : List String) (workers : Int)
    (now startedUtc : String) : Result Pulling := do
  let rows ← selectRows lock requested
  require (1 ≤ workers ∧ workers ≤ 32) (valueError "source acquisition workers must be between 1 and 32")
  let isCached := fun pin : Pin => (inspectCached hashing cache pin.sha256).state = .verifiedCached
  let (createdUtc, records, historical) ← existingReceipt lock receipt now
  pure {
    rows := rows
    before := acquisitionStatus hashing cache rows
    createdUtc := createdUtc
    historicalFailures := historical
    failures := []
    receiptRecords := ((pinsOf rows).filter isCached).foldl (refreshRecord hashing lock cache startedUtc) records
    waiting := (pinsOf rows).filter fun pin => ¬isCached pin
    resolved := [] }

def acquiredRow (observedUtc : String) (existing : Option SourceRow) (pin : Pin) (acquired : Acquired) : SourceRow :=
  let downloaded := (existing.map SourceRow.downloadedUtc).getD ""
  sourceRow lock pin acquired.bytes (if acquired.cacheHit then "cached" else "downloaded")
    ((existing.map SourceRow.firstObservedUtc).getD observedUtc)
    (if downloaded ≠ "" then downloaded else if acquired.cacheHit then "" else observedUtc) observedUtc

/-- What the main thread records of a finished future. -/
def completeRow (pull : Pulling) (pin : Pin) (result : Result Acquired) (observedUtc : String) : Pulling :=
  match result with
  | .ok acquired =>
    let row := acquiredRow lock observedUtc (pull.receiptRecords.get? pin.candidateKey) pin acquired
    { pull with receiptRecords := pull.receiptRecords.set pin.candidateKey row }
  | .error error =>
    { pull with failures := pull.failures ++ [⟨pin.candidateKey, error.kind, error.message, observedUtc⟩] }

def interimSummary (pull : Pulling) : Summary :=
  let records := pull.receiptRecords.values
  { pull.before with
    verifiedCached := records.length
    missingOrBroken := (pull.before.pinned : Int) - records.length
    observedCachedBytes := (records.map SourceRow.bytes).sum
    uniqueObservedCachedBytes := sumByDigest (records.map fun row => (row.sha256, row.bytes)) }

structure System (γ : Type) where
  cache : Cache γ
  receipt : Option Receipt
  pull : Option Pulling

inductive Op (γ : Type)
  | start (requested : List String) (workers : Int) (now startedUtc updatedUtc : String)
  | acquire (pin : Pin) (fetch : Fetch γ)
  | complete (pin : Pin) (observedUtc updatedUtc : String)
  | finish (updatedUtc : String)
  | change (cache : Cache γ)
  | interrupt

/-- One pull at a time, its downloads and their completions in any order; between pulls the cache may become any other. -/
inductive Next : System γ → Op γ → System γ → Prop
  | start {cache : Cache γ} {receipt : Option Receipt} {requested : List String} {workers : Int}
      {now startedUtc updatedUtc : String} {pull : Pulling}
      (h : startPull hashing lock cache receipt requested workers now startedUtc = .ok pull) :
      Next ⟨cache, receipt, none⟩ (.start requested workers now startedUtc updatedUtc)
        ⟨cache, some (writeReceipt lock pull pull.before updatedUtc), some pull⟩
  | refuse {cache : Cache γ} {receipt : Option Receipt} {requested : List String} {workers : Int}
      {now startedUtc updatedUtc : String} {error : Raised}
      (h : startPull hashing lock cache receipt requested workers now startedUtc = .error error) :
      Next ⟨cache, receipt, none⟩ (.start requested workers now startedUtc updatedUtc) ⟨cache, receipt, none⟩
  | acquire {cache : Cache γ} {receipt : Option Receipt} {pull : Pulling} {earlier later : List Pin} {pin : Pin}
      {fetch : Fetch γ} (h : pull.waiting = earlier ++ pin :: later) :
      Next ⟨cache, receipt, some pull⟩ (.acquire pin fetch)
        ⟨(acquire hashing lock cache pin fetch).1, receipt, some { pull with
          waiting := earlier ++ later
          resolved := (pin, (acquire hashing lock cache pin fetch).2) :: pull.resolved }⟩
  | complete {cache : Cache γ} {receipt : Option Receipt} {pull : Pulling} {earlier later : List (Pin × Result Acquired)}
      {pin : Pin} {result : Result Acquired} {observedUtc updatedUtc : String} {completed : Pulling}
      (h : pull.resolved = earlier ++ (pin, result) :: later)
      (hcompleted : completed = completeRow lock { pull with resolved := earlier ++ later } pin result observedUtc) :
      Next ⟨cache, receipt, some pull⟩ (.complete pin observedUtc updatedUtc)
        ⟨cache, some (writeReceipt lock completed (interimSummary completed) updatedUtc), some completed⟩
  | finish {cache : Cache γ} {receipt : Option Receipt} {pull : Pulling} {updatedUtc : String}
      (hwaiting : pull.waiting = []) (hresolved : pull.resolved = []) :
      Next ⟨cache, receipt, some pull⟩ (.finish updatedUtc)
        ⟨cache, some (writeReceipt lock pull (acquisitionStatus hashing cache pull.rows) updatedUtc), none⟩
  | change {cache cache' : Cache γ} {receipt : Option Receipt} :
      Next ⟨cache, receipt, none⟩ (.change cache') ⟨cache', receipt, none⟩
  | interrupt {cache : Cache γ} {receipt : Option Receipt} {pull : Pulling} :
      Next ⟨cache, receipt, some pull⟩ .interrupt ⟨cache, receipt, none⟩

end Pulls

end FidbPoc.Sources
