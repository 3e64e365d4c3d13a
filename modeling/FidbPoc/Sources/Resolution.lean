import FidbPoc.Lib.Checked
import FidbPoc.Lib.Patterns
import FidbPoc.Lib.TomlWriter

namespace FidbPoc.Sources.Resolution

open FidbPoc.Lib FidbPoc.Lib.Checked FidbPoc.Lib.Toml FidbPoc.Lib.TomlTables FidbPoc.Lib.TomlWriter

inductive Fault
  | decode
  | fields (label : String) (missing extra : List Text)
  | value (message : String)
  | candidate (key : Text) (problem : String)
  | key (name : Text)
  | type (message : String)
  deriving DecidableEq

abbrev Result := Except Fault

section Texts

def isHex (c : CodePoint) : Bool := (48 ≤ c.val && c.val ≤ 57) || (97 ≤ c.val && c.val ≤ 102)

/-- `^[0-9a-f]{64}$` -/
def isDigest (value : Text) : Bool := decide (value.length = 64) && value.all isHex

def isTokenStart (c : CodePoint) : Bool := (97 ≤ c.val && c.val ≤ 122) || (48 ≤ c.val && c.val ≤ 57)

def isTokenChar (c : CodePoint) : Bool := isTokenStart c || c = 46 || c = 95 || c = 43 || c = 45

/-- `^[a-z0-9][a-z0-9._+-]*$` -/
def isToken (value : Text) : Bool := value.head?.any isTokenStart && value.all isTokenChar

/-- `not value.strip()` -/
def isBlank (value : Text) : Bool := value.all fun c => Patterns.isSpace (toChar c)

theorem plain_of_small {value : Text} (h : ∀ c ∈ value, c.val < 0xD800) : Plain value := by
  intro c hc
  have hlt := h c hc
  exact ⟨fun hs => absurd hs.1 (by omega), by omega⟩

theorem plain_of_isDigest {value : Text} (h : isDigest value = true) : Plain value := by
  refine plain_of_small fun c hc => ?_
  have hhex := List.all_eq_true.mp (Bool.and_eq_true_iff.mp h).2 c hc
  simp only [isHex, Bool.or_eq_true, Bool.and_eq_true, decide_eq_true_eq] at hhex
  omega

theorem plain_of_isToken {value : Text} (h : isToken value = true) : Plain value := by
  refine plain_of_small fun c hc => ?_
  have hchar := List.all_eq_true.mp (Bool.and_eq_true_iff.mp h).2 c hc
  simp only [isTokenChar, isTokenStart, Bool.or_eq_true, Bool.and_eq_true, decide_eq_true_eq] at hchar
  rcases hchar with ((((hchar | hchar) | rfl) | rfl) | rfl) | rfl
  · omega
  · omega
  all_goals decide

theorem plain_natText (n : Nat) : Plain (natText n) := plain_of_small fun c hc => by
  have hdigit := natText_digits c hc
  omega

end Texts

structure Resolver where
  id : Text
  kind : Text
  url : Text
  deriving DecidableEq

structure Alias where
  resolverId : Text
  candidateKey : Text
  registryKey : Text

structure Preference where
  candidateKey : Text
  resolverId : Text

structure Rewrite where
  id : Text
  resolverId : Text
  matchPrefix : Text
  replacementPrefix : Text

structure Declaration where
  candidateKey : Text
  classification : Text
  reason : Text

/-- What `load_acquisition` returns: the document it has checked, its resolvers in the order of their priorities. -/
structure Acquisition where
  id : Text
  label : Text
  candidateAuthority : Text
  candidateAuthoritySha256 : Text
  resolvers : List Resolver
  aliases : List Alias
  preferences : List Preference
  rewrites : List Rewrite
  declarations : List Declaration
  id_token : isToken id = true
  authority_digest : isDigest candidateAuthoritySha256 = true
  resolvers_some : resolvers ≠ []
  resolvers_nodup : (resolvers.map Resolver.id).Nodup
  resolvers_tokens : ∀ resolver ∈ resolvers, isToken resolver.id = true
  aliases_nodup : (aliases.map fun row => (row.resolverId, row.candidateKey)).Nodup
  preferences_nodup : (preferences.map Preference.candidateKey).Nodup
  rewrites_tokens : ∀ row ∈ rewrites, isToken row.id = true
  declarations_nodup : (declarations.map Declaration.candidateKey).Nodup

/-- A row of a registry, as a snapshot's parser builds it, of a size that is not negative. -/
structure Record where
  registryKey : Text
  version : Text
  releasePage : Text
  url : Text
  sha256 : Text
  downloadBytes : Nat
  filename : Text
  metadataAlias : Bool
  digest : isDigest sha256 = true

/-- A snapshot with the records that its file holds under each name. -/
structure Snapshot where
  resolverId : Text
  kind : Text
  url : Text
  sha256 : Text
  bytes : Nat
  records : Text → List Record

/-- What `_load_metadata_state` lets through. -/
structure MetadataState (acquisition : Acquisition) where
  snapshots : List Snapshot
  complete : snapshots.length = acquisition.resolvers.length
  known : ∀ row ∈ snapshots, ⟨row.resolverId, row.kind, row.url⟩ ∈ acquisition.resolvers
  digests : ∀ row ∈ snapshots, isDigest row.sha256 = true

structure Candidate where
  candidateKey : Text
  displayName : Text
  deriving DecidableEq

structure Pin where
  resolverId : Text
  registryKey : Text
  matchKind : Text
  version : Text
  releasePage : Text
  registryUrl : Text
  url : Text
  urlRewriteId : Text
  sha256 : Text
  downloadBytes : Nat
  filename : Text
  deriving DecidableEq

inductive Outcome
  | pinned (pin : Pin)
  | unresolved (reason : Text)
  deriving DecidableEq

structure Row where
  rank : Nat
  candidate : Candidate
  outcome : Outcome
  deriving DecidableEq

section Resolve

variable (acquisition : Acquisition)

/-- `records[resolver_id]`, the last snapshot of a resolver. -/
def recordsOf (state : MetadataState acquisition) (resolverId : Text) : Option (Text → List Record) :=
  (state.snapshots.reverse.find? fun row => row.resolverId = resolverId).map Snapshot.records

def aliasOf (resolverId key : Text) : Option Alias :=
  acquisition.aliases.find? fun row => row.resolverId = resolverId ∧ row.candidateKey = key

def matchKind (found : Option Alias) (record : Record) : Text :=
  if found.isSome then text "declared-alias" else if record.metadataAlias then text "registry-alias" else text "exact"

def matchingRewrites (resolverId registryUrl : Text) : List Rewrite :=
  acquisition.rewrites.filter fun row => row.resolverId = resolverId ∧ row.matchPrefix <+: registryUrl

def pinOf (resolverId matchKind sourceUrl rewriteId : Text) (record : Record) : Pin :=
  { resolverId, registryKey := record.registryKey, matchKind, version := record.version, releasePage := record.releasePage
    registryUrl := record.url, url := sourceUrl, urlRewriteId := rewriteId, sha256 := record.sha256
    downloadBytes := record.downloadBytes, filename := record.filename }

/-- The one record of a resolver: pinned, unless two rewrites apply to its URL. -/
def selectRecord (resolverId registryKey : Text) (found : Option Alias) (record : Record) : Outcome :=
  match matchingRewrites acquisition resolverId record.url with
  | [] => .pinned (pinOf resolverId (matchKind found record) record.url (text "none") record)
  | [rewrite] =>
    .pinned (pinOf resolverId (matchKind found record)
      (rewrite.replacementPrefix ++ record.url.drop rewrite.matchPrefix.length) rewrite.id record)
  | _ => .unresolved (text "ambiguous URL rewrite for " ++ resolverId ++ text ":" ++ registryKey)

def declaredReason (key : Text) : Text :=
  match acquisition.declarations.find? fun row => row.candidateKey = key with
  | some row => row.classification ++ text ": " ++ row.reason
  | none => text "no unique checksum-pinned source resolved"

/-- The loop over the resolvers, which the first with any record of the key ends. -/
def selectSource (state : MetadataState acquisition) (key : Text) : List Resolver → Result Outcome
  | [] => .ok (.unresolved (declaredReason acquisition key))
  | resolver :: rest =>
    match recordsOf acquisition state resolver.id with
    | none => .error (.key resolver.id)
    | some records =>
      let found := aliasOf acquisition resolver.id key
      let registryKey := (found.map Alias.registryKey).getD key
      match records registryKey with
      | [] => selectSource state key rest
      | [record] => .ok (selectRecord acquisition resolver.id registryKey found record)
      | found => .ok (.unresolved
          (text "ambiguous " ++ resolver.id ++ text " mapping for " ++ registryKey ++ text ": " ++ natText found.length ++
            text " records"))

/-- `resolvers.sort(key=lambda row: row["id"] != preferred)`, a stable sort. -/
def orderedResolvers (key : Text) : List Resolver :=
  match acquisition.preferences.find? fun row => row.candidateKey = key with
  | some row =>
    if row.resolverId = [] then acquisition.resolvers
    else (acquisition.resolvers.filter fun r => r.id = row.resolverId) ++
      acquisition.resolvers.filter fun r => r.id ≠ row.resolverId
  | none => acquisition.resolvers

def resolveCandidate (state : MetadataState acquisition) (candidate : Candidate) : Result Outcome :=
  selectSource acquisition state candidate.candidateKey (orderedResolvers acquisition candidate.candidateKey)

/-- The rows of `resolve_acquisition`; the loaders give the candidates the ranks 1, 2, ... -/
def resolveRows (state : MetadataState acquisition) (candidates : List Candidate) : Result (List Row) :=
  candidates.zipIdx.mapM fun ranked => do
    let outcome ← resolveCandidate acquisition state ranked.1
    pure ⟨ranked.2 + 1, ranked.1, outcome⟩

end Resolve

section Render

variable {ν : Type}

def lockSchema : Text := text "fidb-source-acquisition-lock/v1"

def resolutionAlgorithm : Text := text "ordered-source-preference-and-mirror-v2"

def rootFields (acquisition : Acquisition) : Fields ν :=
  [(text "schema_version", .str lockSchema), (text "id", .str acquisition.id), (text "label", .str acquisition.label),
    (text "candidate_authority", .str acquisition.candidateAuthority),
    (text "candidate_authority_sha256", .str acquisition.candidateAuthoritySha256),
    (text "resolution_algorithm", .str resolutionAlgorithm)]

def Snapshot.fields (row : Snapshot) : Fields ν :=
  [(text "resolver_id", .str row.resolverId), (text "kind", .str row.kind), (text "url", .str row.url),
    (text "sha256", .str row.sha256), (text "bytes", .int row.bytes)]

def Pin.fields (pin : Pin) : Fields ν :=
  [(text "resolver_id", .str pin.resolverId), (text "registry_key", .str pin.registryKey),
    (text "match_kind", .str pin.matchKind), (text "version", .str pin.version),
    (text "release_page", .str pin.releasePage), (text "registry_url", .str pin.registryUrl), (text "url", .str pin.url),
    (text "url_rewrite_id", .str pin.urlRewriteId), (text "sha256", .str pin.sha256),
    (text "download_bytes", .int pin.downloadBytes), (text "filename", .str pin.filename)]

def Outcome.status : Outcome → Text
  | .pinned _ => text "pinned"
  | .unresolved _ => text "unresolved"

def Outcome.fields : Outcome → Fields ν
  | .pinned pin => pin.fields
  | .unresolved reason => [(text "reason", .str reason)]

def Row.fields (row : Row) : Fields ν :=
  [(text "rank", .int row.rank), (text "candidate_key", .str row.candidate.candidateKey),
    (text "display_name", .str row.candidate.displayName), (text "status", .str row.outcome.status)] ++ row.outcome.fields

def lockSections (snapshots : List Snapshot) (rows : List Row) : List (Section ν) :=
  snapshots.map (fun row => (Header.element (text "metadata_snapshot"), row.fields)) ++
    rows.map fun row => (Header.element (text "candidate"), row.fields)

/-- `_render_lock`. -/
def renderLock (floats : FloatFormat ν) (acquisition : Acquisition) (snapshots : List Snapshot) (rows : List Row) : Text :=
  writeDocument (ascii floats) (rootFields acquisition) (lockSections snapshots rows)

end Render

section Load

variable {ν : Type} (https : Text → Bool) (acquisition : Acquisition) (candidates : List Candidate)

def lockFields : List Text :=
  ["schema_version", "id", "label", "candidate_authority", "candidate_authority_sha256", "resolution_algorithm",
    "metadata_snapshot", "candidate"].map text

def snapshotFields : List Text := ["resolver_id", "kind", "url", "sha256", "bytes"].map text

def lockCommonFields : List Text := ["rank", "candidate_key", "display_name", "status"].map text

def lockPinFields : List Text :=
  lockCommonFields ++ ["resolver_id", "registry_key", "match_kind", "version", "release_page", "registry_url", "url",
    "url_rewrite_id", "sha256", "download_bytes", "filename"].map text

def lockUnresolvedFields : List Text := lockCommonFields ++ [text "reason"]

/-- `_fields`. -/
def checkFields (present expected : List Text) (label : String) : Result Unit :=
  require ((∀ key ∈ expected, key ∈ present) ∧ ∀ key ∈ present, key ∈ expected)
    (.fields label (expected.filter fun key => key ∉ present) (present.filter fun key => key ∉ expected))

def documentKeys (document : Document ν) : List Text :=
  document.root.map Prod.fst ++ document.tables.entries.map Prod.fst ++ document.arrays.entries.map Prod.fst

/-- Whether a field is a text, and this one. -/
def isStr (fields : Fields ν) (key : String) (value : Text) : Bool :=
  match fields.lookup (text key) with
  | some (.str found) => decide (found = value)
  | _ => false

/-- The `str()` of a field, of any value but a list. -/
def shown (fields : Fields ν) (key : String) : Option Text :=
  match fields.lookup (text key) with
  | some (.str found) => some found
  | some (.int n) => some (natText n)
  | _ => none

def checkSnapshot (fields : Fields ν) : Result Unit := do
  checkFields (fields.map Prod.fst) snapshotFields "source acquisition lock snapshot"
  require ((shown fields "sha256").any isDigest) (.value "source acquisition lock snapshot digest is invalid")
  require ((acquisition.resolvers.find? fun r => shown fields "resolver_id" = some r.id).any fun r =>
      isStr fields "kind" r.kind && isStr fields "url" r.url)
    (.value "source acquisition lock snapshot authority differs")

def checkPin (key : Text) (fields : Fields ν) : Result Unit := do
  require ((shown fields "sha256").any isDigest) (.candidate key "digest is invalid")
  require ((shown fields "url").any https) (.candidate key "URL must be an HTTPS URL without credentials")
  require ((shown fields "release_page").any https) (.candidate key "release page must be an HTTPS URL without credentials")
  match fields.lookup (text "download_bytes") with
  | some (.int _) => pure ()
  | _ => .error (.candidate key "size is invalid")

def checkRank (fields : Fields ν) (expected : Nat) : Result Unit :=
  match fields.lookup (text "rank") with
  | some (.int n) => require (n = expected) (.value "source acquisition lock ranks or keys are invalid")
  | _ => .error (.type "rank is no integer")

/-- One row of the loop over the candidates; `seen` are the keys before it. -/
def checkCandidate (seen : List Text) (row : (Fields ν × Candidate) × Nat) : Result (List Text) := do
  let fields := row.1.1
  checkFields (fields.map Prod.fst)
    (if isStr fields "status" (text "pinned") then lockPinFields else lockUnresolvedFields) "source acquisition lock candidate"
  checkRank fields (row.2 + 1)
  require (shown fields "candidate_key" = some row.1.2.candidateKey ∧ isStr fields "display_name" row.1.2.displayName ∧
      row.1.2.candidateKey ∉ seen) (.value "source acquisition lock ranks or keys are invalid")
  if isStr fields "status" (text "pinned") then checkPin https row.1.2.candidateKey fields
  else
    require (isStr fields "status" (text "unresolved") ∧ (shown fields "reason").any fun reason => !isBlank reason)
      (.candidate row.1.2.candidateKey "state is invalid")
  pure (seen ++ [row.1.2.candidateKey])

/-- The checks of `load_acquisition_lock`. -/
def checkLock (document : Document ν) : Result Unit := do
  checkFields (documentKeys document) lockFields "source acquisition lock"
  require (isStr document.root "schema_version" lockSchema ∧ isStr document.root "id" acquisition.id ∧
      isStr document.root "candidate_authority" acquisition.candidateAuthority ∧
      isStr document.root "candidate_authority_sha256" acquisition.candidateAuthoritySha256 ∧
      isStr document.root "resolution_algorithm" resolutionAlgorithm)
    (.value "source acquisition lock authority differs")
  match document.arrays.get? (text "metadata_snapshot"), document.arrays.get? (text "candidate") with
  | some snapshots, some rows =>
    require (snapshots.length = acquisition.resolvers.length) (.value "source acquisition lock snapshot set is incomplete")
    let _ ← snapshots.mapM (checkSnapshot acquisition)
    require (rows ≠ []) (.value "source acquisition lock has no candidates")
    require (rows.length = candidates.length) (.value "source acquisition lock candidate set is incomplete")
    let _ ← (rows.zip candidates).zipIdx.foldlM (checkCandidate https) []
    pure ()
  | _, _ => .error (.type "lock tables are no arrays")

variable (floats : FloatFormat ν) (loadsOther : Text → Option (Document ν))

/-- `load_acquisition_lock` of the text of a lock. -/
def loadAcquisitionLock (content : Text) : Result (Document ν) := do
  let document ← (TomlTables.loads floats loadsOther content).elim (.error .decode) .ok
  checkLock https acquisition candidates document
  pure document

end Load

end FidbPoc.Sources.Resolution
