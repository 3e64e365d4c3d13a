import FidbPoc.Lib.Checked
import FidbPoc.Lib.Json
import FidbPoc.Lib.Patterns

namespace FidbPoc.Lanes

open FidbPoc.Lib FidbPoc.Lib.Checked FidbPoc.Lib.Patterns

inductive Fault
  | value (message : String)
  | type (message : String)
  | key (name : String)
  | overflow
  | integrity (message : String)
  | fileExists (message : String)
  deriving DecidableEq

abbrev Result := Except Fault

/-- A lowercase SHA-256 digest. -/
@[ext] structure Digest where
  text : String
  valid : isSha256 text = true
  deriving DecidableEq

/-- `[0-9a-f]{16}`. -/
def isHash64 (text : String) : Bool := decide (text.toList.length = 16) && text.toList.all isHex

structure Hash64 where
  text : String
  valid : isHash64 text = true
  deriving DecidableEq

structure Policy where
  id : String
  ghidraVersion : String
  ghidraRelease : String
  ghidraBuild : String
  analysisProfile : String
  fidAlgorithm : String
  deriving DecidableEq

structure Target where
  platform : String
  architecture : String
  machine : String
  binaryFormat : String
  endianness : String
  bits : Int
  deriving DecidableEq

structure Sublane where
  id : String
  targetId : String
  policyId : String
  target : Target
  definitionState : String
  ghidraLanguageIds : List String
  compilerSpecIds : List String
  deriving DecidableEq

structure Lane where
  id : String
  label : String
  state : String
  sublanes : List Sublane

structure Registry where
  policies : List Policy
  lanes : List Lane

/-- A validated occurrence: the fields of `REQUIRED_OCCURRENCE_FIELDS`. -/
structure Occurrence where
  sublaneId : String
  library : String
  libraryVersion : String
  sourceLanguage : String
  sourceUrl : String
  sourceSha256 : Digest
  buildId : String
  routeId : String
  compilerFamily : String
  compilerVersion : String
  compilerSha256 : Option Digest
  treatmentId : String
  buildManifestSha256 : Digest
  ghidraLanguageId : String
  ghidraCompilerSpecId : String
  domainPath : String
  functionName : String
  fullHash : Hash64
  specificHash : Hash64
  specificHashAdditionalSize : Nat
  codeUnitSize : Nat
  deriving DecidableEq

def requiredOccurrenceFields : List String :=
  ["sublane_id", "library", "library_version", "source_language", "source_url", "source_sha256", "build_id", "route_id",
    "compiler_family", "compiler_version", "compiler_sha256", "treatment_id", "build_manifest_sha256",
    "ghidra_language_id", "ghidra_compiler_spec_id", "domain_path", "function_name", "full_hash", "specific_hash",
    "specific_hash_additional_size", "code_unit_size"]

def nonempty (value : Option Json) (label : String) : Result String :=
  match (value.bind Json.str?).filter fun text => text ≠ "" ∧ isStripped text = true with
  | some text => pure text
  | none => .error (.value s!"{label} must be a non-empty string without outer whitespace")

def digest (value : Option Json) (label : String) : Result Digest := do
  let text ← nonempty value label
  if h : isSha256 text = true then pure ⟨text, h⟩
  else .error (.value s!"{label} must be a lowercase SHA-256 digest")

/-- `_digest(value, label, optional=True)`: asking whether a list is in a set raises. -/
def optionalDigest (value : Option Json) (label : String) : Result (Option Digest) :=
  match value with
  | none | some .null | some (.str "") => pure none
  | some (.arr _) | some (.obj _) => .error (.type "unhashable type")
  | some value => do
    let found ← digest (some value) label
    pure (some found)

def hash64 (value : Option Json) (label : String) : Result Hash64 := do
  let text ← nonempty value label
  if h : isHash64 text = true then pure ⟨text, h⟩
  else .error (.value s!"{label} must be a lowercase 64-bit hexadecimal hash")

def count (value : Option Json) (label : String) : Result Nat :=
  match value.bind Json.int? with
  | some (.ofNat n) => pure n
  | _ => .error (.value s!"{label} must be a non-negative integer")

/-- `sublanes.get(sublane_id)`: the last sublane of an id stands. -/
def sublane? (lane : Lane) (id : String) : Option Sublane := lane.sublanes.reverse.find? fun s => s.id = id

def showNames (names : List String) : String :=
  "[" ++ ", ".intercalate (names.map fun name => "'" ++ name ++ "'") ++ "]"

/-- Check one occurrence. The fields are asked for in the order of the schema. -/
def validateOccurrence (lane : Lane) (raw : Json.Fields) : Result Occurrence := do
  let unknown := ((raw.map Prod.fst).filter fun field => field ∉ requiredOccurrenceFields).mergeSort
  let missing := (requiredOccurrenceFields.filter fun field => field ∉ raw.map Prod.fst).mergeSort
  require (unknown = [] ∧ missing = [])
    (.value s!"occurrence fields differ from schema: missing={showNames missing} unknown={showNames unknown}")
  let sublaneId ← nonempty (raw.get? "sublane_id") "sublane_id"
  match sublane? lane sublaneId with
  | none => .error (.value s!"occurrence references a sublane outside this lane: {sublaneId}")
  | some sublane =>
    let text (field : String) : Result String := nonempty (raw.get? field) field
    let library ← text "library"
    let libraryVersion ← text "library_version"
    let sourceLanguage ← text "source_language"
    let sourceUrl ← text "source_url"
    let buildId ← text "build_id"
    let routeId ← text "route_id"
    let compilerFamily ← text "compiler_family"
    let compilerVersion ← text "compiler_version"
    let treatmentId ← text "treatment_id"
    let ghidraLanguageId ← text "ghidra_language_id"
    let ghidraCompilerSpecId ← text "ghidra_compiler_spec_id"
    let domainPath ← text "domain_path"
    let functionName ← text "function_name"
    let sourceSha256 ← digest (raw.get? "source_sha256") "source_sha256"
    let buildManifestSha256 ← digest (raw.get? "build_manifest_sha256") "build_manifest_sha256"
    let compilerSha256 ← optionalDigest (raw.get? "compiler_sha256") "compiler_sha256"
    let fullHash ← hash64 (raw.get? "full_hash") "full_hash"
    let specificHash ← hash64 (raw.get? "specific_hash") "specific_hash"
    let specificHashAdditionalSize ← count (raw.get? "specific_hash_additional_size") "specific_hash_additional_size"
    let codeUnitSize ← count (raw.get? "code_unit_size") "code_unit_size"
    require (ghidraLanguageId ∈ sublane.ghidraLanguageIds)
      (.value s!"occurrence language is not admitted by sublane {sublaneId}: {ghidraLanguageId}")
    require (ghidraCompilerSpecId ∈ sublane.compilerSpecIds)
      (.value s!"occurrence compiler spec is not admitted by sublane {sublaneId}: {ghidraCompilerSpecId}")
    pure
      { sublaneId, library, libraryVersion, sourceLanguage, sourceUrl, sourceSha256, buildId, routeId,
        compilerFamily, compilerVersion, compilerSha256, treatmentId, buildManifestSha256, ghidraLanguageId,
        ghidraCompilerSpecId, domainPath, functionName, fullHash, specificHash, specificHashAdditionalSize,
        codeUnitSize }

end FidbPoc.Lanes
