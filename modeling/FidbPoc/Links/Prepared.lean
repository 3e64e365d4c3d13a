import FidbPoc.Lib.Checked
import FidbPoc.Lib.Json
import FidbPoc.Lib.Python

namespace FidbPoc.Links

open Lib

inductive Fold
  | A
  | B
  deriving DecidableEq

def Fold.text : Fold → String
  | .A => "A"
  | .B => "B"

/-- One fold of one exact identity. -/
structure Cell where
  position : Nat
  fold : Fold
  routeId : String
  treatmentId : String
  deriving DecidableEq

def Cell.id (cell : Cell) : String := s!"{Python.format03d cell.position}:{cell.fold.text}"

/-- What the link stages read of a compiled plan, with the routes of its evidence. -/
structure Plan where
  id : String
  validationId : String
  authoritySha256 : String
  runtimeAuthoritySha256 : String
  inputDigest : String
  generationRoot : String
  batchSize : Nat
  identicalFailureLimit : Nat
  cells : List Cell
  binaryFormat : String → Option String
  batchSize_pos : 0 < batchSize
  ids : (cells.map Cell.id).Nodup

/-- What `json.loads` makes of the text of a file. -/
inductive Reading
  | undecodable
  | malformed
  | document (value : Json)

/-- What the code reads of a file. -/
structure File where
  sha256 : String
  reading : Reading

/-- The files that the preparation of one fold sees, by their path below the root. -/
abbrev Files := String → Option File

inductive Fault
  | unicodeDecode
  | jsonDecode
  | attribute
  | key (name : String)
  | value (text : String)
  | runtime (text : String)
  | fileNotFound (path : String)
  | external (text : String)
  deriving DecidableEq

structure Fingerprint where
  reasonCode : String
  normalizedError : String
  failureFingerprint : String
  deriving DecidableEq

section Paths

variable (plan : Plan) (cell : Cell)

def unitRoot : String :=
  s!"{plan.generationRoot}/units/{Python.format03d cell.position}-{cell.routeId}-{cell.treatmentId}"

def foldPath (name : String) : String := s!"{unitRoot plan cell}/fold-{cell.fold.text}/" ++ name

def preparedFoldPath : String := foldPath plan cell "prepared.json"

def foldCheckpointPath : String := foldPath plan cell "fold-result.json"

def linkAuditPath : String := foldPath plan cell "link-audit.json"

def suffix (format : String) : String := if format = "PE/COFF" then ".dll" else ".elf"

def truthPath (format : String) : String := foldPath plan cell ("truth" ++ suffix format)

def queryPath (format : String) : String := foldPath plan cell ("query" ++ suffix format)

end Paths

/-- Where the plan is carried out. No link stands below the generation root, so that
the paths of a fold's own files lead to these files. -/
structure Project (plan : Plan) where
  /-- `_inside(root, str(value))`; `none` where the path escapes the root -/
  inside : Json → Option String
  canonicalDigest : Json → String
  /-- the digest of the text that `_atomic_json` writes -/
  textDigest : Json → String
  failureFingerprint : Fault → Fingerprint
  own : ∀ cell ∈ plan.cells, ∀ name, inside (.str (foldPath plan cell name)) = some (foldPath plan cell name)

/-- The steps of a preparation that run other programs: the archives of the fold's
owners, the composite link with its audit, and the stripped copy. -/
structure Toolchain where
  archives : Cell → Option Fault
  link : Cell → Files → Files × Option Fault
  strip : Cell → Files → Files × Option Fault

section Documents

def readFields : Option File → Except Fault (Option Json.Fields)
  | none => .ok none
  | some file =>
    match file.reading with
    | .undecodable => .error .unicodeDecode
    | .malformed => .ok none
    | .document value =>
      match value.fields? with
      | none => .error .attribute
      | some fields => .ok (some fields)

def readJson (path : String) : Option File → Except Fault Json
  | none => .error (.fileNotFound path)
  | some file =>
    match file.reading with
    | .undecodable => .error .unicodeDecode
    | .malformed => .error .jsonDecode
    | .document value => .ok value

/-- No `document.get(key) != value`. -/
def agrees (fields : Json.Fields) (expected : List (String × Json)) : Bool :=
  expected.all fun e => ((fields.get? e.1).getD .null).same e.2

def field (fields : Json.Fields) (key : String) : Except Fault Json :=
  match fields.get? key with
  | none => .error (.key key)
  | some value => .ok value

end Documents

section Folds

variable {plan : Plan} (project : Project plan) (cell : Cell) (files : Files)

def preparedFoldSchema : String := "fidb-machine-validation-prepared-fold/v1"

def foldResultSchema : String := "fidb-machine-validation-fold-result/v1"

def linkHarnessPolicy : String := "whole-archive-shared-image-symbolic-v2"

def queryCopyPolicy : String := "debug-stripped-symbol-indexed"

/-- The fields that a marker or a checkpoint of the cell shares. -/
def identity (plan : Plan) (cell : Cell) : List (String × Json) :=
  [("position", .int cell.position), ("route_id", .str cell.routeId), ("treatment_id", .str cell.treatmentId),
    ("fold", .str cell.fold.text), ("runtime_authority_sha256", .str plan.runtimeAuthoritySha256)]

def preparedIdentity (plan : Plan) (cell : Cell) : List (String × Json) :=
  [("schema_version", .str preparedFoldSchema), ("state", .str "prepared")] ++ identity plan cell ++
    [("link_harness_policy", .str linkHarnessPolicy), ("query_copy_policy", .str queryCopyPolicy)]

/-- The file that a field of a marker names. -/
def namedBinary (fields : Json.Fields) (key : String) : Option File :=
  ((fields.get? key).bind project.inside).bind files

def loadPreparedFold (path : String) : Except Fault (Option Json.Fields) :=
  (readFields (files path)).map fun document => document.filter fun fields =>
    agrees fields (preparedIdentity plan cell) && (namedBinary project files fields "truth_binary").isSome &&
      (namedBinary project files fields "query_binary").isSome

def checkpointIdentity (plan : Plan) (cell : Cell) (mode : String) : List (String × Json) :=
  [("schema_version", .str foldResultSchema), ("state", .str "complete"), ("mode", .str mode)] ++ identity plan cell

def loadFoldCheckpoint (plan : Plan) (cell : Cell) (files : Files) (mode : String) :
    Except Fault (Option Json.Fields) :=
  (readFields (files (foldCheckpointPath plan cell))).map fun document => document.bind fun fields =>
    if agrees fields (checkpointIdentity plan cell mode) then
      ((fields.get? "result").bind Json.fields?).filter fun result =>
        ((result.get? "fold").getD .null).same (.str cell.fold.text)
    else none

def sha256 (path : String) : Except Fault String :=
  match files path with
  | none => .error (.fileNotFound path)
  | some file => .ok file.sha256

/-- The marker of binaries that stand in the fold's directory. -/
def preparedDocument (plan : Plan) (cell : Cell) (files : Files) (format : String) (linkAudit : Json) :
    Except Fault Json.Fields := do
  let truthSha256 ← sha256 files (truthPath plan cell format)
  let querySha256 ← sha256 files (queryPath plan cell format)
  pure (preparedIdentity plan cell ++
    [("truth_binary", .str (truthPath plan cell format)), ("truth_sha256", .str truthSha256),
      ("query_binary", .str (queryPath plan cell format)), ("query_sha256", .str querySha256),
      ("link_audit", linkAudit)])

/-- `_atomic_json(path, fields)`. -/
def writeJson (path : String) (fields : Json.Fields) : Files := fun p =>
  if p = path then some ⟨project.textDigest (.obj fields), .document (.obj fields)⟩ else files p

variable (toolchain : Toolchain)

def routeFormat (plan : Plan) (cell : Cell) : Except Fault String :=
  match plan.binaryFormat cell.routeId with
  | none => .error (.key cell.routeId)
  | some format => .ok format

/-- The link, its audit and the stripped copy, and then the marker of them. -/
def linkFold (format : String) : Files × Option Fault :=
  let linked := toolchain.link cell files
  match linked.2 with
  | some fault => (linked.1, some fault)
  | none =>
    match readJson (linkAuditPath plan cell) (linked.1 (linkAuditPath plan cell)) with
    | .error fault => (linked.1, some fault)
    | .ok linkAudit =>
      let stripped := toolchain.strip cell linked.1
      match stripped.2 with
      | some fault => (stripped.1, some fault)
      | none =>
        match preparedDocument plan cell stripped.1 format linkAudit with
        | .error fault => (stripped.1, some fault)
        | .ok prepared => (writeJson project stripped.1 (preparedFoldPath plan cell) prepared, none)

def prepareFold (format : String) : Files × Option Fault :=
  match loadPreparedFold project cell files (preparedFoldPath plan cell) with
  | .error fault => (files, some fault)
  | .ok (some _) => (files, none)
  | .ok none => linkFold project cell files toolchain format

/-- `_prepare_position` for the one requested fold. -/
def preparePosition (mode : String) : Files × Option Fault :=
  match routeFormat plan cell with
  | .error fault => (files, some fault)
  | .ok format =>
    match loadFoldCheckpoint plan cell files mode with
    | .error fault => (files, some fault)
    | .ok (some _) => (files, none)
    | .ok none =>
      match toolchain.archives cell with
      | some fault => (files, some fault)
      | none => prepareFold project cell files toolchain format

end Folds

end FidbPoc.Links
