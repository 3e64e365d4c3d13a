import FidbPoc.Coordinator.Config
import FidbPoc.Lib.Patterns
import FidbPoc.Lib.Run
import Mathlib.Logic.Function.Basic

namespace FidbPoc.Uploads

open Lib
open FidbPoc.Coordinator (jsonObject jsonString)
open FidbPoc.Lib.Patterns (isSha256)

abbrev Bytes := List UInt8

/-- A relative path below the staging directory of an attempt. -/
structure RelPath where
  parent : List String
  name : String
  deriving DecidableEq

namespace RelPath

variable (p : RelPath)

def text : String := "/".intercalate (p.parent ++ [p.name])

def partPath : RelPath := { p with name := "." ++ p.name ++ ".upload" }

def metadataPath : RelPath := { p with name := "." ++ p.name ++ ".upload.json" }

def temporaryPath (suffix : String) : RelPath := { p with name := "." ++ p.name ++ "." ++ suffix }

end RelPath

/-- What `mkstemp` draws. -/
def isDrawn (suffix : String) : Bool :=
  decide (suffix.toList.length = 8) && suffix.toList.all fun c => c.isLower || c.isDigit || c == '_'

structure Metadata where
  path : String
  sha256 : String
  bytes : Nat
  deriving DecidableEq

def metadataText (metadata : Metadata) : Bytes :=
  (jsonObject
    [("bytes", toString metadata.bytes), ("path", jsonString metadata.path),
      ("schema_version", jsonString "fidb-remote-artifact-upload/v1"),
      ("sha256", jsonString metadata.sha256)]).toUTF8.data.toList

/-- The limit of the server, the digest, and what reading a metadata text gives. -/
structure Server where
  maxArtifactBytes : Nat
  sha256 : Bytes → String
  loads : Bytes → Option Metadata

def maxChunkBytes : Nat := 8 * 1024 * 1024

structure Chunk where
  content : Bytes
  artifactSha256 : String
  artifactBytes : Nat
  offset : Nat
  chunkSha256 : String
  final : Bool
  deriving DecidableEq

inductive Body
  | whole (content : Bytes) (expectedSha256 : String)
  | chunk (chunk : Chunk)
  deriving DecidableEq

structure Request where
  path : RelPath
  body : Body
  deriving DecidableEq

inductive Answer
  | stored (sha256 : String) (bytes : Nat)
  | chunk (sha256 : String) (bytes nextOffset : Nat) (complete : Bool)
  deriving DecidableEq

/-- The digest with which the artifact is acknowledged as stored. -/
def Answer.storedSha256 : Answer → Option String
  | .stored sha256 _ => some sha256
  | .chunk sha256 _ _ complete => if complete then some sha256 else none

/-- Where the handling of a request is, by the file-system call that comes next. -/
inductive Phase
  | checking
  | comparing
  | drawing
  | filling (temporary : RelPath)
  | replacing (temporary : RelPath)
  | cleaning (temporary : RelPath)
  | waiting
  | finding
  | sizing
  | hashing (size : Nat)
  | seekingPart
  | seekingMetadata
  | partFile
  | metadataFile
  | readingMetadata
  | creating
  | describing
  | touching
  | measuring
  | replaying (size : Nat)
  | appending
  | totalling (nextOffset : Nat)
  | verifying (nextOffset : Nat)
  | discarding
  | discardingMetadata
  | installing (nextOffset : Nat)
  | closing (nextOffset : Nat)
  | answering (answer : Answer)
  | raising

/-- A file-system call, the file lock, or the end of a request. -/
inductive Action
  | look (path : RelPath) (next : Option Bytes → Phase)
  | acquire (next : Phase)
  | mkstemp (next : RelPath → Phase)
  | append (path : RelPath) (content : Bytes) (next : Phase)
  | create (path : RelPath) (next : Phase)
  | touch (path : RelPath) (next : Phase)
  | rename (source destination : RelPath) (next : Phase)
  | unlink (path : RelPath) (missingOk : Bool) (next : Phase)
  | answer (answer : Answer)
  | raise

section Handlers

variable (server : Server) (path : RelPath)

def storeUpload (content : Bytes) : Phase → Action
  | .checking => .look path fun found => if found.isSome then .comparing else .drawing
  | .comparing => .look path fun found =>
    if found.any fun observed => server.sha256 observed = server.sha256 content then
      .answering (.stored (server.sha256 content) content.length)
    else .raising
  | .drawing => .mkstemp .filling
  | .filling temporary => .append temporary content (.replacing temporary)
  | .replacing temporary => .rename temporary path (.cleaning temporary)
  | .cleaning temporary =>
    .unlink temporary true (.answering (.stored (server.sha256 content) content.length))
  | .answering answer => .answer answer
  | _ => .raise

def Chunk.metadata (chunk : Chunk) : Metadata := ⟨path.text, chunk.artifactSha256, chunk.artifactBytes⟩

/-- After the durable bytes cover the chunk. -/
def Chunk.concluded (chunk : Chunk) (nextOffset : Nat) : Phase :=
  if chunk.final then .totalling nextOffset
  else .answering (.chunk chunk.artifactSha256 chunk.artifactBytes nextOffset false)

def storeUploadChunk (chunk : Chunk) : Phase → Action
  | .waiting => .acquire .finding
  | .finding => .look path fun found => if found.isSome then .sizing else .seekingPart
  | .sizing => .look path fun found =>
    match found with
    | some observed => .hashing observed.length
    | none => .raising
  | .hashing size => .look path fun found =>
    match found with
    | some observed =>
      if size = chunk.artifactBytes ∧ server.sha256 observed = chunk.artifactSha256 then
        .answering (.chunk (server.sha256 observed) size size true)
      else .raising
    | none => .raising
  | .seekingPart => .look path.partPath fun found => if found.isSome then .partFile else .seekingMetadata
  | .seekingMetadata => .look path.metadataPath fun found =>
    if found.isSome then .partFile else if chunk.offset = 0 then .creating else .raising
  | .partFile => .look path.partPath fun found => if found.isSome then .metadataFile else .raising
  | .metadataFile => .look path.metadataPath fun found => if found.isSome then .readingMetadata else .raising
  | .readingMetadata => .look path.metadataPath fun found =>
    if found.bind server.loads = some (chunk.metadata path) then .measuring else .raising
  | .creating => .create path.metadataPath .describing
  | .describing => .append path.metadataPath (metadataText (chunk.metadata path)) .touching
  | .touching => .touch path.partPath .measuring
  | .measuring => .look path.partPath fun found =>
    match found with
    | some durable =>
      if durable.length < chunk.offset then .raising
      else if chunk.offset < durable.length then .replaying durable.length
      else .appending
    | none => .raising
  | .replaying size => .look path.partPath fun found =>
    if found.any fun durable => (durable.drop chunk.offset).take chunk.content.length = chunk.content then
      chunk.concluded (max size (chunk.offset + chunk.content.length))
    else .raising
  | .appending => .append path.partPath chunk.content (chunk.concluded (chunk.offset + chunk.content.length))
  | .totalling nextOffset => .look path.partPath fun found =>
    if found.any fun durable => durable.length = chunk.artifactBytes then .verifying nextOffset else .raising
  | .verifying nextOffset => .look path.partPath fun found =>
    match found with
    | some observed => if server.sha256 observed = chunk.artifactSha256 then .installing nextOffset else .discarding
    | none => .raising
  | .discarding => .unlink path.partPath true .discardingMetadata
  | .discardingMetadata => .unlink path.metadataPath true .raising
  | .installing nextOffset => .rename path.partPath path (.closing nextOffset)
  | .closing nextOffset =>
    .unlink path.metadataPath false (.answering (.chunk chunk.artifactSha256 chunk.artifactBytes nextOffset true))
  | .answering answer => .answer answer
  | _ => .raise

end Handlers

/-- What the server checks of a request before it touches the staging directory. -/
def Server.Accepts (server : Server) (request : Request) : Prop :=
  match request.body with
  | .whole content expectedSha256 =>
    content.length ≤ server.maxArtifactBytes ∧ isSha256 expectedSha256 ∧ server.sha256 content = expectedSha256
  | .chunk chunk =>
    (0 < chunk.artifactBytes ∧ chunk.artifactBytes ≤ server.maxArtifactBytes) ∧ chunk.offset < chunk.artifactBytes ∧
      (chunk.content ≠ [] ∧ chunk.content.length ≤ maxChunkBytes ∧
        chunk.offset + chunk.content.length ≤ chunk.artifactBytes) ∧
      chunk.final = decide (chunk.offset + chunk.content.length = chunk.artifactBytes) ∧
      isSha256 chunk.chunkSha256 ∧ server.sha256 chunk.content = chunk.chunkSha256 ∧ isSha256 chunk.artifactSha256

/-- A request that the server works on. -/
structure Handling where
  request : Request
  phase : Phase

def Request.start (request : Request) : Phase :=
  match request.body with
  | .whole .. => .checking
  | .chunk _ => .waiting

def Handling.action (server : Server) (h : Handling) : Action :=
  match h.request.body with
  | .whole content _ => storeUpload server h.request.path content h.phase
  | .chunk chunk => storeUploadChunk server h.request.path chunk h.phase

/-- The temporary file that a whole-body upload has drawn. -/
def Phase.temporary : Phase → Option RelPath
  | .filling temporary | .replacing temporary | .cleaning temporary => some temporary
  | _ => none

/-- A chunked request that has its file lock. -/
def Handling.locked (h : Handling) : Prop := (∃ chunk, h.request.body = .chunk chunk) ∧ h.phase ≠ .waiting

abbrev Files := RelPath → Option Bytes

/-- What a call does to the files, and the phase that comes after it. -/
def perform (files : Files) : Action → Option (Files × Phase)
  | .look path next => some (files, next (files path))
  | .append path content next =>
    some (Function.update files path (some ((files path).getD [] ++ content)), next)
  | .create path next =>
    if (files path).isSome then some (files, .raising) else some (Function.update files path (some []), next)
  | .touch path next =>
    if (files path).isSome then some (files, next) else some (Function.update files path (some []), next)
  | .rename source destination next =>
    match files source with
    | some content => some (Function.update (Function.update files source none) destination (some content), next)
    | none => some (files, .raising)
  | .unlink path missingOk next =>
    if (files path).isSome then some (Function.update files path none, next)
    else some (files, if missingOk then next else .raising)
  | .acquire _ | .mkstemp _ | .answer _ | .raise => none

/-- The staging directory of an attempt, the requests under way, the requests accepted so far, and what was answered as
stored. -/
structure Site where
  files : Files
  handling : Nat → Option Handling
  requests : List Request
  stored : List (RelPath × String)

def initial : Site := ⟨fun _ => none, fun _ => none, [], []⟩

inductive Op
  | arrive (i : Nat) (request : Request)
  | run (i : Nat)
  | acquire (i : Nat)
  | draw (i : Nat) (suffix : String)
  | answer (i : Nat)
  | raise (i : Nat)
  | fail (i : Nat)
  | kill (i : Nat)
  | tear (i written : Nat)

/-- One step: a request arrives, goes on by one call, ends, fails with its cleanup, or is killed, also in the middle of a
write. -/
inductive Next (server : Server) (site : Site) : Op → Site → Prop
  | arrive {i : Nat} {request : Request} (hfree : site.handling i = none) (haccepted : server.Accepts request) :
      Next server site (.arrive i request)
        { site with
          handling := Function.update site.handling i (some ⟨request, request.start⟩)
          requests := site.requests ++ [request] }
  | run {i : Nat} {h : Handling} {files : Files} {phase : Phase} (hhandling : site.handling i = some h)
      (hperform : perform site.files (h.action server) = some (files, phase)) :
      Next server site (.run i)
        { site with files, handling := Function.update site.handling i (some { h with phase }) }
  | acquire {i : Nat} {h : Handling} {phase : Phase} (hhandling : site.handling i = some h)
      (haction : h.action server = .acquire phase)
      (hfree : ∀ j other, site.handling j = some other → other.locked → other.request.path ≠ h.request.path) :
      Next server site (.acquire i) { site with handling := Function.update site.handling i (some { h with phase }) }
  | draw {i : Nat} {h : Handling} {next : RelPath → Phase} {suffix : String} (hhandling : site.handling i = some h)
      (haction : h.action server = .mkstemp next) (hdrawn : isDrawn suffix)
      (hfree : site.files (h.request.path.temporaryPath suffix) = none)
      (hother : ∀ j other, site.handling j = some other →
        other.phase.temporary ≠ some (h.request.path.temporaryPath suffix)) :
      Next server site (.draw i suffix)
        { site with
          files := Function.update site.files (h.request.path.temporaryPath suffix) (some [])
          handling := Function.update site.handling i
            (some { h with phase := next (h.request.path.temporaryPath suffix) }) }
  | answer {i : Nat} {h : Handling} {answer : Answer} (hhandling : site.handling i = some h)
      (haction : h.action server = .answer answer) :
      Next server site (.answer i)
        { site with
          handling := Function.update site.handling i none
          stored := site.stored ++ (answer.storedSha256.map fun digest => (h.request.path, digest)).toList }
  | raise {i : Nat} {h : Handling} (hhandling : site.handling i = some h) (haction : h.action server = .raise) :
      Next server site (.raise i) { site with handling := Function.update site.handling i none }
  | fail {i : Nat} {h : Handling} (hhandling : site.handling i = some h) :
      Next server site (.fail i)
        { site with
          files := match h.phase.temporary with
            | some temporary => Function.update site.files temporary none
            | none => site.files
          handling := Function.update site.handling i none }
  | kill {i : Nat} {h : Handling} (hhandling : site.handling i = some h) :
      Next server site (.kill i) { site with handling := Function.update site.handling i none }
  | tear {i written : Nat} {h : Handling} {path : RelPath} {content : Bytes} {next : Phase}
      (hhandling : site.handling i = some h) (haction : h.action server = .append path content next) :
      Next server site (.tear i written)
        { site with
          files := Function.update site.files path (some ((site.files path).getD [] ++ content.take written))
          handling := Function.update site.handling i none }

section Names

variable {p q : RelPath} {suffix suffix' : String}

theorem partPath_inj (h : p.partPath = q.partPath) : p = q := by
  obtain ⟨hparent, hname⟩ := RelPath.mk.inj h
  have hlist := congrArg String.toList hname
  simp only [String.toList_append, List.append_cancel_right_eq, List.append_cancel_left_eq, String.toList_inj] at hlist
  cases p
  cases q
  simp_all

theorem metadataPath_inj (h : p.metadataPath = q.metadataPath) : p = q := by
  obtain ⟨hparent, hname⟩ := RelPath.mk.inj h
  have hlist := congrArg String.toList hname
  simp only [String.toList_append, List.append_cancel_right_eq, List.append_cancel_left_eq, String.toList_inj] at hlist
  cases p
  cases q
  simp_all

/-- The shorter of two ends of one text is an end of the other. -/
theorem suffix_of_append_eq {xs ys zs ws : List Char} (h : xs ++ ys = zs ++ ws) (hlength : ys.length ≤ ws.length) :
    ys <:+ ws := by
  have hys : ys <:+ xs ++ ys := List.suffix_append xs ys
  rw [h] at hys
  exact List.suffix_of_suffix_length_le hys (List.suffix_append zs ws) hlength

theorem partPath_ne_metadataPath : p.partPath ≠ q.metadataPath := by
  intro h
  have hlist := congrArg String.toList (RelPath.mk.inj h).2
  simp only [String.toList_append] at hlist
  have hsuffix := suffix_of_append_eq hlist (by decide)
  revert hsuffix
  decide

theorem isDrawn_length (h : isDrawn suffix) : suffix.toList.length = 8 := by
  simp only [isDrawn, Bool.and_eq_true, decide_eq_true_eq] at h
  exact h.1

theorem isDrawn_dot (h : isDrawn suffix) : '.' ∉ suffix.toList := by
  intro hmem
  simp only [isDrawn, Bool.and_eq_true, List.all_eq_true] at h
  have hdot := h.2 '.' hmem
  revert hdot
  decide

theorem temporaryPath_ne_partPath (h : isDrawn suffix) : p.temporaryPath suffix ≠ q.partPath := by
  intro heq
  have hlist := congrArg String.toList (RelPath.mk.inj heq).2
  simp only [String.toList_append] at hlist
  have hsuffix := suffix_of_append_eq hlist.symm (by rw [isDrawn_length h]; decide)
  exact isDrawn_dot h (hsuffix.subset (by decide))

theorem temporaryPath_ne_metadataPath (h : isDrawn suffix) : p.temporaryPath suffix ≠ q.metadataPath := by
  intro heq
  have hlist := congrArg String.toList (RelPath.mk.inj heq).2
  have hjson : ".upload.json".toList = ".upload".toList ++ ".json".toList := by decide
  simp only [String.toList_append] at hlist
  rw [hjson, ← List.append_assoc] at hlist
  have hsuffix := suffix_of_append_eq hlist.symm (by rw [isDrawn_length h]; decide)
  exact isDrawn_dot h (hsuffix.subset (by decide))

end Names

end FidbPoc.Uploads
