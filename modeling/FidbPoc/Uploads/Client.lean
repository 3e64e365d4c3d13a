import FidbPoc.Uploads.Protocol

namespace FidbPoc.Uploads

open Lib

section Loop

variable (server : Server) (path : RelPath) (content : Bytes)

/-- What the client reads of the artifact at an offset. -/
def chunkAt (offset : Nat) : Bytes := (content.drop offset).take maxChunkBytes

def clientChunk (offset : Nat) : Chunk where
  content := chunkAt content offset
  artifactSha256 := server.sha256 content
  artifactBytes := content.length
  offset
  chunkSha256 := server.sha256 (chunkAt content offset)
  final := decide (offset + (chunkAt content offset).length = content.length)

def chunkRequest (offset : Nat) : Request := ⟨path, .chunk (clientChunk server content offset)⟩

/-- Where the client's loop is. -/
inductive Client
  | away
  | sending (offset : Nat)
  | waiting (i offset : Nat)
  | returned
  | failed
  deriving DecidableEq

/-- What the client makes of an answer. A full file that is not complete makes it send its last chunk again. -/
def acknowledge (offset : Nat) : Answer → Client
  | .stored .. => .failed
  | .chunk sha256 bytes nextOffset complete =>
    if complete = true ∧ nextOffset = content.length ∧ sha256 = server.sha256 content ∧ bytes = content.length then .returned
    else if offset + (chunkAt content offset).length ≤ nextOffset ∧ nextOffset ≤ content.length ∧ complete = false then
      if nextOffset = content.length then .sending (content.length - maxChunkBytes) else .sending nextOffset
    else .failed

/-- The staging directory, and the client that uploads one artifact into it. -/
structure Session where
  site : Site
  client : Client

/-- The request that an operation of the server ends. -/
def Op.ends : Op → Option Nat
  | .answer i | .raise i | .fail i | .kill i | .tear i _ => some i
  | .arrive .. | .run _ | .acquire _ | .draw .. => none

def Op.arrives : Op → Bool
  | .arrive .. => true
  | _ => false

inductive SessionOp
  | begin
  | send (i : Nat)
  | serve (op : Op)
  | reply (i : Nat)
  | refuse (op : Op)
  | lose

/-- One step of an upload: the client starts over, sends a chunk, takes an answer, gets an error or loses its connection, and
the server works on what has arrived. -/
inductive SessionNext (session : Session) : SessionOp → Session → Prop
  | begin (hclient : session.client ∈ [Client.away, .returned, .failed]) :
      SessionNext session .begin { session with client := .sending 0 }
  | send {i offset : Nat} {site : Site} (hclient : session.client = .sending offset) (hoffset : offset < content.length)
      (hn : Next server session.site (.arrive i (chunkRequest server path content offset)) site) :
      SessionNext session (.send i) ⟨site, .waiting i offset⟩
  | serve {op : Op} {site : Site} (hn : Next server session.site op site) (harrives : op.arrives = false)
      (hends : ∀ i offset, session.client = .waiting i offset → op.ends ≠ some i) :
      SessionNext session (.serve op) { session with site }
  | reply {i offset : Nat} {site : Site} {h : Handling} {answer : Answer} (hclient : session.client = .waiting i offset)
      (hhandling : session.site.handling i = some h) (haction : h.action server = .answer answer)
      (hn : Next server session.site (.answer i) site) :
      SessionNext session (.reply i) ⟨site, acknowledge server content offset answer⟩
  | refuse {i offset : Nat} {op : Op} {site : Site} (hclient : session.client = .waiting i offset)
      (hn : Next server session.site op site) (hends : op.ends = some i) (hanswer : op ≠ .answer i) :
      SessionNext session (.refuse op) ⟨site, .failed⟩
  | lose : SessionNext session .lose { session with client := .away }

def newSession : Session := ⟨initial, .away⟩

end Loop

instance (server : Server) (request : Request) : Decidable (server.Accepts request) := by
  unfold Server.Accepts
  cases request.body <;> infer_instance

section Undisturbed

variable (server : Server)

/-- The server works on one request alone and without a fault. No answer stands for an error. -/
def serve (request : Request) : Nat → Files → Phase → Option (Files × Option Answer)
  | 0, _, _ => none
  | fuel + 1, files, phase =>
    match perform files (Handling.action server ⟨request, phase⟩) with
    | some (files', phase') => serve request fuel files' phase'
    | none =>
      match Handling.action server ⟨request, phase⟩ with
      | .acquire phase' => serve request fuel files phase'
      | .answer answer => some (files, some answer)
      | _ => some (files, none)

def respond (fuel : Nat) (files : Files) (request : Request) : Option (Files × Option Answer) :=
  if server.Accepts request then serve server request fuel files request.start else some (files, none)

def Answer.nextOffset : Answer → Option Nat
  | .stored .. => none
  | .chunk _ _ nextOffset _ => some nextOffset

/-- How an upload ends, with the end of every chunk sent and the offset answered to it. -/
structure Outcome where
  client : Client
  files : Files
  acknowledged : List (Nat × Option Nat)

def upload (path : RelPath) (content : Bytes) : Nat → Files → Nat → Option Outcome
  | 0, _, _ => none
  | fuel + 1, files, offset =>
    if content.length ≤ offset then some ⟨.returned, files, []⟩
    else
      match respond server fuel files (chunkRequest server path content offset) with
      | none => none
      | some (files, none) => some ⟨.failed, files, []⟩
      | some (files, some answer) =>
        match acknowledge server content offset answer with
        | .sending nextOffset =>
          (upload path content fuel files nextOffset).map fun outcome =>
            { outcome with
              acknowledged := (offset + (chunkAt content offset).length, answer.nextOffset) :: outcome.acknowledged }
        | client => some ⟨client, files, [(offset + (chunkAt content offset).length, answer.nextOffset)]⟩

/-- The client ends without an error, the artifact is there, and every offset answered is between the end of the chunk sent and
the size. -/
structure Outcome.Returned (path : RelPath) (content : Bytes) (outcome : Outcome) : Prop where
  client : outcome.client = .returned
  files : outcome.files path = some content
  acknowledged : ∀ sent ∈ outcome.acknowledged, ∃ nextOffset, sent.2 = some nextOffset ∧ sent.1 ≤ nextOffset ∧
    nextOffset ≤ content.length

/-- With enough fuel, this is how an upload from the offset ends. -/
def Ends (path : RelPath) (content : Bytes) (files : Files) (offset : Nat) (outcome : Outcome) : Prop :=
  ∃ bound, ∀ fuel, bound ≤ fuel → upload server path content fuel files offset = some outcome

end Undisturbed

/-- The artifact is stored, its upload has not begun, or its partial file is empty or holds the first chunk. -/
def Resumable (path : RelPath) (content : Bytes) (files : Files) : Prop :=
  (files path).isSome ∨ files path.metadataPath = none ∨
    ∃ durable, files path.partPath = some durable ∧ (durable.length = 0 ∨ min maxChunkBytes content.length ≤ durable.length)

section Durable

variable (server : Server) (path : RelPath) (content : Bytes)

def artifactMetadata : Metadata := ⟨path.text, server.sha256 content, content.length⟩

/-- The upload has begun, and its first bytes are durable. -/
structure Uploading (files : Files) (size : Nat) : Prop where
  destination : files path = none
  part : files path.partPath = some (content.take size)
  metadata : files path.metadataPath = some (metadataText (artifactMetadata server path content))
  le : size ≤ content.length

/-- Neither the artifact nor its partial file is there. -/
structure Bare (files : Files) (metadata : Option Bytes) : Prop where
  destination : files path = none
  part : files path.partPath = none
  metadata : files path.metadataPath = metadata

structure Complete (files : Files) : Prop where
  destination : files path = some content
  part : files path.partPath = none

/-- What the uploads of one artifact may leave on disk. -/
inductive Durable (files : Files) : Prop
  | bare {metadata : Option Bytes} (h : Bare path files metadata)
  | uploading {size : Nat} (h : Uploading server path content files size)
  | complete (h : Complete path content files)

/-- What the request with the lock has found on disk. -/
def Reached (files : Files) (offset : Nat) : Phase → Prop
  | .sizing | .hashing _ => Complete path content files
  | .seekingPart => files path = none ∧ Durable server path content files
  | .seekingMetadata => ∃ metadata, Bare path files metadata
  | .partFile => files path = none ∧ Durable server path content files
  | .metadataFile | .readingMetadata | .measuring => ∃ size, Uploading server path content files size
  | .creating => Bare path files none
  | .describing => Bare path files (some [])
  | .touching => Bare path files (some (metadataText (artifactMetadata server path content)))
  | .replaying size => Uploading server path content files size ∧ offset < size
  | .appending => Uploading server path content files offset
  | .totalling _ | .verifying _ | .installing _ => Uploading server path content files content.length
  | .closing _ => Complete path content files
  | .filling _ | .replacing _ | .cleaning _ | .discarding | .discardingMetadata => False
  | _ => Durable server path content files

end Durable

section Sizes

variable {server : Server} {path : RelPath} {content : Bytes} {files files' : Files} {offset size written : Nat} {phase : Phase}

theorem partPath_ne : path.partPath ≠ path := by
  intro h
  have hlength := congrArg (fun s : String => s.toList.length) (RelPath.mk.inj h).2
  simp only [String.toList_append, List.length_append] at hlength
  have hpos : 0 < ".upload".toList.length := by decide
  omega

theorem metadataPath_ne : path.metadataPath ≠ path := by
  intro h
  have hlength := congrArg (fun s : String => s.toList.length) (RelPath.mk.inj h).2
  simp only [String.toList_append, List.length_append] at hlength
  have hpos : 0 < ".upload.json".toList.length := by decide
  omega

theorem maxChunkBytes_pos : 0 < maxChunkBytes := by decide

theorem length_chunkAt : (chunkAt content offset).length = min maxChunkBytes (content.length - offset) := by
  simp [chunkAt]

theorem take_append_chunkAt : content.take offset ++ (chunkAt content offset).take written =
    content.take (offset + min written maxChunkBytes) := by
  rw [chunkAt, List.take_take, List.take_add]

/-- Appending a whole chunk. -/
theorem append_chunkAt : content.take offset ++ chunkAt content offset =
    content.take (offset + (chunkAt content offset).length) := by
  rw [List.take_add, length_chunkAt, chunkAt]
  congr 1
  rw [List.take_eq_take_iff, List.length_drop]
  omega

/-- A durable prefix replays a chunk that it covers, and no other. -/
theorem replay_eq_iff (hoffset : offset < size) (hsize : size ≤ content.length) :
    ((content.take size).drop offset).take (chunkAt content offset).length = chunkAt content offset ↔
      offset + (chunkAt content offset).length ≤ size := by
  have hlength : (chunkAt content offset).length ≤ content.length - offset := by
    rw [length_chunkAt]
    exact Nat.min_le_right _ _
  constructor
  · intro h
    have hlen := congrArg List.length h
    rw [List.length_take, List.length_drop, List.length_take] at hlen
    omega
  · intro h
    rw [List.drop_take, List.take_take, Nat.min_eq_left (by omega), chunkAt, List.length_take, List.length_drop]
    rw [List.take_eq_take_iff, List.length_drop]
    omega

end Sizes

end FidbPoc.Uploads
