import FidbPoc.Matching.Compact
import Mathlib.Data.List.SplitBy

namespace FidbPoc.Matching

open FidbPoc.Lib FidbPoc.Lib.Checked FidbPoc.Lib.Leaders

/-- One candidate of an inspected source. -/
structure SourceCandidate where
  candidateId : String
  recordKey : String
  owner : String
  name : String
  fullHash : String
  specificHash : String
  specificHashAdditionalSize : Int
  codeUnitSize : Int
  autoPass : Bool
  autoFail : Bool
  forceSpecific : Bool
  forceRelation : Bool
  deriving DecidableEq

/-- What `inspect_fid_candidate_source` returns. -/
structure Inspection where
  schemaVersion : String
  fidbSha256 : String
  candidates : List SourceCandidate
  superior : List String
  inferior : List String
  deriving DecidableEq, Inhabited

def Inspection.relations (source : Inspection) : RelationKind → List String
  | .superior => source.superior
  | .inferior => source.inferior

structure SourceEntry where
  routeId : String
  treatmentId : String
  owner : String
  fidbPath : String
  fidbSha256 : String
  deriving DecidableEq

/-- The databases on disk: where a path leads, the digest of a regular file, and what its inspection says. -/
structure SourceFiles where
  resolve : String → String
  sha256 : String → Option String
  inspect : String → Result Inspection

def SourceFiles.inspection (files : SourceFiles) (entry : SourceEntry) : Result Inspection :=
  files.inspect (files.resolve entry.fidbPath)

def indexSchema : String := "fidb-compact-candidate-index/v1"

/-- An index as `build_compact_candidate_index` leaves it, with its metadata. -/
structure BuiltIndex where
  schemaVersion : String
  inputDigest : String
  sources : Nat
  index : CandidateIndex

def textOrder {α : Type} (key : α → List String) (a b : α) : Prop := key a ≤ key b

instance {α : Type} (key : α → List String) (a b : α) : Decidable (textOrder key a b) :=
  inferInstanceAs (Decidable (_ ≤ _))

/-- `_input_digest`; `hash` is SHA-256 of the JSON of the rows. -/
def inputDigest (hash : List (List String) → String) (entries : List SourceEntry) : String :=
  hash ((entries.map fun row => [row.routeId, row.treatmentId, row.owner, row.fidbSha256]).insertionSort
    (textOrder id))

def isCurrent (destination : Option BuiltIndex) (digest : String) : Bool :=
  destination.any fun built =>
    built.schemaVersion = indexSchema ∧ built.inputDigest = digest ∧ built.index.candidates ≠ []

/-- The tables while the sources are inserted. -/
structure IndexTables where
  sources : List String
  candidates : List CandidateRow
  relations : List RelationRow

def flag (value : Bool) : Int := if value then 1 else 0

def candidateRow (entry : SourceEntry) (sourceId : String) (candidate : SourceCandidate) : CandidateRow where
  routeId := entry.routeId
  treatmentId := entry.treatmentId
  fullHash := candidate.fullHash
  candidateId := candidate.candidateId
  sourceId := sourceId
  recordKey := candidate.recordKey
  owner := entry.owner
  name := candidate.name
  specificHash := candidate.specificHash
  additionalSize := candidate.specificHashAdditionalSize
  codeUnitSize := candidate.codeUnitSize
  autoPass := flag candidate.autoPass
  autoFail := flag candidate.autoFail
  forceSpecific := flag candidate.forceSpecific
  forceRelation := flag candidate.forceRelation

/-- `INSERT OR IGNORE`: a row with a listed primary key is dropped. -/
def insertCandidates (rows new : List CandidateRow) : List CandidateRow := new.foldl (keepFirst CandidateRow.key) rows

def insertRelations (rows new : List RelationRow) : List RelationRow := new.foldl (keepFirst id) rows

/-- The rows of one entry. SQLite stores no integer beyond 64 bits. -/
def entryRows (source : Inspection) (sourceId : String) (entry : SourceEntry) : Result (List CandidateRow) := do
  require (∀ candidate ∈ source.candidates, candidate.owner = entry.owner)
    (valueError "compact FID source owner does not match frozen evidence")
  require (∀ candidate ∈ source.candidates, -2 ^ 63 ≤ candidate.specificHashAdditionalSize ∧
      candidate.specificHashAdditionalSize < 2 ^ 63 ∧ -2 ^ 63 ≤ candidate.codeUnitSize ∧
      candidate.codeUnitSize < 2 ^ 63)
    ⟨"OverflowError", "Python int too large to convert to SQLite INTEGER"⟩
  pure (source.candidates.map (candidateRow entry sourceId))

def relationRows (source : Inspection) (sourceId : String) : List RelationRow :=
  [RelationKind.superior, .inferior].flatMap fun kind =>
    (source.relations kind).map fun smash => ⟨sourceId, kind, smash⟩

/-- Insert one source: the entries that name its digest. -/
def addSource (files : SourceFiles) (tables : IndexTables) (group : List SourceEntry) : Result IndexTables := do
  match group with
  | [] => pure tables
  | first :: rest =>
    let sourceId := first.fidbSha256
    let path := files.resolve first.fidbPath
    require (∀ entry ∈ rest, files.resolve entry.fidbPath = path)
      (valueError "one compact FID source digest maps to multiple paths")
    require (files.sha256 path = some sourceId) (valueError s!"compact FID source digest mismatch: {path}")
    let source ← files.inspect path
    require (source.schemaVersion = "fidb-compact-candidate-source/v1" ∧ source.fidbSha256 = sourceId)
      (valueError "compact FID source inspection is invalid")
    require (sourceId ∉ tables.sources) ⟨"IntegrityError", "UNIQUE constraint failed: source.source_id"⟩
    let rows ← group.mapM (entryRows source sourceId)
    pure ⟨tables.sources ++ [sourceId], insertCandidates tables.candidates rows.flatten,
      insertRelations tables.relations (relationRows source sourceId)⟩

def entryKey (entry : SourceEntry) : List String :=
  [entry.fidbSha256, entry.routeId, entry.treatmentId, entry.owner]

/-- The entries by source, in the order of the digests. -/
def sourceGroups (entries : List SourceEntry) : List (List SourceEntry) :=
  (entries.insertionSort (textOrder entryKey)).splitBy fun a b => a.fidbSha256 = b.fidbSha256

theorem nodup_insertCandidates {rows : List CandidateRow} (h : (rows.map CandidateRow.key).Nodup)
    (new : List CandidateRow) : ((insertCandidates rows new).map CandidateRow.key).Nodup := by
  unfold insertCandidates
  induction new generalizing rows with
  | nil => exact h
  | cons row new ih =>
    refine ih ?_
    rw [map_key_keepFirst]
    split
    · exact h
    · rename_i hrow
      refine List.nodup_append.mpr ⟨h, List.nodup_singleton _, fun k hk k' hk' hkk => hrow ?_⟩
      obtain rfl := List.mem_singleton.mp hk'
      exact hkk ▸ hk

def insertSources (files : SourceFiles) (entries : List SourceEntry) : Result IndexTables :=
  (sourceGroups entries).foldlM (addSource files) ⟨[], [], []⟩

theorem addSource_nodup {files : SourceFiles} {tables tables' : IndexTables} {group : List SourceEntry}
    (hadd : addSource files tables group = .ok tables') (h : (tables.candidates.map CandidateRow.key).Nodup) :
    (tables'.candidates.map CandidateRow.key).Nodup := by
  cases group with
  | nil =>
    obtain rfl := Except.ok.inj hadd
    exact h
  | cons first rest =>
    simp only [addSource, bind_eq_ok, require_eq_ok, pure_eq_ok] at hadd
    obtain ⟨_, -, _, -, source, -, _, -, _, -, rows, -, rfl⟩ := hadd
    exact nodup_insertCandidates h rows.flatten

theorem insertSources_nodup {files : SourceFiles} {entries : List SourceEntry} {tables : IndexTables}
    (h : insertSources files entries = .ok tables) : (tables.candidates.map CandidateRow.key).Nodup := by
  unfold insertSources at h
  have hstart : ((⟨[], [], []⟩ : IndexTables).candidates.map CandidateRow.key).Nodup := List.nodup_nil
  generalize (⟨[], [], []⟩ : IndexTables) = start at h hstart
  generalize sourceGroups entries = groups at h
  induction groups generalizing start with
  | nil =>
    obtain rfl := Except.ok.inj h
    exact hstart
  | cons group groups ih =>
    rw [List.foldlM_cons, bind_eq_ok] at h
    obtain ⟨next, hnext, h⟩ := h
    exact ih next (addSource_nodup hnext hstart) h

/-- Build an index, unless the destination holds the current one. -/
def buildCompactCandidateIndex (hash : List (List String) → String) (files : SourceFiles)
    (entries : List SourceEntry) (destination : Option BuiltIndex) : Result BuiltIndex := do
  require (entries ≠ []) (valueError "compact FID index requires candidate sources")
  match destination.filter fun _ => isCurrent destination (inputDigest hash entries) with
  | some built => pure built
  | none =>
    match h : insertSources files entries with
    | .error e => .error e
    | .ok tables =>
      pure ⟨indexSchema, inputDigest hash entries, tables.sources.length,
        ⟨tables.candidates, tables.relations, insertSources_nodup h⟩⟩

end FidbPoc.Matching
