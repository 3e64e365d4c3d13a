import FidbPoc.Matching.Building
import FidbPoc.Matching.Culling
import Mathlib.Data.Finset.Dedup

namespace FidbPoc.Matching

open FidbPoc.Lib FidbPoc.Lib.Checked FidbPoc.Lib.Leaders

/-- A candidate for one route and treatment, with the relations of its own source. -/
structure Offer where
  routeId : String
  treatmentId : String
  candidate : SourceCandidate
  superior : Finset String
  inferior : Finset String
  deriving DecidableEq

def Offer.key (offer : Offer) : String × String × String :=
  (offer.routeId, offer.treatmentId, offer.candidate.candidateId)

def offerOf (entry : SourceEntry) (source : Inspection) (candidate : SourceCandidate) : Offer :=
  ⟨entry.routeId, entry.treatmentId, candidate, source.superior.toFinset, source.inferior.toFinset⟩

/-- Every candidate of every entry. -/
def offers (files : SourceFiles) (entries : List SourceEntry) : Set Offer :=
  {offer | ∃ entry ∈ entries, ∃ source, files.inspection entry = .ok source ∧
    ∃ candidate ∈ source.candidates, offer = offerOf entry source candidate}

theorem offers_append (files : SourceFiles) (front back : List SourceEntry) :
    offers files (front ++ back) = offers files front ∪ offers files back := by
  ext offer
  simp only [offers, List.mem_append, Set.mem_union, Set.mem_ofPred_eq, or_and_right, exists_or]

/-- Candidates that share their route, treatment and id agree in everything else. -/
def IdsAgree (files : SourceFiles) (entries : List SourceEntry) : Prop :=
  ∀ offer ∈ offers files entries, ∀ offer' ∈ offers files entries, offer.key = offer'.key → offer = offer'

def rowSource (row : CandidateRow) : SourceCandidate where
  candidateId := row.candidateId
  recordKey := row.recordKey
  owner := row.owner
  name := row.name
  fullHash := row.fullHash
  specificHash := row.specificHash
  specificHashAdditionalSize := row.additionalSize
  codeUnitSize := row.codeUnitSize
  autoPass := row.autoPass ≠ 0
  autoFail := row.autoFail ≠ 0
  forceSpecific := row.forceSpecific ≠ 0
  forceRelation := row.forceRelation ≠ 0

def smashesOf (relations : List RelationRow) (sourceId : String) (kind : RelationKind) : Finset String :=
  ((relations.filter fun row => row.sourceId = sourceId ∧ row.kind = kind).map RelationRow.smash).toFinset

/-- What a row of the index says, by the relations of the source that it names. -/
def describe (relations : List RelationRow) (row : CandidateRow) : Offer :=
  ⟨row.routeId, row.treatmentId, rowSource row, smashesOf relations row.sourceId .superior,
    smashesOf relations row.sourceId .inferior⟩

theorem describe_key (relations : List RelationRow) (row : CandidateRow) : (describe relations row).key = row.key := rfl

section Tables

variable {relations new : List RelationRow} {sourceId : String} {kind : RelationKind}

theorem mem_smashesOf {smash : String} : smash ∈ smashesOf relations sourceId kind ↔ ⟨sourceId, kind, smash⟩ ∈ relations := by
  unfold smashesOf
  simp only [List.mem_toFinset, List.mem_map, List.mem_filter, decide_eq_true_eq]
  constructor
  · rintro ⟨⟨_, _, _⟩, ⟨hrow, rfl, rfl⟩, rfl⟩
    exact hrow
  · exact fun h => ⟨_, ⟨h, rfl, rfl⟩, rfl⟩

theorem mem_foldl_keepFirst {α β : Type} [DecidableEq β] {key : α → β} {rows new : List α} {x : α}
    (h : x ∈ new.foldl (keepFirst key) rows) : x ∈ rows ∨ x ∈ new := by
  induction new generalizing rows with
  | nil => exact .inl h
  | cons y new ih =>
    obtain h | h := ih h
    · unfold keepFirst at h
      split at h
      · exact .inl h
      · obtain h | h := List.mem_append.mp h
        · exact .inl h
        · exact .inr (List.mem_cons.mpr (.inl (List.mem_singleton.mp h)))
    · exact .inr (List.mem_cons_of_mem y h)

theorem mem_keys_foldl_keepFirst {α β : Type} [DecidableEq β] (key : α → β) {rows new : List α} {k : β} :
    k ∈ (new.foldl (keepFirst key) rows).map key ↔ k ∈ rows.map key ∨ k ∈ new.map key := by
  induction new generalizing rows with
  | nil => simp
  | cons y new ih =>
    rw [List.foldl_cons, ih, map_key_keepFirst, List.map_cons, List.mem_cons]
    split
    · rename_i hy
      constructor
      · exact fun h => h.imp id .inr
      · rintro (h | rfl | h)
        · exact .inl h
        · exact .inl hy
        · exact .inr h
    · rw [List.mem_append, List.mem_singleton, or_assoc]

theorem mem_insertRelations {row : RelationRow} :
    row ∈ insertRelations relations new ↔ row ∈ relations ∨ row ∈ new := by
  have h : row ∈ (new.foldl (keepFirst id) relations).map id ↔ row ∈ relations.map id ∨ row ∈ new.map id :=
    mem_keys_foldl_keepFirst id
  simpa [insertRelations] using h

theorem mem_relationRows {source : Inspection} {row : RelationRow} :
    row ∈ relationRows source sourceId ↔ row.sourceId = sourceId ∧ row.smash ∈ source.relations row.kind := by
  unfold relationRows
  simp only [List.mem_flatMap, List.mem_map, List.mem_cons, List.not_mem_nil, or_false]
  constructor
  · rintro ⟨kind, -, smash, hsmash, rfl⟩
    exact ⟨rfl, hsmash⟩
  · rintro ⟨rfl, hsmash⟩
    refine ⟨row.kind, ?_, row.smash, hsmash, rfl⟩
    cases row.kind <;> simp

end Tables

/-- What holds of the tables once the sources of some entries are inserted. -/
structure Inserted (files : SourceFiles) (done : List SourceEntry) (tables : IndexTables) : Prop where
  relations : ∀ row ∈ tables.relations, row.sourceId ∈ tables.sources
  sources : ∀ row ∈ tables.candidates, row.sourceId ∈ tables.sources
  sound : ∀ row ∈ tables.candidates, describe tables.relations row ∈ offers files done
  complete : ∀ offer ∈ offers files done, offer.key ∈ tables.candidates.map CandidateRow.key

theorem inserted_nil (files : SourceFiles) : Inserted files [] ⟨[], [], []⟩ := by
  refine ⟨fun row h => (List.not_mem_nil h).elim, fun row h => (List.not_mem_nil h).elim,
    fun row h => (List.not_mem_nil h).elim, ?_⟩
  rintro offer ⟨entry, hentry, -⟩
  exact (List.not_mem_nil hentry).elim

section Step

variable {files : SourceFiles} {tables tables' : IndexTables} {group done : List SourceEntry}

theorem entryRows_eq_ok {source : Inspection} {sourceId : String} {entry : SourceEntry} {rows : List CandidateRow} :
    entryRows source sourceId entry = .ok rows → (∀ candidate ∈ source.candidates, candidate.owner = entry.owner) ∧
      rows = source.candidates.map (candidateRow entry sourceId) := by
  intro h
  simp only [entryRows, bind_eq_ok, require_eq_ok, pure_eq_ok] at h
  obtain ⟨_, howner, _, -, rfl⟩ := h
  exact ⟨howner, rfl⟩

/-- What one group adds: its rows under a source that was not listed, with the relations of that source. -/
theorem addSource_eq_ok (h : addSource files tables group = .ok tables') (hgroup : group ≠ []) :
    ∃ sourceId source, sourceId ∉ tables.sources ∧ (∀ entry ∈ group, files.inspection entry = .ok source) ∧
      (∀ entry ∈ group, ∀ candidate ∈ source.candidates, candidate.owner = entry.owner) ∧
      tables'.sources = tables.sources ++ [sourceId] ∧
      tables'.candidates = insertCandidates tables.candidates
        (group.flatMap fun entry => source.candidates.map (candidateRow entry sourceId)) ∧
      tables'.relations = insertRelations tables.relations (relationRows source sourceId) := by
  cases group with
  | nil => exact absurd rfl hgroup
  | cons first rest =>
    simp only [addSource, bind_eq_ok, require_eq_ok, pure_eq_ok] at h
    obtain ⟨_, hpaths, _, -, source, hsource, _, -, _, hfresh, rows, hrows, rfl⟩ := h
    refine ⟨first.fidbSha256, source, hfresh, ?_, ?_, rfl, ?_, rfl⟩
    · refine List.forall_mem_cons.mpr ⟨hsource, fun entry hentry => ?_⟩
      unfold SourceFiles.inspection
      rw [hpaths entry hentry]
      exact hsource
    · intro entry hentry
      obtain ⟨rows', -, hrows'⟩ := mapM_mem hrows entry hentry
      exact (entryRows_eq_ok hrows').1
    · have hmap : rows = (first :: rest).map fun entry =>
          source.candidates.map (candidateRow entry first.fidbSha256) := by
        refine (List.map_id rows).symm.trans (Checked.map_mapM hrows fun entry hentry => ?_)
        obtain ⟨rows', -, hrows'⟩ := mapM_mem hrows entry hentry
        exact ⟨rows', hrows', (entryRows_eq_ok hrows').2⟩
      rw [hmap, ← List.flatMap_def]

theorem describe_candidateRow {relations : List RelationRow} {entry : SourceEntry} {source : Inspection}
    {sourceId : String} {candidate : SourceCandidate} (howner : candidate.owner = entry.owner)
    (hrelations : ∀ kind smash, ⟨sourceId, kind, smash⟩ ∈ relations ↔ smash ∈ source.relations kind) :
    describe relations (candidateRow entry sourceId candidate) = offerOf entry source candidate := by
  have hset (kind : RelationKind) : smashesOf relations sourceId kind = (source.relations kind).toFinset := by
    ext smash
    rw [mem_smashesOf, hrelations, List.mem_toFinset]
  have hflag (value : Bool) : decide (flag value ≠ 0) = value := by cases value <;> rfl
  have hcandidate : rowSource (candidateRow entry sourceId candidate) = candidate := by
    simp only [rowSource, candidateRow, hflag, ← howner]
  unfold describe offerOf
  rw [hcandidate]
  exact congrArg₂ (Offer.mk entry.routeId entry.treatmentId candidate) (hset .superior) (hset .inferior)

theorem addSource_inserted (hold : Inserted files done tables) (h : addSource files tables group = .ok tables') :
    Inserted files (done ++ group) tables' := by
  by_cases hgroup : group = []
  · subst hgroup
    obtain rfl := Except.ok.inj h
    rwa [List.append_nil]
  obtain ⟨sourceId, source, hfresh, hinspection, howner, hsources, hcandidates, hrelations⟩ :=
    addSource_eq_ok h hgroup
  have hnew (kind : RelationKind) (smash : String) :
      ⟨sourceId, kind, smash⟩ ∈ tables'.relations ↔ smash ∈ source.relations kind := by
    rw [hrelations, mem_insertRelations, mem_relationRows]
    constructor
    · rintro (hrow | ⟨-, hsmash⟩)
      · exact absurd (hold.relations _ hrow) hfresh
      · exact hsmash
    · exact fun hsmash => .inr ⟨rfl, hsmash⟩
  -- a source that was listed keeps its relations
  have hkept {row : CandidateRow} (hrow : row.sourceId ∈ tables.sources) :
      describe tables'.relations row = describe tables.relations row := by
    have hset (kind : RelationKind) :
        smashesOf tables'.relations row.sourceId kind = smashesOf tables.relations row.sourceId kind := by
      ext smash
      rw [mem_smashesOf, mem_smashesOf, hrelations, mem_insertRelations, mem_relationRows]
      refine or_iff_left fun hnew => hfresh ?_
      rw [← hnew.1]
      exact hrow
    unfold describe
    rw [hset, hset]
  have hoffered : ∀ offer ∈ offers files done, offer ∈ offers files (done ++ group) := by
    intro offer hoffer
    rw [offers_append]
    exact .inl hoffer
  refine ⟨?_, ?_, ?_, ?_⟩
  · intro row hrow
    rw [hrelations, mem_insertRelations, mem_relationRows] at hrow
    rw [hsources, List.mem_append, List.mem_singleton]
    exact hrow.imp (hold.relations row) And.left
  · intro row hrow
    rw [hcandidates] at hrow
    rw [hsources, List.mem_append, List.mem_singleton]
    obtain hrow | hrow := mem_foldl_keepFirst hrow
    · exact .inl (hold.sources row hrow)
    · obtain ⟨entry, -, hrow⟩ := List.mem_flatMap.mp hrow
      obtain ⟨candidate, -, rfl⟩ := List.mem_map.mp hrow
      exact .inr rfl
  · intro row hrow
    rw [hcandidates] at hrow
    obtain hrow | hrow := mem_foldl_keepFirst hrow
    · rw [hkept (hold.sources row hrow)]
      exact hoffered _ (hold.sound row hrow)
    · obtain ⟨entry, hentry, hrow⟩ := List.mem_flatMap.mp hrow
      obtain ⟨candidate, hcandidate, rfl⟩ := List.mem_map.mp hrow
      rw [describe_candidateRow (howner entry hentry candidate hcandidate) hnew]
      exact ⟨entry, List.mem_append_right _ hentry, source, hinspection entry hentry, candidate, hcandidate, rfl⟩
  · intro offer hoffer
    rw [offers_append] at hoffer
    rw [hcandidates]
    refine (mem_keys_foldl_keepFirst CandidateRow.key).mpr ?_
    obtain hoffer | ⟨entry, hentry, source', hsource', candidate, hcandidate, rfl⟩ := hoffer
    · exact .inl (hold.complete offer hoffer)
    · obtain rfl := Except.ok.inj ((hinspection entry hentry).symm.trans hsource')
      exact .inr (List.mem_map.mpr ⟨candidateRow entry sourceId candidate,
        List.mem_flatMap.mpr ⟨entry, hentry, List.mem_map_of_mem hcandidate⟩, rfl⟩)

theorem foldlM_inserted {groups : List (List SourceEntry)} (hold : Inserted files done tables)
    (h : groups.foldlM (addSource files) tables = .ok tables') : Inserted files (done ++ groups.flatten) tables' := by
  induction groups generalizing done tables with
  | nil =>
    obtain rfl := Except.ok.inj h
    rwa [List.flatten_nil, List.append_nil]
  | cons group groups ih =>
    rw [List.foldlM_cons, bind_eq_ok] at h
    obtain ⟨next, hnext, h⟩ := h
    rw [List.flatten_cons, ← List.append_assoc]
    exact ih (addSource_inserted hold hnext) h

theorem offers_congr {entries entries' : List SourceEntry} (h : ∀ entry, entry ∈ entries ↔ entry ∈ entries') :
    offers files entries = offers files entries' := by
  ext offer
  simp only [offers, Set.mem_ofPred_eq, h]

theorem insertSources_inserted {entries : List SourceEntry} (h : insertSources files entries = .ok tables) :
    Inserted files entries tables := by
  have hinserted := foldlM_inserted (inserted_nil files) h
  rw [List.nil_append] at hinserted
  have hsame : offers files (sourceGroups entries).flatten = offers files entries := by
    refine offers_congr fun entry => ?_
    unfold sourceGroups
    rw [List.flatten_splitBy]
    exact (List.perm_insertionSort _ entries).mem_iff
  refine ⟨hinserted.relations, hinserted.sources, ?_, ?_⟩
  · rw [← hsame]
    exact hinserted.sound
  · rw [← hsame]
    exact hinserted.complete

end Step

section Query

variable {κ : Type}

/-- The code units of the related functions that a set of relations holds. -/
def unitsWithin (recordKey : String) (related : List Relation) (smashes : Finset String) : Result Int :=
  related.foldlM (fun total relation => do
    let smash ← relationSmash recordKey relation.fullHash
    pure (if smash ∈ smashes then total + relation.codeUnitSize else total)) 0

def ownParentUnits (semantics : Semantics κ) (function : QueryFunction) (offer : Offer) : Result Int :=
  if (function.parents.length : Int) < semantics.maximumParentsForScore then
    unitsWithin offer.candidate.recordKey function.parents offer.inferior
  else pure 0

/-- The candidate of an offer for one function, its units counted within its own relations. -/
def ownCandidate (semantics : Semantics κ) (function : QueryFunction) (offer : Offer) : Result Candidate := do
  let childCodeUnits ← unitsWithin offer.candidate.recordKey function.children offer.superior
  let parentCodeUnits ← ownParentUnits semantics function offer
  pure {
    candidateId := offer.candidate.candidateId
    owner := offer.candidate.owner
    name := offer.candidate.name
    fullHash := offer.candidate.fullHash
    specificHash := offer.candidate.specificHash
    specificHashAdditionalSize := offer.candidate.specificHashAdditionalSize
    codeUnitSize := offer.candidate.codeUnitSize
    childCodeUnits := childCodeUnits
    parentCodeUnits := parentCodeUnits
    autoPass := offer.candidate.autoPass
    autoFail := offer.candidate.autoFail
    forceSpecific := offer.candidate.forceSpecific
    forceRelation := offer.candidate.forceRelation }

theorem relatedUnits_eq (index : CandidateIndex) (recordKey sourceId : String) (related : List Relation)
    (kind : RelationKind) : relatedUnits recordKey related (index.smashes sourceId kind) =
      unitsWithin recordKey related (smashesOf index.relations sourceId kind) := by
  unfold relatedUnits unitsWithin smashesOf CandidateIndex.smashes
  simp only [List.mem_toFinset]

theorem rowCandidate_eq (semantics : Semantics κ) (index : CandidateIndex) (function : QueryFunction)
    (row : CandidateRow) :
    rowCandidate semantics index function row = ownCandidate semantics function (describe index.relations row) := by
  have hparents : parentUnits semantics index function row =
      ownParentUnits semantics function (describe index.relations row) := by
    unfold parentUnits ownParentUnits
    rw [relatedUnits_eq]
    rfl
  unfold rowCandidate ownCandidate
  rw [hparents, relatedUnits_eq]
  rfl

variable [LinearOrder κ] (scorers : Scorers κ) (authority : Authority κ) (fallbackToCpu : Bool)

/-- As `match_compact` treats a row, for a candidate that is given with its own relations. -/
def streamOffer (chunkRows : Int) (function : QueryFunction) (functionIndex : Nat) (st : CompactStream κ)
    (offer : Offer) : Result (CompactStream κ) := do
  let candidate ← ownCandidate authority.semantics function offer
  let input ← scoreInputs function.toFunctionIdentity candidate authority.semantics
  let st := { st with
    packed := st.packed ++ [input]
    metadata := st.metadata ++ [(functionIndex, candidate)]
    candidateCount := st.candidateCount + 1 }
  if chunkRows ≤ st.packed.length then flushCompact scorers authority fallbackToCpu st else pure st

/-- The scorer when it is given, for each function, a list of candidates. -/
def matchOffers (listing : QueryFunction → List Offer) (functions : List QueryFunction) (backendId : String)
    (chunkRows : Int) : Result (CompactReport κ) := do
  requireBackend authority chunkRows backendId
  let st ← functions.zipIdx.foldlM (fun st entry =>
    (listing entry.1).foldlM (streamOffer scorers authority fallbackToCpu chunkRows entry.1 entry.2) st)
    (CompactStream.initial backendId)
  let st ← flushCompact scorers authority fallbackToCpu st
  let decisions := functions.zipIdx.map fun entry => compactDecision st.winners entry.1 entry.2
  pure {
    backend := st.run.effectiveBackend
    requestedBackend := backendId
    fallbackReason := st.run.fallbackReason
    device := st.run.device
    functions := decisions
    candidateCount := st.candidateCount
    matchedFunctions := matchedFunctions decisions
    candidateChunkRows := chunkRows }

/-- What a query reads of an index, with each row's own relations. -/
def describedCursor (index : CandidateIndex) (routeId treatmentId : String) (function : QueryFunction) : List Offer :=
  (index.cursor routeId treatmentId function.fullHash).map (describe index.relations)

theorem streamCompact_eq (index : CandidateIndex) (chunkRows : Int) (function : QueryFunction) (functionIndex : Nat) :
    streamCompact scorers authority fallbackToCpu index chunkRows function functionIndex =
      fun st row => streamOffer scorers authority fallbackToCpu chunkRows function functionIndex st
        (describe index.relations row) := by
  funext st row
  unfold streamCompact streamOffer
  rw [rowCandidate_eq]

/-- `match_compact` is the scorer on the described rows of its index. -/
theorem matchCompact_eq_matchOffers {indexFiles : IndexFiles} {path sha256 : String} {index : CandidateIndex}
    (hfile : indexFiles path = some ⟨index, sha256⟩) (functions : List QueryFunction) (routeId treatmentId : String)
    (backendId : String) (chunkRows : Int) :
    matchCompact scorers authority fallbackToCpu indexFiles path functions routeId treatmentId backendId chunkRows =
      matchOffers scorers authority fallbackToCpu (describedCursor index routeId treatmentId) functions backendId
        chunkRows := by
  unfold matchCompact matchOffers openIndex describedCursor
  simp only [hfile, pure_bind, List.foldlM_map, streamCompact_eq]

end Query

/-- For every function the offers of its full hash, each once, in the order of their ids. -/
structure OffersListed (offered : Set Offer) (routeId treatmentId : String) (listing : QueryFunction → List Offer) :
    Prop where
  ordered : ∀ function, (listing function).Pairwise fun a b => a.candidate.candidateId < b.candidate.candidateId
  mem_listing : ∀ function offer, offer ∈ listing function ↔ offer ∈ offered ∧ offer.routeId = routeId ∧
    offer.treatmentId = treatmentId ∧ offer.candidate.fullHash = function.fullHash

theorem OffersListed.unique {offered : Set Offer} {routeId treatmentId : String}
    {listing listing' : QueryFunction → List Offer} (h : OffersListed offered routeId treatmentId listing)
    (h' : OffersListed offered routeId treatmentId listing') : listing = listing' := by
  funext function
  have hnodup : (listing function).Nodup := (h.ordered function).imp fun hlt he => (he ▸ hlt).false
  have hnodup' : (listing' function).Nodup := (h'.ordered function).imp fun hlt he => (he ▸ hlt).false
  have hperm : (listing function).Perm (listing' function) :=
    (List.perm_ext_iff_of_nodup hnodup hnodup').mpr fun offer => by rw [h.mem_listing, h'.mem_listing]
  refine hperm.eq_of_pairwise (fun a b _ _ hab hba => ?_) (h.ordered function) (h'.ordered function)
  exact absurd hba hab.asymm

/-- The index holds every candidate of every entry with its own relations, and a query
scores exactly these, whatever the order and the digests of the sources are. -/
structure Faithful (files : SourceFiles) (entries : List SourceEntry) (index : CandidateIndex) : Prop where
  contains : ∀ offer ∈ offers files entries, ∃ row ∈ index.candidates, describe index.relations row = offer
  listed : ∀ routeId treatmentId, ∃ listing, OffersListed (offers files entries) routeId treatmentId listing
  selects : ∀ (κ : Type) [LinearOrder κ] (scorers : Scorers κ) (authority : Authority κ) (fallbackToCpu : Bool)
    (indexFiles : IndexFiles) (path sha256 : String) (functions : List QueryFunction)
    (routeId treatmentId backendId : String) (chunkRows : Int) (listing : QueryFunction → List Offer),
    indexFiles path = some ⟨index, sha256⟩ → OffersListed (offers files entries) routeId treatmentId listing →
    matchCompact scorers authority fallbackToCpu indexFiles path functions routeId treatmentId backendId chunkRows =
      matchOffers scorers authority fallbackToCpu listing functions backendId chunkRows
  orderless : ∀ (files' : SourceFiles) (entries' : List SourceEntry) (tables' : IndexTables)
    (hinsert : insertSources files' entries' = .ok tables'), offers files' entries' = offers files entries →
    ∀ (κ : Type) [LinearOrder κ] (scorers : Scorers κ) (authority : Authority κ) (fallbackToCpu : Bool)
      (indexFiles : IndexFiles) (path path' sha256 sha256' : String) (functions : List QueryFunction)
      (routeId treatmentId backendId : String) (chunkRows : Int), indexFiles path = some ⟨index, sha256⟩ →
      indexFiles path' = some ⟨⟨tables'.candidates, tables'.relations, insertSources_nodup hinsert⟩, sha256'⟩ →
      matchCompact scorers authority fallbackToCpu indexFiles path functions routeId treatmentId backendId chunkRows =
        matchCompact scorers authority fallbackToCpu indexFiles path' functions routeId treatmentId backendId chunkRows

instance : Std.Total candidateOrder := ⟨fun a b => le_total a.candidateId b.candidateId⟩

instance : IsTrans CandidateRow candidateOrder := ⟨fun _ _ _ => le_trans⟩

section Faithful

variable {files : SourceFiles} {entries : List SourceEntry} {tables : IndexTables}

/-- Where shared ids agree, every candidate is described by the row of its id. -/
theorem contains_of_agree (h : Inserted files entries tables) (hagree : IdsAgree files entries) :
    ∀ offer ∈ offers files entries, ∃ row ∈ tables.candidates, describe tables.relations row = offer := by
  intro offer hoffer
  obtain ⟨row, hrow, hkey⟩ := List.mem_map.mp (h.complete offer hoffer)
  exact ⟨row, hrow, hagree _ (h.sound row hrow) offer hoffer hkey⟩

theorem agree_of_contains {index : CandidateIndex}
    (h : ∀ offer ∈ offers files entries, ∃ row ∈ index.candidates, describe index.relations row = offer) :
    IdsAgree files entries := by
  intro offer hoffer offer' hoffer' hkey
  obtain ⟨row, hrow, rfl⟩ := h offer hoffer
  obtain ⟨row', hrow', rfl⟩ := h offer' hoffer'
  rw [List.inj_on_of_nodup_map index.candidates_key hrow hrow' hkey]

/-- A query reads the candidates of its route, treatment and full hash. -/
theorem describedCursor_listed (index : CandidateIndex) (hcandidates : index.candidates = tables.candidates)
    (hrelations : index.relations = tables.relations) (h : Inserted files entries tables)
    (hagree : IdsAgree files entries) (routeId treatmentId : String) :
    OffersListed (offers files entries) routeId treatmentId (describedCursor index routeId treatmentId) := by
  refine ⟨fun function => ?_, fun function offer => ?_⟩
  · have hsorted : (index.cursor routeId treatmentId function.fullHash).Pairwise candidateOrder :=
      List.pairwise_insertionSort candidateOrder _
    have hnodup := List.pairwise_map.mp (nodup_cursor index routeId treatmentId function.fullHash)
    exact List.pairwise_map.mpr (hsorted.imp₂ (fun _ _ hle hne => lt_of_le_of_ne hle hne) hnodup)
  · unfold describedCursor CandidateIndex.cursor
    simp only [List.mem_map, (List.perm_insertionSort candidateOrder _).mem_iff, List.mem_filter, decide_eq_true_eq,
      hcandidates, hrelations]
    constructor
    · rintro ⟨row, ⟨hrow, hroute, htreatment, hhash⟩, rfl⟩
      exact ⟨h.sound row hrow, hroute, htreatment, hhash⟩
    · rintro ⟨hoffer, hroute, htreatment, hhash⟩
      obtain ⟨row, hrow, rfl⟩ := contains_of_agree h hagree offer hoffer
      exact ⟨row, ⟨hrow, hroute, htreatment, hhash⟩, rfl⟩

theorem faithful_of_agree (hinsert : insertSources files entries = .ok tables) (hagree : IdsAgree files entries)
    (hkey : (tables.candidates.map CandidateRow.key).Nodup) :
    Faithful files entries ⟨tables.candidates, tables.relations, hkey⟩ := by
  have h := insertSources_inserted hinsert
  have hlisted (routeId treatmentId : String) :=
    describedCursor_listed ⟨tables.candidates, tables.relations, hkey⟩ rfl rfl h hagree routeId treatmentId
  refine ⟨contains_of_agree h hagree, fun routeId treatmentId => ⟨_, hlisted routeId treatmentId⟩, ?_, ?_⟩
  · intro κ _ scorers authority fallbackToCpu indexFiles path sha256 functions routeId treatmentId backendId chunkRows
      listing hfile hlisting
    rw [matchCompact_eq_matchOffers scorers authority fallbackToCpu hfile,
      (hlisted routeId treatmentId).unique hlisting]
  · intro files' entries' tables' hinsert' hoffers κ _ scorers authority fallbackToCpu indexFiles path path' sha256
      sha256' functions routeId treatmentId backendId chunkRows hfile hfile'
    have hagree' : IdsAgree files' entries' := by
      unfold IdsAgree
      rw [hoffers]
      exact hagree
    have hlisted' := describedCursor_listed ⟨tables'.candidates, tables'.relations, insertSources_nodup hinsert'⟩
      rfl rfl (insertSources_inserted hinsert') hagree' routeId treatmentId
    rw [hoffers] at hlisted'
    rw [matchCompact_eq_matchOffers scorers authority fallbackToCpu hfile,
      matchCompact_eq_matchOffers scorers authority fallbackToCpu hfile',
      (hlisted routeId treatmentId).unique hlisted']

end Faithful

/-- A written index is the faithful union of its sources exactly where candidates that
share their route, treatment and id agree in everything else. -/
theorem built_faithful_iff (hash : List (List String) → String) (files : SourceFiles) (entries : List SourceEntry)
    (destination : Option BuiltIndex) (built : BuiltIndex)
    (hwritten : isCurrent destination (inputDigest hash entries) = false)
    (hbuilt : buildCompactCandidateIndex hash files entries destination = .ok built) :
    Faithful files entries built.index ↔ IdsAgree files entries := by
  have hfilter : (destination.filter fun _ => isCurrent destination (inputDigest hash entries)) = none := by
    rw [hwritten]
    cases destination <;> rfl
  simp only [buildCompactCandidateIndex, bind_eq_ok, require_eq_ok] at hbuilt
  obtain ⟨_, -, hbuilt⟩ := hbuilt
  rw [hfilter] at hbuilt
  simp only at hbuilt
  split at hbuilt
  · cases hbuilt
  · rename_i tables hinsert
    obtain rfl := Except.ok.inj hbuilt
    exact ⟨fun h => agree_of_contains h.contains, fun hagree => faithful_of_agree hinsert hagree _⟩

namespace Shared

/-- A candidate of `inflate` under one id, whose record key is the one of its own database. -/
def candidate (recordKey : String) : SourceCandidate :=
  ⟨"c1", recordKey, "zlib@1.3.1", "inflate", "00000000000000f0", "00000000000000b1", 3, 20, false, false, false, false⟩

def source (sha256 recordKey : String) (superior : List String) : Inspection :=
  ⟨"fidb-compact-candidate-source/v1", sha256, [candidate recordKey], superior, []⟩

def entry (path sha256 : String) : SourceEntry := ⟨"linux-gcc", "o2", "zlib@1.3.1", path, sha256⟩

/-- Two databases of one release; only the second holds a relation of the function. -/
def files : SourceFiles where
  resolve path := path
  sha256 path := if path = "/a.fidb" then some "aa" else some "bb"
  inspect path :=
    if path = "/a.fidb" then .ok (source "aa" "0000000000000001" [])
    else .ok (source "bb" "0000000000000002" ["0000000000000007"])

theorem built_of_isOk (entries : List SourceEntry)
    (h : (buildCompactCandidateIndex (fun _ => "") files entries none).isOk = true) :
    ∃ built, buildCompactCandidateIndex (fun _ => "") files entries none = .ok built := by
  cases hbuilt : buildCompactCandidateIndex (fun _ => "") files entries none with
  | ok built => exact ⟨built, rfl⟩
  | error e =>
    rw [hbuilt] at h
    cases h

/-- One database is its own union. -/
theorem built_faithful_iff_single : ∃ built,
    buildCompactCandidateIndex (fun _ => "") files [entry "/a.fidb" "aa"] none = .ok built ∧
      (Faithful files [entry "/a.fidb" "aa"] built.index ↔ IdsAgree files [entry "/a.fidb" "aa"]) := by
  obtain ⟨built, hbuilt⟩ := built_of_isOk [entry "/a.fidb" "aa"] (by decide)
  exact ⟨built, hbuilt, built_faithful_iff (fun _ => "") files [entry "/a.fidb" "aa"] none built rfl hbuilt⟩

/-- The second database's candidate is ignored with its relation. -/
theorem shared_id_dropped : ∃ built,
    buildCompactCandidateIndex (fun _ => "") files [entry "/a.fidb" "aa", entry "/b.fidb" "bb"] none = .ok built ∧
      ¬Faithful files [entry "/a.fidb" "aa", entry "/b.fidb" "bb"] built.index := by
  obtain ⟨built, hbuilt⟩ := built_of_isOk [entry "/a.fidb" "aa", entry "/b.fidb" "bb"] (by decide)
  refine ⟨built, hbuilt, fun hfaithful => ?_⟩
  have hfirst : offerOf (entry "/a.fidb" "aa") (source "aa" "0000000000000001" []) (candidate "0000000000000001") ∈
      offers files [entry "/a.fidb" "aa", entry "/b.fidb" "bb"] :=
    ⟨_, by simp, _, rfl, _, by simp [source], rfl⟩
  have hsecond : offerOf (entry "/b.fidb" "bb") (source "bb" "0000000000000002" ["0000000000000007"])
      (candidate "0000000000000002") ∈ offers files [entry "/a.fidb" "aa", entry "/b.fidb" "bb"] :=
    ⟨_, List.mem_cons_of_mem _ (List.mem_singleton_self _), _, rfl, _, by simp [source], rfl⟩
  have hsame := congrArg (fun offer : Offer => offer.candidate.recordKey)
    (agree_of_contains hfaithful.contains _ hfirst _ hsecond rfl)
  exact absurd hsame (by decide)

end Shared

end FidbPoc.Matching
