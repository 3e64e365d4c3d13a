import FidbPoc.Sources.Resolution

namespace FidbPoc.Sources.Resolution

open FidbPoc.Lib FidbPoc.Lib.Checked FidbPoc.Lib.Toml FidbPoc.Lib.TomlTables FidbPoc.Lib.TomlWriter

section Selected

/-- What the resolution promises of an outcome. -/
def Outcome.Sound : Outcome → Prop
  | .pinned pin => isDigest pin.sha256 = true ∧ Plain pin.resolverId ∧ Plain pin.matchKind ∧ Plain pin.urlRewriteId
  | .unresolved reason => isBlank reason = false

theorem isBlank_append {value rest : Text} (h : isBlank value = false ∨ isBlank rest = false) : isBlank (value ++ rest) = false := by
  rw [isBlank, List.all_append, Bool.and_eq_false_iff]
  exact h

theorem matchKind_plain (found : Option Alias) (record : Record) : Plain (matchKind found record) := by
  unfold matchKind
  split
  · decide
  · split
    · decide
    · decide

variable {acquisition : Acquisition}

theorem selectRecord_sound {resolverId registryKey : Text} {found : Option Alias} {record : Record} (hid : Plain resolverId) :
    (selectRecord acquisition resolverId registryKey found record).Sound := by
  rw [selectRecord]
  cases hrewrites : matchingRewrites acquisition resolverId record.url with
  | nil => exact ⟨record.digest, hid, matchKind_plain found record, (by decide : Plain (text "none"))⟩
  | cons rewrite rest =>
    cases rest with
    | nil =>
      have hmem : rewrite ∈ acquisition.rewrites :=
        (List.mem_filter.mp (hrewrites ▸ List.mem_singleton_self rewrite : rewrite ∈ matchingRewrites _ _ _)).1
      exact ⟨record.digest, hid, matchKind_plain found record, plain_of_isToken (acquisition.rewrites_tokens rewrite hmem)⟩
    | cons _ _ =>
      refine isBlank_append (.inl (isBlank_append (.inl (isBlank_append (.inl ?_)))))
      decide

theorem declaredReason_sound (key : Text) : (Outcome.unresolved (declaredReason acquisition key)).Sound := by
  show isBlank (declaredReason acquisition key) = false
  unfold declaredReason
  split
  · exact isBlank_append (.inl (isBlank_append (.inr (by decide))))
  · decide

theorem selectSource_sound {state : MetadataState acquisition} {key : Text} {resolvers : List Resolver} {outcome : Outcome}
    (hresolvers : ∀ resolver ∈ resolvers, resolver ∈ acquisition.resolvers)
    (h : selectSource acquisition state key resolvers = .ok outcome) : outcome.Sound := by
  induction resolvers with
  | nil =>
    obtain rfl := Except.ok.inj h
    exact declaredReason_sound key
  | cons resolver rest ih =>
    obtain ⟨hmem, hrest⟩ := List.forall_mem_cons.mp hresolvers
    have hid : Plain resolver.id := plain_of_isToken (acquisition.resolvers_tokens resolver hmem)
    rw [selectSource] at h
    cases hrecords : recordsOf acquisition state resolver.id with
    | none =>
      rw [hrecords] at h
      cases h
    | some records =>
      rw [hrecords] at h
      dsimp only at h
      split at h
      · exact ih hrest h
      · obtain rfl := Except.ok.inj h
        exact selectRecord_sound hid
      · obtain rfl := Except.ok.inj h
        exact isBlank_append (.inr (by decide))

theorem mem_orderedResolvers {key : Text} {resolver : Resolver} (h : resolver ∈ orderedResolvers acquisition key) :
    resolver ∈ acquisition.resolvers := by
  unfold orderedResolvers at h
  split at h
  · split at h
    · exact h
    · rcases List.mem_append.mp h with h | h
      · exact (List.mem_filter.mp h).1
      · exact (List.mem_filter.mp h).1
  · exact h

variable {state : MetadataState acquisition} {candidates : List Candidate} {rows : List Row}

theorem resolveRows_sound (h : resolveRows acquisition state candidates = .ok rows) : ∀ row ∈ rows, row.outcome.Sound := by
  intro row hrow
  obtain ⟨ranked, -, hranked⟩ := mem_mapM h row hrow
  obtain ⟨outcome, houtcome, hranked⟩ := bind_eq_ok.mp hranked
  obtain rfl := pure_eq_ok.mp hranked
  exact selectSource_sound (fun _ => mem_orderedResolvers) houtcome

/-- The rows stand for the candidates in their order. -/
theorem resolveRows_ranked (h : resolveRows acquisition state candidates = .ok rows) :
    rows.map (fun row => (row.candidate, row.rank - 1)) = candidates.zipIdx := by
  have hpairs : rows.map (fun row => (row.candidate, row.rank - 1)) = candidates.zipIdx.map id := by
    refine map_mapM h fun ranked hranked => ?_
    obtain ⟨row, -, hrow⟩ := mapM_mem h ranked hranked
    refine ⟨row, hrow, ?_⟩
    obtain ⟨outcome, -, hrow⟩ := bind_eq_ok.mp hrow
    obtain rfl := pure_eq_ok.mp hrow
    rfl
  rw [hpairs, List.map_id]

theorem resolveRows_ranks (h : resolveRows acquisition state candidates = .ok rows) : ∀ row ∈ rows, 0 < row.rank := by
  intro row hrow
  obtain ⟨ranked, -, hranked⟩ := mem_mapM h row hrow
  obtain ⟨outcome, -, hranked⟩ := bind_eq_ok.mp hranked
  obtain rfl := pure_eq_ok.mp hranked
  exact Nat.succ_pos _

end Selected

section Reading

variable {ν : Type}

/-- What the lock of an acquisition holds. -/
def lockDocument (acquisition : Acquisition) (snapshots : List Snapshot) (rows : List Row) : Document ν where
  root := rootFields acquisition
  tables := .empty
  arrays := (Dict.empty.set (text "metadata_snapshot") (snapshots.map Snapshot.fields)).set (text "candidate") (rows.map Row.fields)

/-- The texts of a pin that its resolver has not checked. -/
def Pin.texts (pin : Pin) : List Text :=
  [pin.registryKey, pin.version, pin.releasePage, pin.registryUrl, pin.url, pin.filename]

def Outcome.texts : Outcome → List Text
  | .pinned pin => pin.texts
  | .unresolved reason => [reason]

def Row.texts (row : Row) : List Text := row.candidate.candidateKey :: row.candidate.displayName :: row.outcome.texts

def Snapshot.texts (row : Snapshot) : List Text := [row.kind, row.url]

theorem rootFields_keyed (acquisition : Acquisition) : WellKeyed (rootFields acquisition : Fields ν) :=
  .of_keys (["schema_version", "id", "label", "candidate_authority", "candidate_authority_sha256",
    "resolution_algorithm"].map text) rfl (by decide) (by decide)

theorem snapshot_fields_keyed (row : Snapshot) : WellKeyed (row.fields : Fields ν) :=
  .of_keys snapshotFields rfl (by decide) (by decide)

theorem row_fields_keys (row : Row) : (row.fields : Fields ν).map Prod.fst =
    if row.outcome.status = text "pinned" then lockPinFields else lockUnresolvedFields := by
  obtain ⟨rank, candidate, outcome⟩ := row
  cases outcome with
  | pinned pin => rfl
  | unresolved reason => rfl

theorem row_fields_keyed (row : Row) : WellKeyed (row.fields : Fields ν) := by
  refine .of_keys _ (row_fields_keys row) ?_ ?_
  · split
    · decide
    · decide
  · split
    · decide
    · decide

variable {floats : FloatFormat ν} {acquisition : Acquisition}

theorem rootFields_readable : AllReadable (ascii floats) (rootFields acquisition) ↔
    Plain acquisition.label ∧ Plain acquisition.candidateAuthority := by
  have hid : Plain acquisition.id := plain_of_isToken acquisition.id_token
  have hdigest : Plain acquisition.candidateAuthoritySha256 := plain_of_isDigest acquisition.authority_digest
  have hschema : Plain lockSchema := by decide
  have halgorithm : Plain resolutionAlgorithm := by decide
  simp only [AllReadable, rootFields, List.forall_mem_cons, List.not_mem_nil, ascii, asciiReadable]
  tauto

theorem snapshot_readable {row : Snapshot} (hid : Plain row.resolverId) (hdigest : isDigest row.sha256 = true) :
    AllReadable (ascii floats) row.fields ↔ ∀ value ∈ row.texts, Plain value := by
  have hsha := plain_of_isDigest hdigest
  simp only [AllReadable, Snapshot.fields, Snapshot.texts, List.forall_mem_cons, List.not_mem_nil, ascii, asciiReadable,
    Value.Readable]
  tauto

theorem outcome_readable {outcome : Outcome} (h : outcome.Sound) :
    AllReadable (ascii floats) outcome.fields ↔ ∀ value ∈ outcome.texts, Plain value := by
  cases outcome with
  | pinned pin =>
    obtain ⟨hdigest, hid, hkind, hrewrite⟩ := h
    have hsha := plain_of_isDigest hdigest
    simp only [AllReadable, Outcome.fields, Pin.fields, Outcome.texts, Pin.texts, List.forall_mem_cons, List.not_mem_nil, ascii,
      asciiReadable, Value.Readable]
    tauto
  | unresolved reason =>
    simp only [AllReadable, Outcome.fields, Outcome.texts, List.forall_mem_cons, List.not_mem_nil, ascii, asciiReadable]
    tauto

theorem row_readable {row : Row} (h : row.outcome.Sound) :
    AllReadable (ascii floats) row.fields ↔ ∀ value ∈ row.texts, Plain value := by
  have hstatus : Plain row.outcome.status := by
    cases row.outcome with
    | pinned _ => exact (by decide : Plain (text "pinned"))
    | unresolved _ => exact (by decide : Plain (text "unresolved"))
  rw [Row.texts, List.forall_mem_cons, List.forall_mem_cons, ← @outcome_readable ν floats _ h]
  simp only [AllReadable, Row.fields, List.forall_mem_append, List.forall_mem_cons, List.not_mem_nil, ascii, asciiReadable,
    Value.Readable]
  tauto

end Reading

section Checks

variable {ν : Type} {fields : Fields ν} {key : String}

theorem require_of {c : Prop} [Decidable c] {e : Fault} (h : c) : require c e = .ok () := require_eq_ok.mpr h

theorem checkFields_eq_ok {present expected : List Text} {label : String} {u : Unit} :
    checkFields present expected label = .ok u ↔ ∀ key, key ∈ present ↔ key ∈ expected := by
  rw [checkFields, require_eq_ok]
  exact ⟨fun h key => ⟨h.2 key, h.1 key⟩, fun h => ⟨fun key => (h key).mpr, fun key => (h key).mp⟩⟩

theorem isStr_str {found value : Text} (h : fields.lookup (text key) = some (.str found)) :
    isStr fields key value = true ↔ found = value := by
  rw [isStr, h]
  exact decide_eq_true_iff

theorem shown_str {found : Text} (h : fields.lookup (text key) = some (.str found)) : shown fields key = some found := by
  rw [shown, h]

theorem rootFields_checked (acquisition : Acquisition) :
    isStr (rootFields acquisition : Fields ν) "schema_version" lockSchema ∧ isStr (rootFields acquisition : Fields ν) "id" acquisition.id ∧
      isStr (rootFields acquisition : Fields ν) "candidate_authority" acquisition.candidateAuthority ∧
      isStr (rootFields acquisition : Fields ν) "candidate_authority_sha256" acquisition.candidateAuthoritySha256 ∧
      isStr (rootFields acquisition : Fields ν) "resolution_algorithm" resolutionAlgorithm :=
  ⟨(isStr_str rfl).mpr rfl, (isStr_str rfl).mpr rfl, (isStr_str rfl).mpr rfl, (isStr_str rfl).mpr rfl, (isStr_str rfl).mpr rfl⟩

variable {acquisition : Acquisition}

/-- A resolver is found by its id. -/
theorem find?_resolver {resolver : Resolver} (h : resolver ∈ acquisition.resolvers) {p : Resolver → Bool}
    (hp : ∀ r, p r = true ↔ r.id = resolver.id) : acquisition.resolvers.find? p = some resolver := by
  cases hfind : acquisition.resolvers.find? p with
  | none => exact absurd ((hp resolver).mpr rfl) (List.find?_eq_none.mp hfind resolver h)
  | some r =>
    have hid : r.id = resolver.id := (hp r).mp (List.find?_some hfind)
    exact congrArg some (List.inj_on_of_nodup_map acquisition.resolvers_nodup (List.mem_of_find?_eq_some hfind) h hid)

theorem checkSnapshot_fields {row : Snapshot} (hknown : ⟨row.resolverId, row.kind, row.url⟩ ∈ acquisition.resolvers)
    (hdigest : isDigest row.sha256 = true) : checkSnapshot acquisition (row.fields : Fields ν) = .ok () := by
  have hresolver : (row.fields : Fields ν).lookup (text "resolver_id") = some (.str row.resolverId) := rfl
  have hsha : (row.fields : Fields ν).lookup (text "sha256") = some (.str row.sha256) := rfl
  have hkeys : checkFields ((row.fields : Fields ν).map Prod.fst) snapshotFields "source acquisition lock snapshot" = .ok () :=
    checkFields_eq_ok.mpr fun _ => Iff.rfl
  rw [checkSnapshot, hkeys, ok_bind, shown_str hsha, shown_str hresolver, find?_resolver hknown]
  · rw [require_of (by exact hdigest), ok_bind, require_eq_ok]
    exact Bool.and_eq_true_iff.mpr ⟨(isStr_str rfl).mpr rfl, (isStr_str rfl).mpr rfl⟩
  · intro r
    rw [decide_eq_true_iff, Option.some.injEq, eq_comm]

variable {https : Text → Bool}

/-- What the loader asks of an outcome beyond what the resolution promises. -/
def Outcome.IsSecure (https : Text → Bool) : Outcome → Prop
  | .pinned pin => https pin.url = true ∧ https pin.releasePage = true
  | .unresolved _ => True

theorem checkPin_fields {row : Row} {pin : Pin} (hrow : row.outcome = .pinned pin) (hdigest : isDigest pin.sha256 = true)
    {label : Text} {u : Unit} :
    checkPin https label (row.fields : Fields ν) = .ok u ↔ https pin.url = true ∧ https pin.releasePage = true := by
  obtain ⟨rank, candidate, outcome⟩ := row
  subst hrow
  have hsha : (Row.fields ⟨rank, candidate, .pinned pin⟩ : Fields ν).lookup (text "sha256") = some (.str pin.sha256) := rfl
  have hurl : (Row.fields ⟨rank, candidate, .pinned pin⟩ : Fields ν).lookup (text "url") = some (.str pin.url) := rfl
  have hpage : (Row.fields ⟨rank, candidate, .pinned pin⟩ : Fields ν).lookup (text "release_page") =
      some (.str pin.releasePage) := rfl
  have hsize : (Row.fields ⟨rank, candidate, .pinned pin⟩ : Fields ν).lookup (text "download_bytes") =
      some (.int pin.downloadBytes) := rfl
  rw [checkPin, shown_str hsha, shown_str hurl, shown_str hpage, hsize, require_of (by exact hdigest), ok_bind]
  constructor
  · intro h
    obtain ⟨_, h1, h⟩ := bind_eq_ok.mp h
    obtain ⟨_, h2, -⟩ := bind_eq_ok.mp h
    exact ⟨require_eq_ok.mp h1, require_eq_ok.mp h2⟩
  · rintro ⟨h1, h2⟩
    rw [require_of (by exact h1), ok_bind, require_of (by exact h2), ok_bind]
    rfl

/-- The check of an outcome, which a sound one fails only by its URLs. -/
theorem checkOutcome_fields {row : Row} (hsound : row.outcome.Sound) {label : Text} :
    (if isStr (row.fields : Fields ν) "status" (text "pinned") then checkPin https label (row.fields : Fields ν)
      else require (isStr (row.fields : Fields ν) "status" (text "unresolved") ∧
        (shown (row.fields : Fields ν) "reason").any fun reason => !isBlank reason) (.candidate label "state is invalid")) = .ok () ↔
      row.outcome.IsSecure https := by
  obtain ⟨rank, candidate, outcome⟩ := row
  have hstatus : (Row.fields ⟨rank, candidate, outcome⟩ : Fields ν).lookup (text "status") = some (.str outcome.status) := rfl
  rw [if_congr (isStr_str hstatus) rfl rfl]
  cases outcome with
  | pinned pin =>
    rw [if_pos (by exact rfl)]
    exact checkPin_fields rfl hsound.1
  | unresolved reason =>
    have hreason : (Row.fields ⟨rank, candidate, .unresolved reason⟩ : Fields ν).lookup (text "reason") = some (.str reason) := rfl
    have hblank : (!isBlank reason) = true := by
      rw [show isBlank reason = false from hsound]
      rfl
    have hpinned : (Outcome.unresolved reason).status ≠ text "pinned" := (by decide : text "unresolved" ≠ text "pinned")
    rw [if_neg hpinned, shown_str hreason, require_eq_ok]
    exact iff_of_true ⟨(isStr_str hstatus).mpr rfl, hblank⟩ trivial

/-- One row is let through when its key is new and its outcome secure. -/
theorem checkCandidate_fields {row : Row} (hrank : 0 < row.rank) (hsound : row.outcome.Sound) {seen after : List Text} :
    checkCandidate https seen (((row.fields : Fields ν), row.candidate), row.rank - 1) = .ok after ↔
      row.candidate.candidateKey ∉ seen ∧ row.outcome.IsSecure https ∧ after = seen ++ [row.candidate.candidateKey] := by
  have hstatus : (row.fields : Fields ν).lookup (text "status") = some (.str row.outcome.status) := rfl
  have hkey : (row.fields : Fields ν).lookup (text "candidate_key") = some (.str row.candidate.candidateKey) := rfl
  have hname : (row.fields : Fields ν).lookup (text "display_name") = some (.str row.candidate.displayName) := rfl
  have hkeys : ∀ label, checkFields ((row.fields : Fields ν).map Prod.fst)
      (if isStr (row.fields : Fields ν) "status" (text "pinned") then lockPinFields else lockUnresolvedFields) label = .ok () := by
    intro label
    refine checkFields_eq_ok.mpr fun name => ?_
    rw [row_fields_keys, if_congr (isStr_str hstatus) rfl rfl]
  have hranked : checkRank (row.fields : Fields ν) (row.rank - 1 + 1) = .ok () :=
    require_of (Nat.succ_pred_eq_of_pos hrank).symm
  have hcheck := @checkOutcome_fields ν https row hsound row.candidate.candidateKey
  rw [checkCandidate]
  dsimp only
  rw [hkeys, ok_bind, hranked, ok_bind, shown_str hkey]
  constructor
  · intro h
    obtain ⟨_, hnew, h⟩ := bind_eq_ok.mp h
    have hsecure : row.outcome.IsSecure https ∧ after = seen ++ [row.candidate.candidateKey] := by
      split at h
      all_goals
        rename_i hpinned
        obtain ⟨_, hpin, h⟩ := bind_eq_ok.mp h
        refine ⟨hcheck.mp ?_, (pure_eq_ok.mp h).symm⟩
      · rw [if_pos hpinned]
        exact hpin
      · rw [if_neg hpinned]
        exact hpin
    exact ⟨(require_eq_ok.mp hnew).2.2, hsecure⟩
  · rintro ⟨hnew, hsecure, rfl⟩
    have hpassed := hcheck.mpr hsecure
    rw [require_of ⟨rfl, (isStr_str hname).mpr rfl, hnew⟩, ok_bind]
    split at hpassed
    all_goals rename_i hpinned
    · rw [if_pos hpinned, hpassed]
      rfl
    · rw [if_neg hpinned, hpassed]
      rfl

/-- The loop over the rows. -/
theorem checkCandidates_fields {rows : List Row} (hranks : ∀ row ∈ rows, 0 < row.rank) (hsound : ∀ row ∈ rows, row.outcome.Sound)
    {seen : List Text} (hseen : seen.Nodup) :
    (∃ after, (rows.map fun row => (((row.fields : Fields ν), row.candidate), row.rank - 1)).foldlM
        (checkCandidate https) seen = .ok after) ↔
      (seen ++ rows.map fun row => row.candidate.candidateKey).Nodup ∧ ∀ row ∈ rows, row.outcome.IsSecure https := by
  induction rows generalizing seen with
  | nil => exact iff_of_true ⟨seen, rfl⟩ ⟨by simpa using hseen, fun _ h => by cases h⟩
  | cons row rows ih =>
    obtain ⟨hrank, hranks⟩ := List.forall_mem_cons.mp hranks
    obtain ⟨hrow, hsound⟩ := List.forall_mem_cons.mp hsound
    have hsplit : seen ++ (row :: rows).map (fun row => row.candidate.candidateKey) =
        (seen ++ [row.candidate.candidateKey]) ++ rows.map fun row => row.candidate.candidateKey := by
      rw [List.append_assoc]
      rfl
    rw [List.map_cons, List.foldlM_cons, List.forall_mem_cons, hsplit]
    constructor
    · rintro ⟨after, h⟩
      obtain ⟨_, hstep, h⟩ := bind_eq_ok.mp h
      obtain ⟨hnew, hsecure, rfl⟩ := (checkCandidate_fields hrank hrow).mp hstep
      obtain ⟨hnodup, hrows⟩ := (ih hranks hsound (by simpa using hseen.concat hnew)).mp ⟨after, h⟩
      exact ⟨hnodup, hsecure, hrows⟩
    · rintro ⟨hnodup, hsecure, hrows⟩
      have hnext : (seen ++ [row.candidate.candidateKey]).Nodup := (List.nodup_append.mp hnodup).1
      have hnew : row.candidate.candidateKey ∉ seen := fun hmem =>
        (List.nodup_append.mp hnext).2.2 _ hmem _ (List.mem_singleton_self _) rfl
      obtain ⟨after, h⟩ := (ih hranks hsound hnext).mpr ⟨hnodup, hrows⟩
      exact ⟨after, bind_eq_ok.mpr ⟨_, (checkCandidate_fields hrank hrow).mpr ⟨hnew, hsecure, rfl⟩, h⟩⟩

end Checks

section Loading

variable {ν : Type} {floats : FloatFormat ν} {loadsOther : Text → Option (Document ν)} {https : Text → Bool}
variable {acquisition : Acquisition} {state : MetadataState acquisition} {candidates : List Candidate} {rows : List Row}

/-- When the lock of an acquisition is loaded again. -/
structure Legible (https : Text → Bool) (acquisition : Acquisition) (snapshots : List Snapshot) (rows : List Row) : Prop where
  label : Plain acquisition.label
  authority : Plain acquisition.candidateAuthority
  snapshots : ∀ row ∈ snapshots, ∀ value ∈ row.texts, Plain value
  rows_some : rows ≠ []
  keys_nodup : (rows.map fun row => row.candidate.candidateKey).Nodup
  texts : ∀ row ∈ rows, ∀ value ∈ row.texts, Plain value
  secure : ∀ row ∈ rows, row.outcome.IsSecure https

theorem snapshots_some (state : MetadataState acquisition) : state.snapshots ≠ [] := by
  intro hempty
  have hlength := state.complete
  rw [hempty, List.length_nil] at hlength
  exact acquisition.resolvers_some (List.length_eq_zero_iff.mp hlength.symm)

theorem snapshot_plain_id (state : MetadataState acquisition) : ∀ row ∈ state.snapshots, Plain row.resolverId := fun row hrow =>
  plain_of_isToken (acquisition.resolvers_tokens _ (state.known row hrow))

theorem lockSections_named (snapshots : List Snapshot) (rows : List Row) :
    ∀ row ∈ (lockSections snapshots rows : List (Section ν)), row.1.IsNamed := by
  refine List.forall_mem_append.mpr ⟨?_, ?_⟩
  · rw [List.forall_mem_map]
    exact fun _ _ => (by decide : IsBare (text "metadata_snapshot"))
  · rw [List.forall_mem_map]
    exact fun _ _ => (by decide : IsBare (text "candidate"))

theorem lockSections_keyed (snapshots : List Snapshot) (rows : List Row) :
    ∀ row ∈ (lockSections snapshots rows : List (Section ν)), WellKeyed row.2 := by
  refine List.forall_mem_append.mpr ⟨?_, ?_⟩
  · rw [List.forall_mem_map]
    exact fun row _ => snapshot_fields_keyed row
  · rw [List.forall_mem_map]
    exact fun row _ => row_fields_keyed row

theorem lockSections_readable (state : MetadataState acquisition) (hsound : ∀ row ∈ rows, row.outcome.Sound) :
    (∀ row ∈ (lockSections state.snapshots rows : List (Section ν)), AllReadable (ascii floats) row.2) ↔
      (∀ row ∈ state.snapshots, ∀ value ∈ row.texts, Plain value) ∧ ∀ row ∈ rows, ∀ value ∈ row.texts, Plain value := by
  rw [lockSections, List.forall_mem_append, List.forall_mem_map, List.forall_mem_map]
  exact and_congr
    (forall₂_congr fun row hrow => snapshot_readable (snapshot_plain_id state row hrow) (state.digests row hrow))
    (forall₂_congr fun row hrow => row_readable (hsound row hrow))

theorem addSnapshots {snapshots : List Snapshot} (hsnapshots : snapshots ≠ []) :
    (snapshots.map fun row => ((.element (text "metadata_snapshot"), row.fields) : Section ν)).foldlM addSection
        ⟨rootFields acquisition, .empty, .empty⟩ =
      some ⟨rootFields acquisition, .empty, Dict.empty.set (text "metadata_snapshot") (snapshots.map Snapshot.fields)⟩ := by
  have hroot : text "metadata_snapshot" ∉ (rootFields acquisition : Fields ν).map Prod.fst :=
    (by decide : text "metadata_snapshot" ∉ ["schema_version", "id", "label", "candidate_authority",
      "candidate_authority_sha256", "resolution_algorithm"].map text)
  have hadd := @foldlM_addElements ν ⟨rootFields acquisition, .empty, .empty⟩ (text "metadata_snapshot") hroot rfl rfl
    (snapshots.map Snapshot.fields) (by simpa using hsnapshots)
  rwa [List.map_map] at hadd

theorem addCandidates {arrays : Dict Text (List (Fields ν))} (harrays : arrays.get? (text "candidate") = none)
    (hrows : rows ≠ []) :
    (rows.map fun row => ((.element (text "candidate"), row.fields) : Section ν)).foldlM addSection
        ⟨rootFields acquisition, .empty, arrays⟩ =
      some ⟨rootFields acquisition, .empty, arrays.set (text "candidate") (rows.map Row.fields)⟩ := by
  have hroot : text "candidate" ∉ (rootFields acquisition : Fields ν).map Prod.fst :=
    (by decide : text "candidate" ∉ ["schema_version", "id", "label", "candidate_authority",
      "candidate_authority_sha256", "resolution_algorithm"].map text)
  have hadd := @foldlM_addElements ν ⟨rootFields acquisition, .empty, arrays⟩ (text "candidate") hroot rfl harrays
    (rows.map Row.fields) (by simpa using hrows)
  rwa [List.map_map] at hadd

/-- The sections of a lock make its document, which has no array of candidates if there are none. -/
theorem addSections_lock {snapshots : List Snapshot} (hsnapshots : snapshots ≠ []) (rows : List Row) :
    ((.root, rootFields acquisition) :: lockSections snapshots rows).foldlM addSection (.empty : Document ν) =
      some (if rows = [] then
        ⟨rootFields acquisition, .empty, Dict.empty.set (text "metadata_snapshot") (snapshots.map Snapshot.fields)⟩
        else lockDocument acquisition snapshots rows) := by
  have hstart : addSection (.empty : Document ν) (.root, rootFields acquisition) =
      some ⟨rootFields acquisition, .empty, .empty⟩ := rfl
  rw [List.foldlM_cons, hstart, lockSections]
  refine (List.foldlM_append).trans ?_
  rw [addSnapshots hsnapshots]
  by_cases hrows : rows = []
  · rw [if_pos hrows, hrows]
    rfl
  · rw [if_neg hrows]
    exact addCandidates rfl hrows

/-- The rows of the loop, from what the resolution says of their ranks. -/
theorem zipIdx_rows (h : resolveRows acquisition state candidates = .ok rows) :
    ((rows.map fun row => (row.fields : Fields ν)).zip candidates).zipIdx =
      rows.map fun row => ((row.fields, row.candidate), row.rank - 1) := by
  have hranked := resolveRows_ranked h
  have hlength : rows.length = candidates.length := by simpa using congrArg List.length hranked
  refine List.ext_getElem (by simp [hlength]) fun i hi hi' => ?_
  have hrow : i < rows.length := by simpa using hi'
  have hcandidate : i < candidates.length := hlength ▸ hrow
  have hget : (rows[i].candidate, rows[i].rank - 1) = (candidates[i], i) := by
    have hentry := List.getElem_of_eq hranked (i := i) (by simpa using hrow)
    simpa using hentry
  obtain ⟨hkey, hrank⟩ := Prod.mk.inj hget
  simp [hkey, hrank]

/-- Every lock that the resolution writes passes the loader's checks, but for its keys and URLs. -/
theorem checkLock_lockDocument (hresolve : resolveRows acquisition state candidates = .ok rows) (hrows : rows ≠ []) :
    checkLock https acquisition candidates (lockDocument acquisition state.snapshots rows : Document ν) = .ok () ↔
      (rows.map fun row => row.candidate.candidateKey).Nodup ∧ ∀ row ∈ rows, row.outcome.IsSecure https := by
  have hkeys : checkFields (documentKeys (lockDocument acquisition state.snapshots rows : Document ν)) lockFields
      "source acquisition lock" = .ok () := checkFields_eq_ok.mpr fun _ => Iff.rfl
  have hsnapshots : (lockDocument acquisition state.snapshots rows : Document ν).arrays.get? (text "metadata_snapshot") =
      some (state.snapshots.map Snapshot.fields) := rfl
  have hcandidates : (lockDocument acquisition state.snapshots rows : Document ν).arrays.get? (text "candidate") =
      some (rows.map Row.fields) := rfl
  have hlength : rows.length = candidates.length := by simpa using congrArg List.length (resolveRows_ranked hresolve)
  have hchecked : (state.snapshots.map fun row => (row.fields : Fields ν)).mapM (checkSnapshot acquisition) =
      .ok ((state.snapshots.map fun row => (row.fields : Fields ν)).map fun _ => ()) := by
    refine mapM_of_ok (List.forall_mem_map.mpr fun row hrow => ?_)
    exact checkSnapshot_fields (state.known row hrow) (state.digests row hrow)
  rw [checkLock, hkeys, ok_bind, require_of (by exact rootFields_checked acquisition), ok_bind, hsnapshots, hcandidates]
  dsimp only
  rw [require_of (by rw [List.length_map]; exact state.complete), ok_bind, hchecked, ok_bind,
    require_of (by simpa using hrows), ok_bind, require_of (by rw [List.length_map]; exact hlength), ok_bind,
    zipIdx_rows hresolve, ← List.nil_append (rows.map fun row => row.candidate.candidateKey),
    ← checkCandidates_fields (resolveRows_ranks hresolve) (resolveRows_sound hresolve) List.nodup_nil]
  constructor
  · intro h
    obtain ⟨after, hafter, -⟩ := bind_eq_ok.mp h
    exact ⟨after, hafter⟩
  · rintro ⟨after, hafter⟩
    exact bind_eq_ok.mpr ⟨after, hafter, rfl⟩

/-- A lock without candidates has no array of them. -/
theorem checkLock_empty (arrays : List (Fields ν)) : checkLock https acquisition candidates
    ⟨rootFields acquisition, .empty, Dict.empty.set (text "metadata_snapshot") arrays⟩ ≠ .ok () := by
  intro h
  obtain ⟨_, hkeys, -⟩ := bind_eq_ok.mp h
  have hmissing := (checkFields_eq_ok.mp hkeys (text "candidate")).mpr (by decide)
  exact absurd hmissing (by decide : text "candidate" ∉ ["schema_version", "id", "label", "candidate_authority",
    "candidate_authority_sha256", "resolution_algorithm", "metadata_snapshot"].map text)

end Loading

section Sample

/-- A lock has no floats. -/
def sampleFloats : FloatFormat (Fin 0) where
  repr x := x.elim0
  parse _ := none
  parse_repr x := x.elim0
  repr_chars x := x.elim0
  repr_float x := x.elim0

def sampleResolver : Resolver := ⟨text "homebrew", text "homebrew-formula-json", text "https://formulae.brew.sh/api/formula.json"⟩

def sampleAcquisition : Acquisition where
  id := text "c-libraries"
  label := text "C libraries"
  candidateAuthority := text "sources/candidates.csv"
  candidateAuthoritySha256 := List.replicate 64 48
  resolvers := [sampleResolver]
  aliases := []
  preferences := []
  rewrites := [⟨text "mirror", text "homebrew", text "https://zlib.net/", text "https://mirror.net/"⟩]
  declarations := []
  id_token := by decide
  authority_digest := by decide
  resolvers_some := by decide
  resolvers_nodup := by decide
  resolvers_tokens := by decide
  aliases_nodup := List.nodup_nil
  preferences_nodup := List.nodup_nil
  rewrites_tokens := by decide
  declarations_nodup := List.nodup_nil

def sampleRecord : Record where
  registryKey := text "zlib"
  version := text "1.3"
  releasePage := text "https://formulae.brew.sh/formula/zlib"
  url := text "https://zlib.net/zlib-1.3.tar.gz"
  sha256 := List.replicate 64 49
  downloadBytes := 0
  filename := text "zlib-1.3.tar.gz"
  metadataAlias := false
  digest := by decide

def sampleState : MetadataState sampleAcquisition where
  snapshots := [⟨text "homebrew", text "homebrew-formula-json", text "https://formulae.brew.sh/api/formula.json",
    List.replicate 64 50, 12, fun key => if key = text "zlib" then [sampleRecord] else []⟩]
  complete := rfl
  known := by decide
  digests := by decide

def sampleCandidates : List Candidate := [⟨text "zlib", text "zlib"⟩, ⟨text "mystery", text "Mystery"⟩]

def samplePin : Pin := pinOf (text "homebrew") (text "exact") (text "https://mirror.net/zlib-1.3.tar.gz") (text "mirror") sampleRecord

def sampleRows : List Row :=
  [⟨1, ⟨text "zlib", text "zlib"⟩, .pinned samplePin⟩,
    ⟨2, ⟨text "mystery", text "Mystery"⟩, .unresolved (text "no unique checksum-pinned source resolved")⟩]

def hasScheme (url : Text) : Bool := decide (text "https://" <+: url)

end Sample

end FidbPoc.Sources.Resolution
