import FidbPoc.Noise.Decisions
import Mathlib.Data.List.TakeWhile

namespace FidbPoc.Noise

open FidbPoc.Lib FidbPoc.Lib.Checked FidbPoc.Lib.Toml

section Texts

variable {value : Text} {c : CodePoint}

theorem plain_of_val_lt (h : c.val < 0xD800) : IsPlain c := ⟨by unfold IsSurrogate; omega, by omega⟩

theorem plain_append {value' : Text} (h : Plain value) (h' : Plain value') : Plain (value ++ value') := by
  intro c hc
  rcases List.mem_append.mp hc with hc | hc
  · exact h c hc
  · exact h' c hc

theorem plain_of_isSpace (h : isSpace c = true) : IsPlain c := by
  refine plain_of_val_lt ?_
  simp only [isSpace, Bool.or_eq_true, Bool.and_eq_true, decide_eq_true_eq] at h
  omega

theorem mem_of_mem_strip (h : c ∈ strip value) : c ∈ value := by
  have hfront := (List.dropWhile_sublist isSpace).subset (List.mem_reverse.mp h)
  exact (List.dropWhile_sublist isSpace).subset (List.mem_reverse.mp hfront)

/-- Only whitespace is stripped. -/
theorem mem_dropWhile_or {p : CodePoint → Bool} (h : c ∈ value) : p c = true ∨ c ∈ value.dropWhile p := by
  rw [← @List.takeWhile_append_dropWhile _ p value, List.mem_append] at h
  exact h.imp_left List.mem_takeWhile_imp

theorem mem_strip_or (h : c ∈ value) : isSpace c = true ∨ c ∈ strip value := by
  rcases mem_dropWhile_or (p := isSpace) h with hspace | hfront
  · exact .inl hspace
  · exact (mem_dropWhile_or (List.mem_reverse.mpr hfront)).imp_right List.mem_reverse.mpr

theorem plain_strip : Plain (strip value) ↔ Plain value := by
  constructor
  · intro h c hc
    rcases mem_strip_or hc with hspace | hc
    · exact plain_of_isSpace hspace
    · exact h c hc
  · exact fun h c hc => h c (mem_of_mem_strip hc)

theorem strip_eq_nil : strip value = [] ↔ ∀ c ∈ value, isSpace c = true := by
  constructor
  · intro h c hc
    rcases mem_strip_or hc with hspace | hc
    · exact hspace
    · rw [h] at hc
      cases hc
  · intro h
    rw [strip, List.dropWhile_eq_nil_iff.mpr h]
    rfl

theorem strip_strip_ne_nil (h : strip value ≠ []) : strip (strip value) ≠ [] := by
  intro hempty
  refine h (strip_eq_nil.mpr fun c hc => ?_)
  rcases mem_strip_or hc with hspace | hc
  · exact hspace
  · exact strip_eq_nil.mp hempty c hc

theorem plain_padded (width n : Nat) : Plain (padded width n) := by
  intro c hc
  obtain ⟨i, -, rfl⟩ := List.mem_map.mp hc
  have hall : ∀ d < 10, IsPlain (ofChar (Nat.digitChar d)) := by decide
  exact hall _ (Nat.mod_lt (n / 10 ^ i) (by decide))

theorem plain_isoformat (now : Moment) : Plain now.isoformat := by
  have hmicrosecond : Plain (if now.microsecond = 0 then [] else text "." ++ padded 6 now.microsecond) := by
    split
    · exact fun _ h => by cases h
    · exact plain_append (by decide) (plain_padded _ _)
  unfold Moment.isoformat
  repeat' apply plain_append
  all_goals first | exact plain_padded _ _ | exact hmicrosecond | decide

theorem plain_of_isHex (h : value.all isHex = true) : Plain value := by
  intro c hc
  have hhex := List.all_eq_true.mp h c hc
  simp only [isHex, Bool.or_eq_true, Bool.and_eq_true, decide_eq_true_eq] at hhex
  exact plain_of_val_lt (by omega)

theorem plain_signatureId (h : isSignatureId value = true) : Plain value := by
  simp only [isSignatureId, Bool.and_eq_true, decide_eq_true_eq] at h
  rw [← List.take_append_drop 6 value, h.1.1]
  exact plain_append (by decide) (plain_of_isHex h.2)

theorem plain_allowedState (h : value ∈ allowedStates) : Plain value := by
  have hall : ∀ state ∈ allowedStates, Plain state := by decide
  exact hall value h

end Texts

section Files

variable {settings : Settings} {files : Files} {path : Path} {content : Text} {evidence : Evidence}

/-- A file that `_decision_files` reads and accepts. -/
def Accepted (settings : Settings) (content : Text) : Prop :=
  ∃ document, loads settings.loadsOther content = some document ∧ isDecision document = true

theorem addDecision_isOk {decisions : Dict Text Decision} {file : Path × Text} :
    (∃ decisions', addDecision settings decisions file = .ok decisions') ↔ Accepted settings file.2 := by
  unfold addDecision Accepted
  cases loads settings.loadsOther file.2 with
  | none => exact ⟨fun ⟨_, h⟩ => (by cases h), fun ⟨_, h, _⟩ => by cases h⟩
  | some document =>
    simp only [bind_eq_ok, require_eq_ok, pure_eq_ok, exists_const, Option.some.injEq]
    constructor
    · rintro ⟨_, hdecision, _⟩
      exact ⟨document, rfl, hdecision⟩
    · rintro ⟨_, rfl, hdecision⟩
      exact ⟨_, hdecision, rfl⟩

/-- One file that is not accepted blocks the reading of them all. -/
theorem decisionFiles_isOk : (∃ decisions, decisionFiles settings files = .ok decisions) ↔
    ∀ file ∈ files.entries, settings.selected file.1 = true → Accepted settings file.2 := by
  rw [decisionFiles, foldlM_isOk fun decisions file => @addDecision_isOk settings decisions file]
  refine forall_congr' fun file => ?_
  rw [sortedGlob, List.mem_insertionSort, List.mem_filter, and_imp]

theorem decisionFiles_set (h : ∃ decisions, decisionFiles settings files = .ok decisions)
    (haccepted : Accepted settings content) :
    ∃ decisions, decisionFiles settings (files.set path content) = .ok decisions := by
  rw [decisionFiles_isOk] at h ⊢
  rintro ⟨path', content'⟩ hfile hselected
  have hget := Dict.get?_eq_some_iff.mpr hfile
  rw [Dict.get?_set] at hget
  split at hget
  · obtain rfl := Option.some.inj hget
    exact haccepted
  · exact h _ (Dict.get?_eq_some_iff.mp hget) hselected

theorem ledgerRow_isOk {group : Text × Text} {decisions decisions' : Dict Text Decision}
    (h : ∃ row, ledgerRow settings decisions group = .ok row) : ∃ row, ledgerRow settings decisions' group = .ok row := by
  simp only [ledgerRow, bind_eq_ok, require_eq_ok, pure_eq_ok, exists_const] at h ⊢
  obtain ⟨_, hencoded, _⟩ := h
  exact ⟨_, hencoded, rfl⟩

/-- The ledger compiles for the same evidence as long as the decisions can be read. -/
theorem compileNoisyHashes_isOk {files' : Files} (h : ∃ status, compileNoisyHashes settings evidence files = .ok status)
    (hread : (∃ decisions, decisionFiles settings files = .ok decisions) →
      ∃ decisions, decisionFiles settings files' = .ok decisions) :
    ∃ status, compileNoisyHashes settings evidence files' = .ok status := by
  simp only [compileNoisyHashes, bind_eq_ok, pure_eq_ok] at h ⊢
  obtain ⟨_, decisions, hdecisions, rows, hrows, _⟩ := h
  obtain ⟨decisions', hdecisions'⟩ := hread ⟨decisions, hdecisions⟩
  obtain ⟨rows', hrows'⟩ : ∃ rows', evidence.groups.mapM (ledgerRow settings decisions') = .ok rows' := by
    refine mapM_total fun group hgroup => ?_
    obtain ⟨row, -, hrow⟩ := mapM_mem hrows group hgroup
    exact ledgerRow_isOk ⟨row, hrow⟩
  exact ⟨_, decisions', hdecisions', rows', hrows', rfl⟩

end Files

section Saved

variable {settings : Settings} {evidence : Evidence} {files files' : Files} {request : Request} {now : Moment}
  {status : Status} {document : Document}

/-- A digest in lowercase hexadecimal. -/
def IsDigest (value : Text) : Prop := value.length = 64 ∧ value.all isHex = true

theorem compileNoisyHashes_rows (hsha : ∀ value, IsDigest (settings.sha256 value))
    (h : compileNoisyHashes settings evidence files = .ok status) :
    (∀ row ∈ status.hashes, isSignatureId row.signatureId = true) ∧ IsDigest status.statusDigest := by
  simp only [compileNoisyHashes, bind_eq_ok, pure_eq_ok] at h
  obtain ⟨decisions, -, rows, hrows, rfl⟩ := h
  refine ⟨fun row hrow => ?_, hsha _⟩
  obtain ⟨group, -, hgroup⟩ := mem_mapM hrows row hrow
  simp only [ledgerRow, bind_eq_ok, require_eq_ok, pure_eq_ok, exists_const] at hgroup
  obtain ⟨_, -, rfl⟩ := hgroup
  obtain ⟨hlength, hhex⟩ := hsha (group.1 ++ ofChar '\x00' :: group.2)
  have hstart : (text "noise-").length = 6 := by decide
  simp only [isSignatureId, Bool.and_eq_true, decide_eq_true_eq]
  refine ⟨⟨?_, ?_⟩, ?_⟩
  · exact List.take_left' hstart
  · rw [List.length_append, hstart, List.length_take, hlength]
    rfl
  · rw [List.drop_left' hstart]
    exact List.all_eq_true.mpr fun c hc => List.all_eq_true.mp hhex c (List.mem_of_mem_take hc)

theorem writeDecision_eq_ok (hstatus : compileNoisyHashes settings evidence files = .ok status)
    (h : writeDecision settings evidence files request now = .ok (document, files')) :
    ∃ row, status.hashes.filter (fun row => decide (row.signatureId = request.signatureId)) = [row] ∧
      request.state ∈ allowedStates ∧ strip request.reason ≠ [] ∧
      document = ⟨request.signatureId, row.scope, row.signature, request.state, strip request.reason,
        strip request.reviewedBy, now.isoformat, status.statusDigest⟩ ∧
      files' = files.set (destination request.signatureId) document.rendered := by
  rw [writeDecision, hstatus, ok_bind] at h
  split at h
  · next row hrow =>
    simp only [bind_eq_ok, require_eq_ok, pure_eq_ok, exists_const, Prod.mk.injEq] at h
    obtain ⟨hstate, hreason, -, rfl, rfl⟩ := h
    exact ⟨row, hrow, hstate, hreason.1, rfl, rfl⟩
  · cases h

theorem keys_bare (document : Document) : ∀ pair ∈ document.pairs, IsBare pair.1 := by
  have hkeys : ∀ key ∈ [text "schema_version", text "signature_id", text "scope", text "signature", text "state",
      text "reason", text "reviewed_by", text "reviewed_at", text "source_status_digest"],
      key ≠ [] ∧ key.all (fun c => decide (IsBareKey c)) = true := by
    decide
  intro pair hpair
  have hmem : pair.1 ∈ document.pairs.map Prod.fst := List.mem_map_of_mem hpair
  obtain ⟨hne, hall⟩ := hkeys pair.1 hmem
  exact ⟨hne, fun c hc => of_decide_eq_true (List.all_eq_true.mp hall c hc)⟩

theorem keys_nodup (document : Document) : (document.pairs.map Prod.fst).Nodup := by
  have hkeys : ([text "schema_version", text "signature_id", text "scope", text "signature", text "state",
      text "reason", text "reviewed_by", text "reviewed_at", text "source_status_digest"] : List Text).Nodup := by
    decide
  exact hkeys

/-- A rendered decision loads as its own fields, or not at all. -/
theorem loads_rendered (loadsOther : Text → Option Fields) (document : Document) :
    loads loadsOther document.rendered =
      if ∀ pair ∈ document.pairs, Plain pair.2 then some document.fields else none :=
  loads_renderPairs (keys_bare document) (keys_nodup document)

theorem isDecision_fields (hid : isSignatureId document.signatureId = true) (hstate : document.state ∈ allowedStates)
    (hreason : strip document.reason ≠ []) : isDecision document.fields = true := by
  have hget : stringAt document.fields "schema_version" = some decisionSchema ∧
      stringAt document.fields "signature_id" = some document.signatureId ∧
      stringAt document.fields "state" = some document.state ∧
      stringAt document.fields "reason" = some document.reason := ⟨rfl, rfl, rfl, rfl⟩
  obtain ⟨h1, h2, h3, h4⟩ := hget
  rw [isDecision, h1, h2, h3, h4]
  simp [hid, hstate, hreason]

/-- A saved decision loads as it was saved and leaves the ledger readable exactly when no character of its scope,
signature, reason and reviewer lies above the basic plane or is a surrogate. -/
theorem saved_decision_readable_iff (hsha : ∀ value, IsDigest (settings.sha256 value))
    (hstatus : compileNoisyHashes settings evidence files = .ok status)
    (hwrite : writeDecision settings evidence files request now = .ok (document, files')) :
    (loads settings.loadsOther document.rendered = some document.fields ∧ isDecision document.fields = true ∧
      ∀ evidence', (∃ status, compileNoisyHashes settings evidence' files = .ok status) →
        ∃ status, compileNoisyHashes settings evidence' files' = .ok status) ↔
      (∀ row ∈ status.hashes, row.signatureId = request.signatureId → Plain row.scope ∧ Plain row.signature) ∧
        Plain request.reason ∧ Plain request.reviewedBy := by
  obtain ⟨row, hrow, hstate, hreason, rfl, rfl⟩ := writeDecision_eq_ok hstatus hwrite
  obtain ⟨hids, hdigest⟩ := compileNoisyHashes_rows hsha hstatus
  have hmatch : ∀ row', row' ∈ status.hashes ∧ row'.signatureId = request.signatureId ↔ row' = row := by
    intro row'
    have hmem : row' ∈ status.hashes.filter (fun row => decide (row.signatureId = request.signatureId)) ↔
        row' = row := by
      rw [hrow, List.mem_singleton]
    rwa [List.mem_filter, decide_eq_true_eq] at hmem
  have hid : isSignatureId request.signatureId = true := by
    obtain ⟨hmem, hsame⟩ := (hmatch row).mpr rfl
    exact hsame ▸ hids row hmem
  have hrows : (∀ row ∈ status.hashes, row.signatureId = request.signatureId → Plain row.scope ∧ Plain row.signature) ↔
      Plain row.scope ∧ Plain row.signature := by
    constructor
    · intro h
      obtain ⟨hmem, hsame⟩ := (hmatch row).mpr rfl
      exact h row hmem hsame
    · rintro h row' hmem hsame
      obtain rfl := (hmatch row').mp ⟨hmem, hsame⟩
      exact h
  rw [loads_rendered, hrows]
  have hplain : (∀ pair ∈ (Document.pairs ⟨request.signatureId, row.scope, row.signature, request.state,
      strip request.reason, strip request.reviewedBy, now.isoformat, status.statusDigest⟩), Plain pair.2) ↔
      (Plain row.scope ∧ Plain row.signature) ∧ Plain request.reason ∧ Plain request.reviewedBy := by
    have hschema : Plain decisionSchema := by decide
    simp only [Document.pairs, List.forall_mem_cons, plain_strip, hschema, plain_signatureId hid,
      plain_allowedState hstate, plain_isoformat, plain_of_isHex hdigest.2]
    simp [and_assoc]
  rw [← hplain]
  constructor
  · rintro ⟨hloads, -, -⟩
    by_contra hnot
    rw [if_neg hnot] at hloads
    cases hloads
  · intro h
    have hdecision := @isDecision_fields ⟨request.signatureId, row.scope, row.signature, request.state,
      strip request.reason, strip request.reviewedBy, now.isoformat, status.statusDigest⟩ hid hstate
      (strip_strip_ne_nil hreason)
    refine ⟨if_pos h, hdecision, fun evidence' hcompiled => ?_⟩
    refine compileNoisyHashes_isOk hcompiled fun hread => decisionFiles_set hread ⟨_, ?_, hdecision⟩
    rw [loads_rendered, if_pos h]

end Saved

namespace Reviewed

/-- The digests of the texts below. -/
def sha256 (value : Text) : Text :=
  if value = text "x86_64" ++ ofChar '\x00' :: text "aa:bb:1:2" then
    text "f132df8e103881d5011533571831f2609e628e39e07fb4f6e5e471f4b9864195"
  else text "44136fa355b3678a1146ad16f7e8649e94fb4fc21fe77e8310c060f61caaff8a"

def settings : Settings where
  root := text "/srv/fidb"
  selected path := path.take 2 = [text "validation", text "noisy-hash-decisions"]
  loadsOther _ := none
  sha256 := sha256

/-- One collision, and an empty body `{}` around it. -/
def evidence : Evidence := ⟨[(text "x86_64", text "aa:bb:1:2")], fun _ => text "{}"⟩

def now : Moment := ⟨2026, 1, 1, 12, 0, 0, 0⟩

def request (reason : Text) : Request :=
  ⟨text "noise-" ++ (text "f132df8e103881d5011533571831f2609e628e39e07fb4f6e5e471f4b9864195").take 24, text "quarantine", reason, text "local-operator"⟩

/-- A reason in the basic plane is read back. -/
theorem accented_reason_readable :
    ∃ document files', writeDecision settings evidence Dict.empty (request (text "prólogo común")) now =
        .ok (document, files') ∧
      loads settings.loadsOther document.rendered = some document.fields := by
  have hsha : ∀ value, IsDigest (settings.sha256 value) := by
    intro value
    show IsDigest (sha256 value)
    unfold sha256
    split
    · exact ⟨by decide, by decide⟩
    · exact ⟨by decide, by decide⟩
  have hwritten : (writeDecision settings evidence Dict.empty (request (text "prólogo común")) now).isOk = true := by
    decide +kernel
  cases hstatus : compileNoisyHashes settings evidence Dict.empty with
  | error error =>
    rw [writeDecision, hstatus] at hwritten
    cases hwritten
  | ok status =>
    cases hwrite : writeDecision settings evidence Dict.empty (request (text "prólogo común")) now with
    | error error =>
      rw [hwrite] at hwritten
      cases hwritten
    | ok written =>
      have hiff := saved_decision_readable_iff hsha hstatus hwrite
      refine ⟨written.1, written.2, rfl, (hiff.mpr ⟨?_, by decide, by decide⟩).1⟩
      have hrows : (compileNoisyHashes settings evidence Dict.empty).map
          (fun status => status.hashes.all fun row => decide (Plain row.scope ∧ Plain row.signature)) = .ok true := by
        decide +kernel
      rw [hstatus] at hrows
      intro row hrow _
      exact of_decide_eq_true (List.all_eq_true.mp (Except.ok.inj hrows) row hrow)

/-- A reason with a character above the basic plane is saved as two escapes that no TOML parser reads, and the ledger
cannot be compiled again. -/
theorem emoji_reason_blocks_ledger :
    ∃ document files', writeDecision settings evidence Dict.empty (request (text "shared startup 😀")) now =
        .ok (document, files') ∧
      ¬ (loads settings.loadsOther document.rendered = some document.fields ∧ isDecision document.fields = true ∧
        ∀ evidence', (∃ status, compileNoisyHashes settings evidence' Dict.empty = .ok status) →
          ∃ status, compileNoisyHashes settings evidence' files' = .ok status) ∧
      ∀ status, compileNoisyHashes settings evidence files' ≠ .ok status := by
  have hwritten : ∃ document files', writeDecision settings evidence Dict.empty (request (text "shared startup 😀")) now =
      .ok (document, files') ∧ loads settings.loadsOther document.rendered = none ∧
        files' = Dict.empty.set (destination (request []).signatureId) document.rendered := by
    refine ⟨_, _, rfl, ?_, rfl⟩
    decide +kernel
  obtain ⟨document, files', hwrite, hloads, rfl⟩ := hwritten
  have hselected : settings.selected (destination (request []).signatureId) = true := by decide +kernel
  have hblocked : ∀ status, compileNoisyHashes settings evidence
      (Dict.empty.set (destination (request []).signatureId) document.rendered) ≠ .ok status := by
    intro status h
    simp only [compileNoisyHashes, bind_eq_ok] at h
    obtain ⟨decisions, hdecisions, -⟩ := h
    have hread := decisionFiles_isOk.mp ⟨decisions, hdecisions⟩
      (destination (request []).signatureId, document.rendered) List.mem_cons_self hselected
    obtain ⟨_, hread, -⟩ := hread
    rw [hloads] at hread
    cases hread
  refine ⟨document, _, hwrite, ?_, hblocked⟩
  rintro ⟨hreadable, -, -⟩
  rw [hloads] at hreadable
  cases hreadable

end Reviewed

end FidbPoc.Noise
