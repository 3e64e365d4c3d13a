import FidbPoc.Coordinator.Config
import FidbPoc.Operations.Loading

namespace FidbPoc.Selection

open FidbPoc.Lib FidbPoc.Lib.Checked
open FidbPoc.Operations (Result Fault expect onlyKeys)

/-- The parts of a path below the project root. -/
abbrev Path := List String

/-- The content of a file: a TOML document, or something else, as a ledger is. -/
inductive File
  | toml (document : Json.Fields)
  | other (bytes : String)

inductive Entry
  | file (content : File)
  | directory

abbrev Files := Path → Option Entry

def Entry.content : Entry → Option File
  | .file content => some content
  | .directory => none

/-- What a reference of the registry resolves to. -/
inductive Resolution
  | absolute
  | symlink
  | escapes
  | inside (path : Path)

/-- `Coordinator.status`, the numbers that a switch does not read aside. -/
structure LedgerStatus where
  status : String
  armed : Bool
  leased : Nat
  running : Nat

/-- What a project fixes: where the registry lies, how references resolve and what the readers of the other files make of
them. -/
structure Project where
  authority : Path
  resolve : String → Resolution
  sha256 : File → String
  bindingDigest : Json.Fields → String
  queueConfig : Files → Path → Result Coordinator.QueueConfig
  priorityOverlay : Files → Path → Result Nat
  ledgerStatus : File → Result LedgerStatus

inductive State
  | configured
  | planned
  | retired
  deriving DecidableEq

def State.text : State → String
  | .configured => "configured"
  | .planned => "planned"
  | .retired => "retired"

def State.ofText? (text : String) : Option State :=
  [State.configured, .planned, .retired].find? fun state => state.text = text

structure CampaignBinding where
  id : String
  label : String
  familyId : String
  sliceId : String
  host : String
  state : State
  phase : String
  queue : Option Path
  ledger : Path
  programme : Option Path
  priority : Option Path
  authorityDigests : Json.Fields
  prioritySubjects : Nat
  digest : String

def CampaignBinding.selectable (binding : CampaignBinding) : Bool := binding.state = .configured ∧ binding.queue.isSome

structure CampaignRegistry where
  defaultCampaign : String
  selectionPath : Path
  campaigns : List CampaignBinding

def CampaignRegistry.byId (registry : CampaignRegistry) (campaignId : String) : Result CampaignBinding :=
  match registry.campaigns.filter fun row => row.id = campaignId with
  | [row] => pure row
  | _ => .error (.value s!"unknown campaign: {campaignId}")

section Reading

def text (value : Option Json) (context : String) : Result String := do
  let result ← expect ((value.bind Json.str?).filter fun text => Coordinator.Trimmed text.toList)
    s!"{context} must be a non-empty string without outer whitespace"
  require (result.toList.all fun c => 32 ≤ c.toNat && c.toNat != 127) (.value s!"{context} contains control characters")
  pure result

def identifier (value : Option Json) (context : String) : Result String := do
  let result ← text value context
  require (result.toList.head?.any Coordinator.isIdentifierStart && result.toList.all Coordinator.isIdentifierRest)
    (.value s!"{context} must be a stable identifier")
  pure result

variable (p : Project) (files : Files)

def inside (value : Option Json) (context : String) : Result Path := do
  let reference ← text value context
  match p.resolve reference with
  | .absolute => .error (.value s!"{context} must be relative to the project root")
  | .symlink => .error (.value s!"{context} cannot be a symlink")
  | .escapes => .error (.value s!"{context} escapes the project root")
  | .inside path => pure path

def fileAt (path : Path) : Option File := (files path).bind Entry.content

def reference (path : Path) : String := "/".intercalate path

/-- `_file_authority`. -/
def fileAuthority (value : Json) (context : String) : Result Path := do
  let path ← inside p (some value) context
  require (fileAt files path).isSome (.value s!"{context} is not a file: {reference path}")
  pure path

/-- A file authority that a row may leave out. -/
def optionalAuthority (row : Json.Fields) (key context : String) : Result (Option Path) :=
  match row.get? key with
  | none => pure none
  | some value => some <$> fileAuthority p files value context

/-- A path that must lie below `var/`. -/
def belowVar (value : Option Json) (context : String) : Result Path := do
  let path ← inside p value context
  require (path.head? = some "var") (.value s!"{context} must live below var/")
  pure path

def digestField (key : String) (path : Option Path) : Json.Fields :=
  ((path.bind (fileAt files)).map fun content => (key, .str (p.sha256 content))).toList

def optionalReference (path : Option Path) : Json := (path.map fun path => Json.str (reference path)).getD .null

/-- One row of the registry, after the campaigns before it. -/
def loadBinding (campaigns : List CampaignBinding) (item : Json × Nat) : Result CampaignBinding := do
  let position := s!"campaign {item.2 + 1}"
  let row ← expect item.1.fields? s!"{position} must be a table"
  onlyKeys row ["id", "label", "family_id", "slice_id", "host", "state", "phase", "queue", "ledger", "programme",
    "priority_authority"] position
  let id ← identifier (row.get? "id") s!"{position} id"
  require (id ∉ campaigns.map CampaignBinding.id) (.value s!"duplicate campaign id: {id}")
  let stateText ← text (row.get? "state") s!"campaign {id} state"
  let state ← expect (State.ofText? stateText) s!"campaign {id} state must be one of ['configured', 'planned', 'retired']"
  let ledger ← belowVar p (row.get? "ledger") s!"campaign {id} ledger"
  let queue ← optionalAuthority p files row "queue" s!"campaign {id} queue"
  let _ ← queue.mapM (p.queueConfig files)
  require (state = .configured → queue.isSome) (.value s!"configured campaign {id} requires a queue")
  let programme ← optionalAuthority p files row "programme" s!"campaign {id} programme"
  let priority ← optionalAuthority p files row "priority_authority" s!"campaign {id} priority authority"
  let prioritySubjects ← priority.mapM (p.priorityOverlay files)
  let authorityDigests := digestField p files "queue_sha256" queue ++ digestField p files "programme_sha256" programme ++
    digestField p files "priority_sha256" priority
  let label ← text (row.get? "label") s!"campaign {id} label"
  let familyId ← identifier (row.get? "family_id") s!"campaign {id} family_id"
  let sliceId ← identifier (row.get? "slice_id") s!"campaign {id} slice_id"
  let host ← identifier (row.get? "host") s!"campaign {id} host"
  let phase ← text (row.get? "phase") s!"campaign {id} phase"
  let identity : Json.Fields := [("id", .str id), ("label", .str label), ("family_id", .str familyId),
    ("slice_id", .str sliceId), ("host", .str host), ("state", .str state.text), ("phase", .str phase),
    ("queue", optionalReference queue), ("ledger", .str (reference ledger)), ("programme", optionalReference programme),
    ("priority_authority", optionalReference priority), ("authority_digests", .obj authorityDigests)]
  pure { id, label, familyId, sliceId, host, state, phase, queue, ledger, programme, priority, authorityDigests
         prioritySubjects := prioritySubjects.getD 0, digest := p.bindingDigest identity }

def appendBinding (campaigns : List CampaignBinding) (item : Json × Nat) : Result (List CampaignBinding) :=
  (fun binding => campaigns ++ [binding]) <$> loadBinding p files campaigns item

def registrySchema : String := "fidb-campaign-registry/v1"

def loadCampaigns (rows : List (Json × Nat)) : Result (List CampaignBinding) :=
  rows.foldlM (appendBinding p files) []

def registryDocument : Result Json.Fields :=
  match fileAt files p.authority with
  | none => .error (.value s!"campaign registry is not a file: {reference p.authority}")
  | some (.other _) => .error (.value "campaign registry is no TOML document")
  | some (.toml document) => pure document

def loadCampaignRegistry : Result CampaignRegistry := do
  let document ← registryDocument p files
  onlyKeys document ["schema_version", "default_campaign", "selection_state", "campaign"] "campaign registry"
  require ((document.get? "schema_version").any (Json.isText registrySchema))
    (.value "campaign registry has an unsupported schema_version")
  let defaultCampaign ← identifier (document.get? "default_campaign") "default campaign"
  let selectionPath ← belowVar p (document.get? "selection_state") "campaign selection state"
  let rows ← expect (((document.get? "campaign").bind Json.items?).filter fun rows => !rows.isEmpty)
    "campaign registry must contain [[campaign]] rows"
  let campaigns ← loadCampaigns p files rows.zipIdx
  let registry : CampaignRegistry := ⟨defaultCampaign, selectionPath, campaigns⟩
  let default ← registry.byId defaultCampaign
  require default.selectable (.value "default campaign must be configured and selectable")
  pure registry

end Reading

section Slots

variable {p : Project} {files files' : Files} {registry registry' : CampaignRegistry} {binding binding' : CampaignBinding}
  {campaigns campaigns' : List CampaignBinding} {campaignId : String}

/-- What a binding takes from its row alone, whatever the files hold. -/
structure Slot where
  id : String
  state : State
  queue : Option Path
  ledger : Path

def CampaignBinding.slot (binding : CampaignBinding) : Slot :=
  ⟨binding.id, binding.state, binding.queue, binding.ledger⟩

theorem expect_eq_ok {α : Type} {value : Option α} {message : String} {a : α} :
    expect value message = .ok a ↔ value = some a := by
  cases value <;> simp [expect]

/-- A text without outer whitespace and control characters that starts with a letter or a digit and goes on with these,
dots, underscores and hyphens. -/
structure Identifier (id : String) : Prop where
  trimmed : Coordinator.Trimmed id.toList = true
  printable : (id.toList.all fun c => 32 ≤ c.toNat && c.toNat != 127) = true
  stable : (id.toList.head?.any Coordinator.isIdentifierStart && id.toList.all Coordinator.isIdentifierRest) = true

theorem text_eq_ok {value : Option Json} {context result : String} : text value context = .ok result ↔
    value = some (.str result) ∧ Coordinator.Trimmed result.toList = true ∧
      (result.toList.all fun c => 32 ≤ c.toNat && c.toNat != 127) = true := by
  have hstr : value.bind Json.str? = some result ↔ value = some (.str result) := by
    rcases value with _ | value
    · simp
    · cases value <;> simp [Json.str?]
  simp only [text, bind_eq_ok, require_eq_ok, pure_eq_ok, expect_eq_ok, Option.filter_eq_some_iff]
  constructor
  · rintro ⟨_, ⟨hvalue, htrimmed⟩, -, hprintable, rfl⟩
    exact ⟨hstr.mp hvalue, htrimmed, hprintable⟩
  · rintro ⟨hvalue, htrimmed, hprintable⟩
    exact ⟨result, ⟨hstr.mpr hvalue, htrimmed⟩, (), hprintable, rfl⟩

theorem identifier_eq_ok {value : Option Json} {context id : String} :
    identifier value context = .ok id ↔ value = some (.str id) ∧ Identifier id := by
  simp only [identifier, bind_eq_ok, require_eq_ok, pure_eq_ok, text_eq_ok]
  constructor
  · rintro ⟨_, ⟨hvalue, htrimmed, hprintable⟩, -, hstable, rfl⟩
    exact ⟨hvalue, htrimmed, hprintable, hstable⟩
  · rintro ⟨hvalue, htrimmed, hprintable, hstable⟩
    exact ⟨id, ⟨hvalue, htrimmed, hprintable⟩, (), hstable, rfl⟩

theorem fileAuthority_eq_ok {value : Json} {context : String} {path : Path}
    (h : fileAuthority p files value context = .ok path) : inside p (some value) context = .ok path := by
  simp only [fileAuthority, bind_eq_ok, pure_eq_ok] at h
  obtain ⟨_, hpath, -, -, rfl⟩ := h
  exact hpath

theorem optionalAuthority_unique {row : Json.Fields} {key context : String} {path path' : Option Path}
    (h : optionalAuthority p files row key context = .ok path)
    (h' : optionalAuthority p files' row key context = .ok path') : path' = path := by
  unfold optionalAuthority at h h'
  cases hvalue : row.get? key with
  | none =>
    rw [hvalue, pure_eq_ok] at h h'
    rw [← h, ← h']
  | some value =>
    rw [hvalue, map_eq_ok] at h h'
    obtain ⟨_, h, rfl⟩ := h
    obtain ⟨_, h', rfl⟩ := h'
    have hsame := (fileAuthority_eq_ok h).symm.trans (fileAuthority_eq_ok h')
    rw [Except.ok.inj hsame]

/-- What loading a row says of its binding. -/
theorem loadBinding_eq_ok {item : Json × Nat} (h : loadBinding p files campaigns item = .ok binding) :
    ∃ row, item.1.fields? = some row ∧
      row.get? "id" = some (.str binding.id) ∧
      (∃ stateText, text (row.get? "state") s!"campaign {binding.id} state" = .ok stateText ∧
        State.ofText? stateText = some binding.state) ∧
      belowVar p (row.get? "ledger") s!"campaign {binding.id} ledger" = .ok binding.ledger ∧
      optionalAuthority p files row "queue" s!"campaign {binding.id} queue" = .ok binding.queue ∧
      ∃ config, binding.queue.mapM (p.queueConfig files) = .ok config := by
  simp only [loadBinding, bind_eq_ok, pure_eq_ok, expect_eq_ok] at h
  obtain ⟨row, hrow, -, -, id, hid, -, -, stateText, htext, state, hstate, ledger, hledger, queue, hqueue, config, hconfig,
    -, -, _, -, _, -, _, -, _, -, _, -, _, -, _, -, _, -, rfl⟩ := h
  exact ⟨row, hrow, (identifier_eq_ok.mp hid).1, ⟨stateText, htext, hstate⟩, hledger, hqueue, config, hconfig⟩

theorem loadBinding_slot {item : Json × Nat} (h : loadBinding p files campaigns item = .ok binding)
    (h' : loadBinding p files' campaigns' item = .ok binding') : binding'.slot = binding.slot := by
  obtain ⟨row, hrow, hid, ⟨stateText, htext, hstate⟩, hledger, hqueue, -⟩ := loadBinding_eq_ok h
  obtain ⟨row', hrow', hid', ⟨stateText', htext', hstate'⟩, hledger', hqueue', -⟩ := loadBinding_eq_ok h'
  obtain rfl := Option.some.inj (hrow'.symm.trans hrow)
  have hids : binding'.id = binding.id := Json.str.inj (Option.some.inj (hid'.symm.trans hid))
  rw [hids] at htext' hledger' hqueue'
  obtain rfl := Except.ok.inj (htext'.symm.trans htext)
  have hstates := Option.some.inj (hstate'.symm.trans hstate)
  have hledgers := Except.ok.inj (hledger'.symm.trans hledger)
  have hqueues := optionalAuthority_unique hqueue hqueue'
  rw [CampaignBinding.slot, CampaignBinding.slot, hids, hstates, hledgers, hqueues]

/-- The same rows load to the same slots in all files. -/
theorem loadCampaigns_slots {rows : List (Json × Nat)} {before before' : List CampaignBinding}
    (hslots : before'.map CampaignBinding.slot = before.map CampaignBinding.slot)
    (h : rows.foldlM (appendBinding p files) before = .ok campaigns)
    (h' : rows.foldlM (appendBinding p files') before' = .ok campaigns') :
    campaigns'.map CampaignBinding.slot = campaigns.map CampaignBinding.slot := by
  induction rows generalizing before before' with
  | nil =>
    obtain rfl := Except.ok.inj h
    obtain rfl := Except.ok.inj h'
    exact hslots
  | cons item rows ih =>
    simp only [List.foldlM_cons, bind_eq_ok, appendBinding, map_eq_ok] at h h'
    obtain ⟨_, ⟨binding, hbinding, rfl⟩, h⟩ := h
    obtain ⟨_, ⟨binding', hbinding', rfl⟩, h'⟩ := h'
    refine ih ?_ h h'
    rw [List.map_append, List.map_append, hslots, List.map_singleton, List.map_singleton, loadBinding_slot hbinding hbinding']

/-- A loaded registry has read the queue of every binding. -/
theorem loadCampaigns_queues {rows : List (Json × Nat)} (h : loadCampaigns p files rows = .ok campaigns) :
    ∀ binding ∈ campaigns, ∃ config, binding.queue.mapM (p.queueConfig files) = .ok config := by
  refine foldlM_invariant (P := fun campaigns : List CampaignBinding => ∀ binding ∈ campaigns,
    ∃ config, binding.queue.mapM (p.queueConfig files) = .ok config) (fun before after item _ hbefore hstep => ?_) ?_ h
  · obtain ⟨binding, hbinding, rfl⟩ := map_eq_ok.mp hstep
    refine List.forall_mem_append.mpr ⟨hbefore, List.forall_mem_singleton.mpr ?_⟩
    obtain ⟨-, -, -, -, -, -, hconfig⟩ := loadBinding_eq_ok hbinding
    exact hconfig
  · simp

theorem byId_eq_ok : registry.byId campaignId = .ok binding ↔
    (registry.campaigns.filter fun row => row.id = campaignId) = [binding] := by
  unfold CampaignRegistry.byId
  split
  · rename_i row hrow
    rw [hrow, pure_eq_ok, List.cons.injEq, and_iff_left rfl]
  · rename_i hnone
    exact ⟨fun h => (by cases h), fun h => absurd h (hnone binding)⟩

theorem byId_id (h : registry.byId campaignId = .ok binding) : binding ∈ registry.campaigns ∧ binding.id = campaignId := by
  have hmem : binding ∈ registry.campaigns.filter fun row => row.id = campaignId := by
    rw [byId_eq_ok.mp h]
    exact List.mem_singleton_self _
  exact ⟨(List.mem_filter.mp hmem).1, of_decide_eq_true (List.mem_filter.mp hmem).2⟩

theorem byId_slots (hslots : registry'.campaigns.map CampaignBinding.slot = registry.campaigns.map CampaignBinding.slot)
    (h : registry.byId campaignId = .ok binding) :
    ∃ binding', registry'.byId campaignId = .ok binding' ∧ binding'.slot = binding.slot := by
  have hfilter (campaigns : List CampaignBinding) :
      (campaigns.filter fun row => row.id = campaignId).map CampaignBinding.slot =
        (campaigns.map CampaignBinding.slot).filter fun slot => slot.id = campaignId := by
    rw [List.filter_map]
    rfl
  have hone := hfilter registry'.campaigns
  rw [hslots, ← hfilter, byId_eq_ok.mp h, List.map_singleton] at hone
  obtain ⟨binding', hbinding', hslot⟩ := List.map_eq_singleton_iff.mp hone
  exact ⟨binding', byId_eq_ok.mpr hbinding', hslot⟩

/-- What loading the registry says of it. -/
theorem loadCampaignRegistry_eq_ok (h : loadCampaignRegistry p files = .ok registry) :
    ∃ document rows, registryDocument p files = .ok document ∧
      onlyKeys document ["schema_version", "default_campaign", "selection_state", "campaign"] "campaign registry" = .ok () ∧
      identifier (document.get? "default_campaign") "default campaign" = .ok registry.defaultCampaign ∧
      belowVar p (document.get? "selection_state") "campaign selection state" = .ok registry.selectionPath ∧
      ((document.get? "campaign").bind Json.items?).filter (fun rows => !rows.isEmpty) = some rows ∧
      loadCampaigns p files rows.zipIdx = .ok registry.campaigns := by
  simp only [loadCampaignRegistry, bind_eq_ok, pure_eq_ok, expect_eq_ok] at h
  obtain ⟨document, hdocument, _, hkeys, -, -, default, hdefault, selectionPath, hselection, rows, hrows, campaigns,
    hcampaigns, -, -, -, -, rfl⟩ := h
  exact ⟨document, rows, hdocument, hkeys, hdefault, hselection, hrows, hcampaigns⟩

/-- Files with the same registry document load to the same registry, the digests aside. -/
structure SameSlots (registry registry' : CampaignRegistry) : Prop where
  default : registry'.defaultCampaign = registry.defaultCampaign
  selection : registry'.selectionPath = registry.selectionPath
  slots : registry'.campaigns.map CampaignBinding.slot = registry.campaigns.map CampaignBinding.slot

theorem loadCampaignRegistry_slots (hauthority : files' p.authority = files p.authority)
    (h : loadCampaignRegistry p files = .ok registry) (h' : loadCampaignRegistry p files' = .ok registry') :
    SameSlots registry registry' := by
  obtain ⟨document, rows, hdocument, -, hdefault, hselection, hrows, hcampaigns⟩ := loadCampaignRegistry_eq_ok h
  obtain ⟨document', rows', hdocument', -, hdefault', hselection', hrows', hcampaigns'⟩ := loadCampaignRegistry_eq_ok h'
  have hdocuments : registryDocument p files' = registryDocument p files := by
    rw [registryDocument, registryDocument, fileAt, fileAt, hauthority]
  obtain rfl := Except.ok.inj (hdocument'.symm.trans (hdocuments.trans hdocument))
  obtain rfl := Option.some.inj (hrows'.symm.trans hrows)
  exact ⟨Except.ok.inj (hdefault'.symm.trans hdefault), Except.ok.inj (hselection'.symm.trans hselection),
    loadCampaigns_slots rfl hcampaigns hcampaigns'⟩

end Slots

end FidbPoc.Selection
