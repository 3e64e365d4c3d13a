import FidbPoc.Selection.Registry
import Mathlib.Logic.Function.Basic

namespace FidbPoc.Selection

open FidbPoc.Lib FidbPoc.Lib.Checked
open FidbPoc.Operations (Result Fault expect onlyKeys)

inductive Source
  | registryDefault
  | localSelection
  deriving DecidableEq

/-- A time in the words of `isoformat`. -/
structure Stamp where
  text : String
  trimmed : Coordinator.Trimmed text.toList = true
  printable : (text.toList.all fun c => 32 ≤ c.toNat && c.toNat != 127) = true

structure CampaignRow where
  binding : CampaignBinding
  active : Bool
  selectable : Bool
  safeToLeave : Bool
  queueArmed : Bool
  ledgerInitialized : Bool
  ledgerStatus : String
  /-- the leased and the running jobs -/
  counts : Option (Nat × Nat)
  blockers : List String

structure RegistryStatus where
  selectionPath : Path
  selectionSource : Source
  activeCampaignId : String
  activeQueue : Option Path
  activeLedger : Path
  campaigns : List CampaignRow

def selectionSchema : String := "fidb-campaign-selection/v1"

section Reading

variable (p : Project) (files : Files)

def selectionDocument (entry : Entry) : Result Json.Fields :=
  match entry with
  | .directory => .error (.value "campaign selection state must be a regular file")
  | .file (.other _) => .error (.value "campaign selection is no TOML document")
  | .file (.toml document) => pure document

def activeCampaign (registry : CampaignRegistry) : Result (CampaignBinding × Source) :=
  match files registry.selectionPath with
  | none => (·, .registryDefault) <$> registry.byId registry.defaultCampaign
  | some entry => do
    let document ← selectionDocument entry
    onlyKeys document ["schema_version", "campaign_id", "campaign_digest", "selected_at", "selected_by"] "campaign selection"
    require ((document.get? "schema_version").any (Json.isText selectionSchema))
      (.value "campaign selection has an unsupported schema_version")
    let campaignId ← identifier (document.get? "campaign_id") "selected campaign id"
    let selected ← registry.byId campaignId
    require selected.selectable (.value s!"selected campaign is no longer selectable: {selected.id}")
    require ((document.get? "campaign_digest").any (Json.isText selected.digest))
      (.value "selected campaign binding changed; remove the local selection only after review")
    let _ ← text (document.get? "selected_at") "campaign selected_at"
    let _ ← text (document.get? "selected_by") "campaign selected_by"
    pure (selected, .localSelection)

def readLedgerStatus (binding : CampaignBinding) : Result (Option LedgerStatus) :=
  (fileAt files binding.ledger).mapM p.ledgerStatus

def LedgerStatus.live (ledger : LedgerStatus) : Bool := ledger.leased != 0 || ledger.running != 0

def blockers (state : State) (queueArmed ledgerArmed liveWork : Bool) : List String :=
  (match state with
    | .configured => []
    | .planned => ["queue not materialized"]
    | .retired => ["campaign retired"]) ++
  (if queueArmed then ["queue authority armed"] else []) ++ (if ledgerArmed then ["ledger armed"] else []) ++
    (if liveWork then ["live leases or running jobs"] else [])

def campaignRow (active binding : CampaignBinding) : Result CampaignRow := do
  let queue ← binding.queue.mapM (p.queueConfig files)
  let ledger ← readLedgerStatus p files binding
  let liveWork := ledger.any LedgerStatus.live
  let queueArmed := queue.any Coordinator.QueueConfig.armed
  let ledgerArmed := ledger.any LedgerStatus.armed
  pure {
    binding
    active := binding.id = active.id
    selectable := binding.selectable
    safeToLeave := !queueArmed && !ledgerArmed && !liveWork
    queueArmed
    ledgerInitialized := ledger.isSome
    ledgerStatus := (ledger.map LedgerStatus.status).getD "not-initialized"
    counts := ledger.map fun ledger => (ledger.leased, ledger.running)
    blockers := blockers binding.state queueArmed ledgerArmed liveWork }

def campaignRegistryStatus : Result RegistryStatus := do
  let registry ← loadCampaignRegistry p files
  let (active, source) ← activeCampaign files registry
  let campaigns ← registry.campaigns.mapM (campaignRow p files active)
  pure ⟨registry.selectionPath, source, active.id, active.queue, active.ledger, campaigns⟩

end Reading

section Selecting

variable (p : Project) (files : Files)

/-- The document of `_selection_toml`. -/
def selectionToml (binding : CampaignBinding) (actor : String) (now : Stamp) : Json.Fields :=
  [("schema_version", .str selectionSchema), ("campaign_id", .str binding.id), ("campaign_digest", .str binding.digest),
    ("selected_at", .str now.text), ("selected_by", .str actor)]

def durableReplace (path : Path) (document : Json.Fields) : Files :=
  Function.update files path (some (.file (.toml document)))

def CampaignRegistry.lockPath (registry : CampaignRegistry) : Path :=
  registry.selectionPath.dropLast ++ [".selection.lock"]

/-- The lock file is made when it is not there, empty. -/
def openLock (registry : CampaignRegistry) : Files :=
  if (files registry.lockPath).isNone then durableReplace files registry.lockPath [] else files

/-- What comes before the lock. -/
def prepare (campaignId actor : String) : Result CampaignRegistry := do
  let _ ← identifier (some (.str actor)) "selection actor"
  let _ ← identifier (some (.str campaignId)) "campaign id"
  let registry ← loadCampaignRegistry p files
  require (∀ ancestor ∈ registry.selectionPath.dropLast.inits, (fileAt files ancestor).isNone = true) (.value "File exists")
  require ((files registry.lockPath).all fun entry => entry.content.isSome) (.value "Is a directory")
  pure registry

def checkTarget (current target : CampaignBinding) : Result Unit := do
  let queue ← expect (target.queue.filter fun _ => target.selectable)
    s!"campaign is not selectable: {target.id} ({target.state.text})"
  let targetQueue ← p.queueConfig files queue
  require (targetQueue.armed = false) (.value s!"target campaign queue must be disarmed before selection: {target.id}")
  let currentStatus ← readLedgerStatus p files current
  require (currentStatus.any LedgerStatus.armed = false)
    (.value "current campaign ledger must be disarmed before switching")
  require (currentStatus.any LedgerStatus.live = false)
    (.value "current campaign has live leases or running jobs; switch refused")

/-- What is done under the lock: the target, unless it is the current campaign already. -/
def checkSwitch (campaignId : String) : Result (Option (CampaignRegistry × CampaignBinding)) := do
  let registry ← loadCampaignRegistry p files
  let (current, _) ← activeCampaign files registry
  let target ← registry.byId campaignId
  if target.id = current.id then pure none
  else do
    checkTarget p files current target
    pure (some (registry, target))

/-- `select_campaign`: the files it leaves, and the status it returns. -/
def selectCampaign (campaignId actor : String) (now : Stamp) : Files × Result RegistryStatus :=
  match prepare p files campaignId actor with
  | .error e => (files, .error e)
  | .ok registry =>
    let locked := openLock files registry
    match checkSwitch p locked campaignId with
    | .error e => (locked, .error e)
    | .ok none => (locked, campaignRegistryStatus p locked)
    | .ok (some (registry, target)) =>
      let switched := durableReplace locked registry.selectionPath (selectionToml target actor now)
      (switched, campaignRegistryStatus p switched)

end Selecting

section Statuses

variable {p : Project} {files : Files} {registry : CampaignRegistry} {active binding : CampaignBinding} {source : Source}

/-- Every ledger that is a file can be read. -/
def LedgersRead (p : Project) (files : Files) (campaigns : List CampaignBinding) : Prop :=
  ∀ binding ∈ campaigns, ∃ ledger, readLedgerStatus p files binding = .ok ledger

theorem campaignRow_isOk (hqueue : ∃ config, binding.queue.mapM (p.queueConfig files) = .ok config) :
    (∃ row, campaignRow p files active binding = .ok row) ↔ ∃ ledger, readLedgerStatus p files binding = .ok ledger := by
  obtain ⟨config, hconfig⟩ := hqueue
  simp only [campaignRow, hconfig, ok_bind, bind_eq_ok, pure_eq_ok]
  exact ⟨fun ⟨_, ledger, hledger, _⟩ => ⟨ledger, hledger⟩, fun ⟨ledger, hledger⟩ => ⟨_, ledger, hledger, rfl⟩⟩

/-- The status of a world whose registry loads and whose active campaign is known needs the ledgers only. -/
theorem campaignRegistryStatus_isOk (hload : loadCampaignRegistry p files = .ok registry)
    (hactive : activeCampaign files registry = .ok (active, source)) :
    (∃ status, campaignRegistryStatus p files = .ok status) ↔ LedgersRead p files registry.campaigns := by
  have hqueues : ∀ binding ∈ registry.campaigns, ∃ config, binding.queue.mapM (p.queueConfig files) = .ok config := by
    obtain ⟨_, _, -, -, -, -, -, hcampaigns⟩ := loadCampaignRegistry_eq_ok hload
    exact loadCampaigns_queues hcampaigns
  simp only [campaignRegistryStatus, hload, ok_bind, hactive, bind_eq_ok, pure_eq_ok]
  constructor
  · rintro ⟨_, rows, hrows, -⟩ binding hbinding
    obtain ⟨row, -, hrow⟩ := mapM_mem hrows binding hbinding
    exact (campaignRow_isOk (hqueues binding hbinding)).mp ⟨row, hrow⟩
  · intro hread
    obtain ⟨rows, hrows⟩ := mapM_total fun binding hbinding =>
      (@campaignRow_isOk p files active binding (hqueues binding hbinding)).mpr (hread binding hbinding)
    exact ⟨_, rows, hrows, rfl⟩

end Statuses

section Active

variable {p : Project} {files files' : Files} {registry registry' : CampaignRegistry}
  {active active' target : CampaignBinding} {source source' : Source} {actor campaignId : String} {now : Stamp}

theorem selectionDocument_eq_ok {entry : Entry} {document : Json.Fields} (h : selectionDocument entry = .ok document) :
    entry = .file (.toml document) := by
  cases entry with
  | directory => cases h
  | file content =>
    cases content with
    | other _ => cases h
    | toml _ =>
      cases h
      rfl

/-- The default where nothing is selected, else the campaign of the document. -/
theorem activeCampaign_eq_ok (h : activeCampaign files registry = .ok (active, source)) :
    registry.byId active.id = .ok active ∧
      (files registry.selectionPath = none ∧ active.id = registry.defaultCampaign ∨
        ∃ document, files registry.selectionPath = some (.file (.toml document)) ∧
          document.get? "campaign_id" = some (.str active.id) ∧ active.selectable = true ∧
          (document.get? "campaign_digest").any (Json.isText active.digest) = true) := by
  unfold activeCampaign at h
  split at h
  · rename_i hnone
    obtain ⟨binding, hbinding, hpair⟩ := map_eq_ok.mp h
    obtain ⟨rfl, -⟩ := Prod.mk.injEq .. ▸ hpair
    have hid := (byId_id hbinding).2
    exact ⟨hid ▸ hbinding, .inl ⟨hnone, hid⟩⟩
  · rename_i entry hentry
    simp only [bind_eq_ok, pure_eq_ok, require_eq_ok, Prod.mk.injEq] at h
    obtain ⟨document, hdocument, -, -, -, -, campaignId, hid, selected, hselected, -, hselectable, -, hdigest, -, -, -, -,
      rfl, -⟩ := h
    have hids := (byId_id hselected).2
    obtain rfl := selectionDocument_eq_ok hdocument
    exact ⟨hids ▸ hselected, .inr ⟨_, hentry, hids ▸ (identifier_eq_ok.mp hid).1, hselectable, hdigest⟩⟩

theorem activeCampaign_id (hsame : SameSlots registry registry')
    (hselection : files' registry.selectionPath = files registry.selectionPath)
    (h : activeCampaign files registry = .ok (active, source))
    (h' : activeCampaign files' registry' = .ok (active', source')) : active'.id = active.id := by
  obtain ⟨-, hcase⟩ := activeCampaign_eq_ok h
  obtain ⟨-, hcase'⟩ := activeCampaign_eq_ok h'
  rw [hsame.selection, hselection, hsame.default] at hcase'
  obtain ⟨hnone, hid⟩ | ⟨document, hdocument, hid, -⟩ := hcase
  · obtain ⟨-, hid'⟩ | ⟨_, hdocument', -⟩ := hcase'
    · rw [hid, hid']
    · rw [hnone] at hdocument'
      cases hdocument'
  · obtain ⟨hnone', -⟩ | ⟨document', hdocument', hid', -⟩ := hcase'
    · rw [hdocument] at hnone'
      cases hnone'
    · rw [hdocument, Option.some.injEq, Entry.file.injEq, File.toml.injEq] at hdocument'
      rw [← hdocument', hid, Option.some.injEq, Json.str.injEq] at hid'
      exact hid'.symm

/-- A written selection selects its campaign while the digest of that stays. -/
theorem activeCampaign_written (hactor : Identifier actor) (hid : Identifier target.id)
    (hbinding : registry.byId target.id = .ok active) (hselectable : active.selectable = true)
    {pair : CampaignBinding × Source} :
    activeCampaign (durableReplace files registry.selectionPath (selectionToml target actor now)) registry = .ok pair ↔
      active.digest = target.digest ∧ pair = (active, .localSelection) := by
  have hnow : text (some (.str now.text)) "campaign selected_at" = .ok now.text :=
    text_eq_ok.mpr ⟨rfl, now.trimmed, now.printable⟩
  have hby : text (some (.str actor)) "campaign selected_by" = .ok actor :=
    text_eq_ok.mpr ⟨rfl, hactor.trimmed, hactor.printable⟩
  have hidentifier : identifier (some (.str target.id)) "selected campaign id" = .ok target.id :=
    identifier_eq_ok.mpr ⟨rfl, hid⟩
  have hentry : durableReplace files registry.selectionPath (selectionToml target actor now) registry.selectionPath =
      some (.file (.toml (selectionToml target actor now))) := Function.update_self ..
  have hkeys : onlyKeys (selectionToml target actor now)
      ["schema_version", "campaign_id", "campaign_digest", "selected_at", "selected_by"] "campaign selection" = .ok () := by
    rw [onlyKeys, require_eq_ok]
    rfl
  have hschema : ((selectionToml target actor now).get? "schema_version").any (Json.isText selectionSchema) = true := rfl
  have hdigest : ((selectionToml target actor now).get? "campaign_digest").any (Json.isText active.digest) = true ↔
      active.digest = target.digest := by
    change decide (some target.digest = some active.digest) = true ↔ _
    rw [decide_eq_true_eq, Option.some.injEq, eq_comm]
  have hcampaign : (selectionToml target actor now).get? "campaign_id" = some (.str target.id) := rfl
  have hat : (selectionToml target actor now).get? "selected_at" = some (.str now.text) := rfl
  have hactorField : (selectionToml target actor now).get? "selected_by" = some (.str actor) := rfl
  simp only [activeCampaign, hentry, selectionDocument, pure_bind, hkeys, ok_bind, bind_eq_ok, require_eq_ok, hschema,
    hcampaign, hidentifier, hbinding, hselectable, hdigest, hat, hnow, hactorField, hby, pure_eq_ok]
  constructor
  · rintro ⟨-, -, -, -, -, h, hpair⟩
    exact ⟨h, hpair.symm⟩
  · rintro ⟨h, hpair⟩
    exact ⟨(), trivial, (), trivial, (), h, hpair.symm⟩

/-- A selection document is no registry. -/
theorem authority_ne_of_load {path : Path}
    (h : loadCampaignRegistry p (durableReplace files path (selectionToml target actor now)) = .ok registry) :
    p.authority ≠ path := by
  rintro rfl
  obtain ⟨document, _, hdocument, hkeys, -⟩ := loadCampaignRegistry_eq_ok h
  have hfile : fileAt (durableReplace files p.authority (selectionToml target actor now)) p.authority =
      some (.toml (selectionToml target actor now)) := by simp [fileAt, durableReplace, Entry.content]
  rw [registryDocument, hfile] at hdocument
  obtain rfl := Except.ok.inj hdocument
  rw [onlyKeys, require_eq_ok] at hkeys
  simp [selectionToml] at hkeys

theorem openLock_authority (h : loadCampaignRegistry p files = .ok registry) :
    openLock files registry p.authority = files p.authority := by
  obtain ⟨_, _, hdocument, -⟩ := loadCampaignRegistry_eq_ok h
  unfold openLock
  split
  · rename_i hlock
    refine Function.update_of_ne (fun hsame => ?_) _ _
    rw [registryDocument, fileAt, hsame, Option.isNone_iff_eq_none.mp hlock] at hdocument
    cases hdocument
  · rfl

theorem openLock_selection (h : files registry.selectionPath = none → registry.selectionPath ≠ registry.lockPath) :
    openLock files registry registry.selectionPath = files registry.selectionPath := by
  unfold openLock
  split
  · rename_i hlock
    refine Function.update_of_ne (fun hsame => h ?_ hsame) _ _
    rw [hsame]
    exact Option.isNone_iff_eq_none.mp hlock
  · rfl

end Active

section Agreement

variable (p : Project) (files : Files) (campaignId actor : String) (now : Stamp)

/-- A switch that agrees with the reported safety, on the files as they are under its lock. -/
structure Agrees : Prop where
  safe : ∀ registry, loadCampaignRegistry p files = .ok registry →
    (selectCampaign p files campaignId actor now).1 registry.selectionPath ≠ files registry.selectionPath →
      ∃ status, campaignRegistryStatus p (openLock files registry) = .ok status ∧
        (∃ row ∈ status.campaigns, row.active = true ∧ row.safeToLeave = true) ∧
        ∃ row ∈ status.campaigns, row.binding.id = campaignId ∧ row.selectable = true ∧ row.queueArmed = false
  raised : ∀ registry fault, loadCampaignRegistry p files = .ok registry →
    (selectCampaign p files campaignId actor now).2 = .error fault →
      (selectCampaign p files campaignId actor now).1 registry.selectionPath = files registry.selectionPath
  current : ∀ registry active source, loadCampaignRegistry p files = .ok registry →
    activeCampaign files registry = .ok (active, source) → active.id = campaignId →
      (selectCampaign p files campaignId actor now).1 registry.selectionPath = files registry.selectionPath
  selected : ∀ registry status target, loadCampaignRegistry p files = .ok registry →
    (selectCampaign p files campaignId actor now).2 = .ok status → registry.byId campaignId = .ok target →
      ∃ registry' active source, loadCampaignRegistry p (selectCampaign p files campaignId actor now).1 = .ok registry' ∧
        activeCampaign (selectCampaign p files campaignId actor now).1 registry' = .ok (active, source) ∧
        active.slot = target.slot

/-- A switch that passes its checks under the lock. -/
structure Passes (registry : CampaignRegistry) (current target : CampaignBinding) : Prop where
  loaded : loadCampaignRegistry p files = .ok registry
  active : ∃ source, activeCampaign files registry = .ok (current, source)
  found : registry.byId campaignId = .ok target
  other : target.id ≠ current.id
  checked : checkTarget p files current target = .ok ()

/-- The files that a switch leaves still load, with the digest of the target as it was written, and their ledgers can be
read. -/
def Reopens (target : CampaignBinding) : Prop :=
  ∃ registry, loadCampaignRegistry p files = .ok registry ∧
    (∀ row ∈ registry.campaigns, row.id = target.id → row.digest = target.digest) ∧ LedgersRead p files registry.campaigns

def QueueDisarmed (binding : CampaignBinding) : Prop :=
  ∀ queue config, binding.queue = some queue → p.queueConfig files queue = .ok config → config.armed = false

/-- The selection is not the lock file itself, and where a switch passes its checks the queue of the current campaign is
disarmed, all ledgers can be read, and the files it leaves reopen. -/
def SwitchesSafely : Prop :=
  ∀ registry, prepare p files campaignId actor = .ok registry →
    (files registry.selectionPath = none → registry.selectionPath ≠ registry.lockPath) ∧
      ∀ registry' current target, Passes p (openLock files registry) campaignId registry' current target →
        QueueDisarmed p (openLock files registry) current ∧ LedgersRead p (openLock files registry) registry'.campaigns ∧
          Reopens p (durableReplace (openLock files registry) registry'.selectionPath (selectionToml target actor now)) target

end Agreement

section Cases

variable {p : Project} {files : Files} {registry : CampaignRegistry} {active binding current target : CampaignBinding}
  {campaignId actor : String} {now : Stamp} {row : CampaignRow}

theorem prepare_eq_ok (h : prepare p files campaignId actor = .ok registry) :
    Identifier actor ∧ Identifier campaignId ∧ loadCampaignRegistry p files = .ok registry := by
  simp only [prepare, bind_eq_ok, pure_eq_ok, identifier_eq_ok] at h
  obtain ⟨_, ⟨hactor, hactor'⟩, _, ⟨hid, hid'⟩, _, hload, -, -, -, -, rfl⟩ := h
  obtain rfl := Json.str.inj (Option.some.inj hactor)
  obtain rfl := Json.str.inj (Option.some.inj hid)
  exact ⟨hactor', hid', hload⟩

theorem checkSwitch_eq_some : checkSwitch p files campaignId = .ok (some (registry, target)) ↔
    ∃ current, Passes p files campaignId registry current target := by
  simp only [checkSwitch, bind_eq_ok]
  constructor
  · rintro ⟨registry', hload, ⟨current, source⟩, hactive, target', htarget, h⟩
    split at h
    · cases h
    · rename_i hother
      obtain ⟨_, hchecked, h⟩ := bind_eq_ok.mp h
      obtain ⟨rfl, rfl⟩ : registry' = registry ∧ target' = target := by simpa [pure_eq_ok] using h
      exact ⟨current, hload, ⟨source, hactive⟩, htarget, hother, hchecked⟩
  · rintro ⟨current, hload, ⟨source, hactive⟩, htarget, hother, hchecked⟩
    refine ⟨registry, hload, (current, source), hactive, target, htarget, ?_⟩
    rw [if_neg hother, hchecked]
    rfl

theorem checkSwitch_eq_ok {switch : Option (CampaignRegistry × CampaignBinding)}
    (h : checkSwitch p files campaignId = .ok switch) :
    ∃ registry current source target, loadCampaignRegistry p files = .ok registry ∧
      activeCampaign files registry = .ok (current, source) ∧ registry.byId campaignId = .ok target ∧
      (switch = none → target.id = current.id) := by
  simp only [checkSwitch, bind_eq_ok] at h
  obtain ⟨registry, hload, ⟨current, source⟩, hactive, target, htarget, h⟩ := h
  refine ⟨registry, current, source, target, hload, hactive, htarget, ?_⟩
  rintro rfl
  split at h
  · assumption
  · obtain ⟨_, -, h⟩ := bind_eq_ok.mp h
    cases h

/-- What a target and the campaign before it show to a switch that they let pass. -/
theorem checkTarget_eq_ok (h : checkTarget p files current target = .ok ()) :
    target.selectable = true ∧
      (∃ queue config, target.queue = some queue ∧ p.queueConfig files queue = .ok config ∧ config.armed = false) ∧
      ∃ ledger, readLedgerStatus p files current = .ok ledger ∧ ledger.any LedgerStatus.armed = false ∧
        ledger.any LedgerStatus.live = false := by
  simp only [checkTarget, bind_eq_ok, require_eq_ok, expect_eq_ok, Option.filter_eq_some_iff] at h
  obtain ⟨queue, ⟨hqueue, hselectable⟩, config, hconfig, -, hdisarmed, ledger, hledger, -, harmed, hlive⟩ := h
  exact ⟨hselectable, ⟨queue, config, hqueue, hconfig, hdisarmed⟩, ledger, hledger, harmed, hlive⟩

theorem campaignRow_eq_ok (h : campaignRow p files active binding = .ok row) :
    row.binding = binding ∧ row.active = decide (binding.id = active.id) ∧ row.selectable = binding.selectable ∧
      ∃ queue ledger, binding.queue.mapM (p.queueConfig files) = .ok queue ∧ readLedgerStatus p files binding = .ok ledger ∧
        row.queueArmed = queue.any Coordinator.QueueConfig.armed ∧
        row.safeToLeave = (!queue.any Coordinator.QueueConfig.armed && !ledger.any LedgerStatus.armed &&
          !ledger.any LedgerStatus.live) := by
  simp only [campaignRow, bind_eq_ok, pure_eq_ok] at h
  obtain ⟨queue, hqueue, ledger, hledger, rfl⟩ := h
  exact ⟨rfl, rfl, rfl, queue, ledger, hqueue, hledger, rfl, rfl⟩

theorem campaignRegistryStatus_eq_ok {status : RegistryStatus} (h : campaignRegistryStatus p files = .ok status) :
    ∃ registry active source, loadCampaignRegistry p files = .ok registry ∧
      activeCampaign files registry = .ok (active, source) ∧
      registry.campaigns.mapM (campaignRow p files active) = .ok status.campaigns := by
  simp only [campaignRegistryStatus, bind_eq_ok, pure_eq_ok] at h
  obtain ⟨registry, hload, ⟨active, source⟩, hactive, rows, hrows, rfl⟩ := h
  exact ⟨registry, active, source, hload, hactive, hrows⟩

theorem mapM_queue {queue : Path} {config : Option Coordinator.QueueConfig} (h : binding.queue = some queue) :
    binding.queue.mapM (p.queueConfig files) = .ok config ↔
      ∃ loaded, p.queueConfig files queue = .ok loaded ∧ config = some loaded := by
  rw [h]
  change some <$> p.queueConfig files queue = _ ↔ _
  rw [map_eq_ok]
  exact exists_congr fun loaded => and_congr Iff.rfl eq_comm

theorem byId_unique (h : registry.byId campaignId = .ok binding) (hmem : active ∈ registry.campaigns)
    (hid : active.id = campaignId) : active = binding := by
  have hfilter : active ∈ registry.campaigns.filter fun row => row.id = campaignId :=
    List.mem_filter.mpr ⟨hmem, decide_eq_true hid⟩
  rw [byId_eq_ok.mp h] at hfilter
  exact List.mem_singleton.mp hfilter

theorem selectable_of_slot (h : active.slot = target.slot) : active.selectable = target.selectable := by
  have hstate := congrArg Slot.state h
  have hqueue := congrArg Slot.queue h
  rw [CampaignBinding.selectable, CampaignBinding.selectable]
  exact decide_eq_decide.mpr (by rw [show active.state = target.state from hstate,
    show active.queue = target.queue from hqueue])

/-- Files that were switched and reopen have the target as their active campaign. -/
theorem active_of_reopens {path : Path}
    (hreopens : Reopens p (durableReplace files path (selectionToml target actor now)) target)
    (hload : loadCampaignRegistry p files = .ok registry) (hpath : path = registry.selectionPath)
    (hactor : Identifier actor) (hid : Identifier target.id) (hfound : registry.byId target.id = .ok target)
    (hselectable : target.selectable = true) :
    ∃ registry' active source, loadCampaignRegistry p (durableReplace files path (selectionToml target actor now)) =
        .ok registry' ∧
      activeCampaign (durableReplace files path (selectionToml target actor now)) registry' = .ok (active, source) ∧
      active.slot = target.slot ∧
      LedgersRead p (durableReplace files path (selectionToml target actor now)) registry'.campaigns := by
  obtain ⟨registry', hload', hdigest, hread⟩ := hreopens
  have hsame := loadCampaignRegistry_slots (Function.update_of_ne (authority_ne_of_load hload') _ _) hload hload'
  obtain ⟨active, hactive, hslot⟩ := byId_slots hsame.slots hfound
  obtain ⟨hmem, hactiveId⟩ := byId_id hactive
  have hwritten := (@activeCampaign_written files registry' active target actor now hactor hid hactive
    ((selectable_of_slot hslot).trans hselectable) _).mpr ⟨hdigest active hmem hactiveId, rfl⟩
  rw [hsame.selection, ← hpath] at hwritten
  exact ⟨registry', active, _, hload', hwritten, hslot, hread⟩

end Cases

section Iff

variable {p : Project} {files : Files} {registry registry' : CampaignRegistry} {current target : CampaignBinding}
  {campaignId actor : String} {now : Stamp}

/-- The files that a switch writes. -/
def switched (files : Files) (registry registry' : CampaignRegistry) (target : CampaignBinding) (actor : String)
    (now : Stamp) : Files :=
  durableReplace (openLock files registry) registry'.selectionPath (selectionToml target actor now)

theorem selectCampaign_of_passes (hprepare : prepare p files campaignId actor = .ok registry)
    (hpasses : Passes p (openLock files registry) campaignId registry' current target) :
    selectCampaign p files campaignId actor now =
      (switched files registry registry' target actor now,
        campaignRegistryStatus p (switched files registry registry' target actor now)) := by
  have hcheck := checkSwitch_eq_some.mpr ⟨current, hpasses⟩
  rw [selectCampaign, hprepare]
  simp only [hcheck]
  rfl

theorem sameSlots_of_prepare (hprepare : prepare p files campaignId actor = .ok registry)
    (hload : loadCampaignRegistry p (openLock files registry) = .ok registry') : SameSlots registry registry' :=
  loadCampaignRegistry_slots (openLock_authority (prepare_eq_ok hprepare).2.2) (prepare_eq_ok hprepare).2.2 hload

/-- What is selected tells the new selection from the old one. -/
theorem switched_ne (hprepare : prepare p files campaignId actor = .ok registry)
    (hselection : openLock files registry registry.selectionPath = files registry.selectionPath)
    (hpasses : Passes p (openLock files registry) campaignId registry' current target) :
    switched files registry registry' target actor now registry.selectionPath ≠ files registry.selectionPath := by
  have hpath := (sameSlots_of_prepare hprepare hpasses.loaded).selection
  obtain ⟨source, hactive⟩ := hpasses.active
  rw [← hselection, ← hpath, switched, durableReplace, Function.update_self]
  intro hsame
  obtain ⟨-, hcase⟩ := activeCampaign_eq_ok hactive
  rw [← hsame] at hcase
  obtain ⟨hnone, -⟩ | ⟨_, hdocument, hid, -⟩ := hcase
  · cases hnone
  · rw [Option.some.injEq, Entry.file.injEq, File.toml.injEq] at hdocument
    subst hdocument
    exact hpasses.other (Json.str.inj (Option.some.inj hid))

/-- A lock that makes the selection file makes one that nothing can be read of. -/
theorem lock_is_no_selection (hprepare : prepare p files campaignId actor = .ok registry)
    (hnone : files registry.selectionPath = none) (hlock : registry.selectionPath = registry.lockPath) :
    (selectCampaign p files campaignId actor now).1 registry.selectionPath ≠ files registry.selectionPath ∧
      ∃ fault, (selectCampaign p files campaignId actor now).2 = .error fault := by
  have hempty : openLock files registry registry.selectionPath = some (.file (.toml [])) := by
    rw [openLock, ← hlock, hnone]
    exact Function.update_self ..
  cases hcheck : checkSwitch p (openLock files registry) campaignId with
  | error fault =>
    have hselect : selectCampaign p files campaignId actor now = (openLock files registry, .error fault) := by
      simp [selectCampaign, hprepare, hcheck]
    rw [hselect]
    refine ⟨?_, fault, rfl⟩
    change openLock files registry registry.selectionPath ≠ _
    rw [hempty, hnone]
    exact nofun
  | ok switch =>
    obtain ⟨registry', current, source, target, hload, hactive, -⟩ := checkSwitch_eq_ok hcheck
    obtain ⟨-, hcase⟩ := activeCampaign_eq_ok hactive
    rw [(sameSlots_of_prepare hprepare hload).selection, hempty] at hcase
    obtain ⟨hnone', -⟩ | ⟨_, hdocument, hid, -⟩ := hcase
    · cases hnone'
    · rw [Option.some.injEq, Entry.file.injEq, File.toml.injEq] at hdocument
      subst hdocument
      cases hid

theorem switchesSafely_of_agrees (h : Agrees p files campaignId actor now) : SwitchesSafely p files campaignId actor now := by
  intro registry hprepare
  obtain ⟨hactor, hid, hload⟩ := prepare_eq_ok hprepare
  have hlock : files registry.selectionPath = none → registry.selectionPath ≠ registry.lockPath := by
    intro hnone hlock
    obtain ⟨hchanged, fault, hraised⟩ := @lock_is_no_selection p files registry campaignId actor now hprepare hnone hlock
    exact hchanged (h.raised registry fault hload hraised)
  refine ⟨hlock, fun registry' current target hpasses => ?_⟩
  have hselect := @selectCampaign_of_passes p files registry registry' current target campaignId actor now hprepare hpasses
  have hchanged : (selectCampaign p files campaignId actor now).1 registry.selectionPath ≠ files registry.selectionPath := by
    rw [hselect]
    exact switched_ne hprepare (openLock_selection hlock) hpasses
  obtain ⟨source, hactive⟩ := hpasses.active
  obtain ⟨status, hstatus, ⟨row, hrow, hrowActive, hsafe⟩, -⟩ := h.safe registry hload hchanged
  have hcurrent := (activeCampaign_eq_ok hactive).1
  refine ⟨?_, ?_, ?_⟩
  · obtain ⟨loaded, active, _, hloaded, hactive', hrows⟩ := campaignRegistryStatus_eq_ok hstatus
    obtain rfl := Except.ok.inj (hloaded.symm.trans hpasses.loaded)
    obtain ⟨rfl, -⟩ := Prod.mk.injEq .. ▸ Except.ok.inj (hactive'.symm.trans hactive)
    obtain ⟨binding, hbinding, hrowOk⟩ := mem_mapM hrows row hrow
    obtain ⟨-, hisActive, -, queue, ledger, hqueue, -, -, hsafeEq⟩ := campaignRow_eq_ok hrowOk
    rw [hrowActive, eq_comm, decide_eq_true_eq] at hisActive
    obtain rfl := byId_unique hcurrent hbinding hisActive
    intro path config hpath hconfig
    obtain ⟨loadedConfig, hconfig', rfl⟩ := (mapM_queue hpath).mp hqueue
    rw [Except.ok.inj (hconfig.symm.trans hconfig')]
    rw [hsafe] at hsafeEq
    cases harmed : loadedConfig.armed with
    | false => rfl
    | true => simp [harmed] at hsafeEq
  · exact (campaignRegistryStatus_isOk hpasses.loaded hactive).mp ⟨status, hstatus⟩
  · cases hclosing : campaignRegistryStatus p (switched files registry registry' target actor now) with
    | error fault => exact absurd (h.raised registry fault hload (by rw [hselect, hclosing])) hchanged
    | ok closing =>
      obtain ⟨registry'', active, source', hload', hactive', -⟩ := campaignRegistryStatus_eq_ok hclosing
      have hread := (campaignRegistryStatus_isOk hload' hactive').mp ⟨closing, hclosing⟩
      have hsame := loadCampaignRegistry_slots (Function.update_of_ne (authority_ne_of_load hload') _ _) hpasses.loaded hload'
      have htarget := (byId_id hpasses.found).2
      obtain ⟨found, hfound, hslot⟩ := byId_slots hsame.slots (htarget ▸ hpasses.found)
      have hselectable := (selectable_of_slot hslot).trans (checkTarget_eq_ok hpasses.checked).1
      rw [switched, ← hsame.selection] at hactive'
      have hdigest := ((activeCampaign_written hactor (htarget ▸ hid) hfound hselectable).mp hactive').1
      refine ⟨registry'', hload', fun binding hmem hbinding => ?_, hread⟩
      rw [byId_unique hfound hmem hbinding, hdigest]

/-- What a safe switch does: it leaves the selection alone and raises, or finds the target current, or it switches. -/
inductive Outcome (p : Project) (files : Files) (campaignId actor : String) (now : Stamp) (registry : CampaignRegistry) : Prop
  | raised (fault : Fault)
      (selection : (selectCampaign p files campaignId actor now).1 registry.selectionPath = files registry.selectionPath)
      (result : (selectCampaign p files campaignId actor now).2 = .error fault)
  | current (registry' : CampaignRegistry) (active target : CampaignBinding) (source : Source)
      (selection : (selectCampaign p files campaignId actor now).1 registry.selectionPath = files registry.selectionPath)
      (same : SameSlots registry registry')
      (loaded : loadCampaignRegistry p (selectCampaign p files campaignId actor now).1 = .ok registry')
      (found : activeCampaign (selectCampaign p files campaignId actor now).1 registry' = .ok (active, source))
      (byId : registry'.byId campaignId = .ok target) (id : target.id = active.id)
  | switched (registry' : CampaignRegistry) (active target : CampaignBinding)
      (prepared : prepare p files campaignId actor = .ok registry)
      (passes : Passes p (openLock files registry) campaignId registry' active target)

theorem SwitchesSafely.outcome (h : SwitchesSafely p files campaignId actor now)
    (hload : loadCampaignRegistry p files = .ok registry) : Outcome p files campaignId actor now registry := by
  cases hprepare : prepare p files campaignId actor with
  | error fault =>
    have hselect : selectCampaign p files campaignId actor now = (files, .error fault) := by
      simp [selectCampaign, hprepare]
    exact .raised fault (by rw [hselect]) (by rw [hselect])
  | ok registry₀ =>
    obtain rfl := Except.ok.inj ((prepare_eq_ok hprepare).2.2.symm.trans hload)
    have hselection := openLock_selection (h registry₀ hprepare).1
    cases hcheck : checkSwitch p (openLock files registry₀) campaignId with
    | error fault =>
      have hselect : selectCampaign p files campaignId actor now = (openLock files registry₀, .error fault) := by
        simp [selectCampaign, hprepare, hcheck]
      exact .raised fault (by rw [hselect]; exact hselection) (by rw [hselect])
    | ok switch =>
      cases switch with
      | none =>
        have hselect : selectCampaign p files campaignId actor now =
            (openLock files registry₀, campaignRegistryStatus p (openLock files registry₀)) := by
          simp [selectCampaign, hprepare, hcheck]
        obtain ⟨registry', active, source, target, hload', hactive, htarget, hid⟩ := checkSwitch_eq_ok hcheck
        refine .current registry' active target source ?_ (sameSlots_of_prepare hprepare hload') ?_ ?_ htarget (hid rfl)
        · rw [hselect]
          exact hselection
        · rw [hselect]
          exact hload'
        · rw [hselect]
          exact hactive
      | some pair =>
        obtain ⟨active, hpasses⟩ := checkSwitch_eq_some.mp hcheck
        exact .switched pair.1 active pair.2 hprepare hpasses

theorem SwitchesSafely.safe (h : SwitchesSafely p files campaignId actor now)
    (hprepare : prepare p files campaignId actor = .ok registry)
    (hpasses : Passes p (openLock files registry) campaignId registry' current target) :
    ∃ status, campaignRegistryStatus p (openLock files registry) = .ok status ∧
      (∃ row ∈ status.campaigns, row.active = true ∧ row.safeToLeave = true) ∧
      ∃ row ∈ status.campaigns, row.binding.id = campaignId ∧ row.selectable = true ∧ row.queueArmed = false := by
  obtain ⟨hdisarmed, hread, -⟩ := (h registry hprepare).2 registry' current target hpasses
  obtain ⟨source, hactive⟩ := hpasses.active
  obtain ⟨status, hstatus⟩ := (campaignRegistryStatus_isOk hpasses.loaded hactive).mpr hread
  obtain ⟨loaded, active, source', hloaded, hactive', hrows⟩ := campaignRegistryStatus_eq_ok hstatus
  obtain rfl := Except.ok.inj (hloaded.symm.trans hpasses.loaded)
  obtain ⟨rfl, -⟩ := Prod.mk.injEq .. ▸ Except.ok.inj (hactive'.symm.trans hactive)
  obtain ⟨hselectable, ⟨queue, config, hqueue, hconfig, harmed⟩, ledger, hledger, hledgerArmed, hlive⟩ :=
    checkTarget_eq_ok hpasses.checked
  refine ⟨status, hstatus, ?_, ?_⟩
  · obtain ⟨row, hrow, hrowOk⟩ := mapM_mem hrows active (byId_id (activeCampaign_eq_ok hactive).1).1
    obtain ⟨-, hisActive, -, currentQueue, ledger', hcurrentQueue, hledger', -, hsafe⟩ := campaignRow_eq_ok hrowOk
    obtain rfl := Except.ok.inj (hledger'.symm.trans hledger)
    have hqueueDisarmed : currentQueue.any Coordinator.QueueConfig.armed = false := by
      cases currentQueue with
      | none => rfl
      | some currentConfig =>
        cases hpath : active.queue with
        | none =>
          rw [hpath] at hcurrentQueue
          cases hcurrentQueue
        | some path =>
          obtain ⟨_, hloaded', hsome⟩ := (mapM_queue hpath).mp hcurrentQueue
          obtain rfl := Option.some.inj hsome
          exact hdisarmed path _ hpath hloaded'
    refine ⟨row, hrow, by rw [hisActive, decide_eq_true rfl], ?_⟩
    rw [hsafe, hqueueDisarmed, hledgerArmed, hlive]
    rfl
  · obtain ⟨hmem, hid⟩ := byId_id hpasses.found
    obtain ⟨row, hrow, hrowOk⟩ := mapM_mem hrows target hmem
    obtain ⟨hbinding, -, hrowSelectable, targetQueue, _, htargetQueue, -, hqueueArmed, -⟩ := campaignRow_eq_ok hrowOk
    obtain ⟨loadedConfig, hloaded', rfl⟩ := (mapM_queue hqueue).mp htargetQueue
    obtain rfl := Except.ok.inj (hconfig.symm.trans hloaded')
    exact ⟨row, hrow, by rw [hbinding, hid], by rw [hrowSelectable, hselectable], by rw [hqueueArmed]; exact harmed⟩

/-- A safe switch ends with the target as the active campaign, and returns. -/
theorem SwitchesSafely.closing (h : SwitchesSafely p files campaignId actor now)
    (hprepare : prepare p files campaignId actor = .ok registry)
    (hpasses : Passes p (openLock files registry) campaignId registry' current target) :
    ∃ closing active source, loadCampaignRegistry p (switched files registry registry' target actor now) = .ok closing ∧
      activeCampaign (switched files registry registry' target actor now) closing = .ok (active, source) ∧
      active.slot = target.slot ∧
      ∃ status, campaignRegistryStatus p (switched files registry registry' target actor now) = .ok status := by
  obtain ⟨hactor, hid, -⟩ := prepare_eq_ok hprepare
  obtain ⟨-, -, hreopens⟩ := (h registry hprepare).2 registry' current target hpasses
  have htarget := (byId_id hpasses.found).2
  obtain ⟨closing, active, source, hload, hactive, hslot, hread⟩ := active_of_reopens hreopens hpasses.loaded rfl hactor
    (htarget ▸ hid) (htarget ▸ hpasses.found) (checkTarget_eq_ok hpasses.checked).1
  exact ⟨closing, active, source, hload, hactive, hslot, (campaignRegistryStatus_isOk hload hactive).mpr hread⟩

theorem agrees_of_switchesSafely (h : SwitchesSafely p files campaignId actor now) : Agrees p files campaignId actor now where
  safe registry hload hchanged := by
    cases h.outcome hload with
    | raised _ hselection => exact absurd hselection hchanged
    | current _ _ _ _ hselection => exact absurd hselection hchanged
    | switched _ _ _ hprepare hpasses => exact h.safe hprepare hpasses
  raised registry fault hload hraised := by
    cases h.outcome hload with
    | raised _ hselection => exact hselection
    | current _ _ _ _ hselection => exact hselection
    | switched registry' active target hprepare hpasses =>
      obtain ⟨-, -, -, -, -, -, status, hstatus⟩ := h.closing hprepare hpasses
      rw [selectCampaign_of_passes hprepare hpasses, hstatus] at hraised
      cases hraised
  current registry active source hload hactive hid := by
    cases h.outcome hload with
    | raised _ hselection => exact hselection
    | current _ _ _ _ hselection => exact hselection
    | switched registry' current target hprepare hpasses =>
      obtain ⟨_, hcurrent⟩ := hpasses.active
      have hsame := sameSlots_of_prepare hprepare hpasses.loaded
      have hids := activeCampaign_id hsame (openLock_selection (h registry hprepare).1) hactive hcurrent
      exact absurd ((byId_id hpasses.found).2.trans (hid.symm.trans hids.symm)) hpasses.other
  selected registry status target hload hstatus htarget := by
    cases h.outcome hload with
    | raised fault _ hraised =>
      rw [hraised] at hstatus
      cases hstatus
    | current registry' active target' source _ hsame hload' hactive htarget' hid =>
      refine ⟨registry', active, source, hload', hactive, ?_⟩
      obtain ⟨found, hfound, hslot⟩ := byId_slots hsame.slots htarget
      have hidActive : active.id = campaignId := hid.symm.trans (byId_id htarget').2
      rw [byId_unique hfound (byId_id (activeCampaign_eq_ok hactive).1).1 hidActive, hslot]
    | switched registry' current target' hprepare hpasses =>
      obtain ⟨closing, active, source, hload', hactive, hslot, -⟩ := h.closing hprepare hpasses
      rw [selectCampaign_of_passes hprepare hpasses]
      refine ⟨closing, active, source, hload', hactive, ?_⟩
      obtain ⟨found, hfound, hslot'⟩ := byId_slots (sameSlots_of_prepare hprepare hpasses.loaded).slots htarget
      obtain rfl := Except.ok.inj (hfound.symm.trans hpasses.found)
      rw [hslot, hslot']

/-- A switch agrees with the reported safety just where the status can be taken before and after it and the queue of the
campaign it leaves is disarmed. -/
theorem switch_agrees_iff : Agrees p files campaignId actor now ↔ SwitchesSafely p files campaignId actor now :=
  ⟨switchesSafely_of_agrees, agrees_of_switchesSafely⟩

end Iff

namespace TwoQueues

def batch : Coordinator.BatchConfig := ⟨"one", "one", "plan.toml", none, none, none⟩

theorem batches_ne_nil : [batch] ≠ [] := List.cons_ne_nil _ _

theorem batches_nodup : ([batch].map (·.id)).Nodup := List.nodup_singleton _

theorem backoff_le : (0 : Nat) ≤ 0 := Nat.le_refl 0

def queue (armed : Bool) : Coordinator.QueueConfig where
  name := "queue"
  armed
  maxWorkers := 1
  performanceProfile := none
  pollSeconds := 1
  leaseSeconds := 1
  maxAttempts := 1
  retryBackoffSeconds := 0
  retryBackoffMaxSeconds := 0
  authorityFailureThreshold := 1
  operations := ""
  batches := [batch]
  sourcePath := "queue"
  maxWorkers_pos := Nat.one_pos
  pollSeconds_pos := Nat.one_pos
  leaseSeconds_pos := Nat.one_pos
  maxAttempts_pos := Nat.one_pos
  backoff_le := backoff_le
  batches_ne_nil := batches_ne_nil
  batches_nodup := batches_nodup

/-- Two campaigns without a ledger; the queue named `armed` is armed. -/
def project (armed : String) : Project where
  authority := ["campaigns.toml"]
  resolve reference := if reference = "selection" ∨ reference = "ledger" then .inside ["var", reference] else .inside [reference]
  sha256 _ := "sha256"
  bindingDigest _ := "digest"
  queueConfig _ path := .ok (queue (path = [armed]))
  priorityOverlay _ _ := .ok 0
  ledgerStatus _ := .ok ⟨"disarmed", false, 0, 0⟩

def campaign (id : String) : Json := .obj [("id", .str id), ("label", .str id), ("family_id", .str "family"),
  ("slice_id", .str "slice"), ("host", .str "host"), ("state", .str "configured"), ("phase", .str "phase"),
  ("queue", .str id), ("ledger", .str "ledger")]

def registry : Json.Fields := [("schema_version", .str registrySchema), ("default_campaign", .str "first"),
  ("selection_state", .str "selection"), ("campaign", .arr [campaign "first", campaign "second"])]

def files : Files := fun path =>
  if path = ["campaigns.toml"] then some (.file (.toml registry))
  else if path = ["first"] ∨ path = ["second"] then some (.file (.toml []))
  else none

def now : Stamp := ⟨"2026-01-01T00:00:00Z", rfl, rfl⟩

theorem loads : ∃ loaded, loadCampaignRegistry (project "first") files = .ok loaded ∧ loaded.selectionPath = ["var", "selection"] :=
  ⟨_, rfl, rfl⟩

/-- The status of the files under the lock: the first campaign is active and not safe to leave. -/
theorem reported (loaded : CampaignRegistry) (hpath : loaded.lockPath = ["var", ".selection.lock"]) :
    ∃ status, campaignRegistryStatus (project "first") (openLock files loaded) = .ok status ∧
      status.campaigns.map (fun row => (row.active, row.safeToLeave)) = [(true, false), (false, true)] := by
  rw [openLock, hpath]
  exact ⟨_, rfl, rfl⟩

/-- The queue of the first campaign is armed, and the second one is selected all the same. -/
theorem armed_left : (selectCampaign (project "first") files "second" "operator" now).1 ["var", "selection"] ≠ none ∧
    ¬ Agrees (project "first") files "second" "operator" now := by
  obtain ⟨loaded, hload, hpath⟩ := loads
  have hwritten : (selectCampaign (project "first") files "second" "operator" now).1 ["var", "selection"] ≠ none := nofun
  refine ⟨hwritten, fun h => ?_⟩
  obtain ⟨status, hstatus, ⟨row, hrow, hactive, hsafe⟩, -⟩ := h.safe loaded hload (by rw [hpath]; exact hwritten)
  obtain ⟨status', hstatus', hrows⟩ := reported loaded (by rw [CampaignRegistry.lockPath, hpath]; rfl)
  obtain rfl := Except.ok.inj (hstatus'.symm.trans hstatus)
  have hmem : (row.active, row.safeToLeave) ∈ [(true, false), (false, true)] := hrows ▸ List.mem_map_of_mem hrow
  rw [hactive, hsafe] at hmem
  simp at hmem

end TwoQueues

end FidbPoc.Selection
