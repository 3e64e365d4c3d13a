import FidbPoc.Exports.Build

namespace FidbPoc.Exports

open Lib Lib.Checked

section Names

variable {name identity : String} {names : List String} {payload : List Member}

theorem memberName_idem : memberName (memberName name) = memberName name := by
  unfold memberName
  rw [String.toList_ofList, List.dropWhile_idempotent]

theorem memberName_packagePath : memberName (packagePath identity) = packagePath identity := by
  have hlist : (packagePath identity).toList = 'f' :: ("idbf/" ++ safeName identity ++ ".fidbf").toList := by
    simp [packagePath]
  rw [memberName, hlist, List.dropWhile_cons_of_neg (by decide), ← hlist, String.ofList_toList]

theorem nodup_of_length_dedup {names : List String} (h : names.length = names.dedup.length) : names.Nodup := by
  have hsame : names.dedup = names := (List.dedup_sublist names).eq_of_length h.symm
  rw [← hsame]
  exact List.nodup_dedup names

/-- A reopened archive shows the names of the payload exactly when they differ and none has a leading slash. -/
theorem reopened_iff : reopened payload = true ↔
    (payload.map Member.name).Nodup ∧ ∀ name ∈ payload.map Member.name, memberName name = name := by
  simp only [reopened, Bool.and_eq_true, List.all_eq_true, List.contains_iff_mem, beq_iff_eq, List.mem_dedup,
    List.length_map]
  constructor
  · rintro ⟨⟨-, hexpected⟩, hlength⟩
    refine ⟨nodup_of_length_dedup (by rw [List.length_map, hlength]), fun name hname => ?_⟩
    obtain ⟨member, -, hmember⟩ := List.mem_map.mp (hexpected name hname)
    rw [← hmember, memberName_idem]
  · rintro ⟨hnodup, hplain⟩
    have hmembers : (payload.map fun member => memberName member.name) = payload.map Member.name :=
      List.map_congr_left fun member hmember => hplain _ (List.mem_map_of_mem hmember)
    rw [hmembers, hnodup.dedup, List.length_map]
    exact ⟨⟨fun _ hname => hname, fun _ hname => hname⟩, rfl⟩

end Names

section Rows

variable {p : Project} {reading : Reading} {artifact row : Artifact} {rows : List Artifact} {identity : String}
  {expected : Expected}

/-- Every artifact is kept under its own identity. -/
def Reading.Keyed (reading : Reading) : Prop := ∀ identity row, reading.artifacts.get? identity = some row → row.identity = identity

theorem Reading.Keyed.insert (h : reading.Keyed) : (reading.insert artifact).Keyed := by
  unfold Reading.insert
  split
  · exact h
  · intro identity row hrow
    rw [Dict.get?_set] at hrow
    split at hrow
    · rename_i hidentity
      cases hrow
      exact hidentity.symm
    · exact h identity row hrow

theorem readArtifacts_keyed (ledger : Ledger) (sourceById : Dict String Source) :
    (readArtifacts p ledger sourceById).Keyed := by
  unfold readArtifacts
  have hstart : Reading.Keyed ⟨Dict.empty, []⟩ := fun identity row hrow => by cases hrow
  generalize (⟨Dict.empty, []⟩ : Reading) = reading at hstart
  generalize (ledger.completed.insertionSort Later).filterMap (artifactOf p sourceById) = artifacts
  induction artifacts generalizing reading with
  | nil => exact hstart
  | cons artifact artifacts ih => exact ih _ hstart.insert

theorem lookUp_eq_ok {α : Type} {key : String} {value? : Option α} {value : α} :
    lookUp key value? = .ok value ↔ value? = some value := by
  cases value? with
  | none => exact ⟨fun h => (by cases h), fun h => by cases h⟩
  | some other => exact ⟨fun h => congrArg some (Except.ok.inj h), fun h => congrArg Except.ok (Option.some.inj h)⟩

/-- The released artifacts are those of the expected identities. -/
theorem releaseArtifacts_identities (h : releaseArtifacts p = .ok rows) : ∃ expected, expectedIdentities p = .ok expected ∧
    rows.map Artifact.identity = expected.identities.insertionSort (· ≤ ·) := by
  simp only [releaseArtifacts, bind_eq_ok] at h
  obtain ⟨expected, hexpected, ledgerPath, -, ledger, -, hrows⟩ := h
  refine ⟨expected, hexpected, ?_⟩
  have hmap : rows.map Artifact.identity = (expected.identities.insertionSort (· ≤ ·)).map id :=
    map_mapM hrows fun identity hidentity => by
      obtain ⟨row, -, hrow⟩ := mapM_mem hrows identity hidentity
      exact ⟨row, hrow, readArtifacts_keyed ledger expected.sourceById identity row (lookUp_eq_ok.mp hrow)⟩
  rw [hmap, List.map_id]

theorem expectedIdentities_nodup (h : expectedIdentities p = .ok expected) : expected.identities.Nodup := by
  simp only [expectedIdentities, bind_eq_ok, pure_eq_ok] at h
  obtain ⟨_, -, _, -, _, -, _, -, rfl⟩ := h
  exact List.nodup_dedup _

theorem releaseArtifacts_nodup (h : releaseArtifacts p = .ok rows) : (rows.map Artifact.identity).Nodup := by
  obtain ⟨expected, hexpected, hidentities⟩ := releaseArtifacts_identities h
  rw [hidentities, (List.perm_insertionSort _ _).nodup_iff]
  exact expectedIdentities_nodup hexpected

end Rows

section Safeguard

variable {p : Project} {rows : List Artifact} {path : Path} {value : String} {liveJobs : Nat}

theorem managedFile_eq_ok : managedFile p value = .ok path ↔ managedPath p value = .ok path ∧ (p.files path).isSome := by
  simp only [managedFile, bind_eq_ok, pure_eq_ok, require_eq_ok]
  constructor
  · rintro ⟨other, hother, _, hfile, rfl⟩
    exact ⟨hother, hfile⟩
  · rintro ⟨hpath, hfile⟩
    exact ⟨path, hpath, (), hfile, rfl⟩

/-- The receipt of the safeguard, where there is one. -/
def readReceipt (p : Project) : Option Receipt := do
  let path ← (managedPath p p.authority.safeguard.receipt).toOption
  let bytes ← p.files path
  match p.receipt bytes with
  | .object receipt => some receipt
  | _ => none

/-- The receipt is of these artifacts, and of the snapshot that is there. -/
def Safeguarded (p : Project) (rows : List Artifact) (receipt : Receipt) : Prop :=
  ∃ snapshot retention, managedPath p p.authority.safeguard.ledgerSnapshot = .ok snapshot ∧ (p.files snapshot).isSome ∧
    managedFile p p.authority.safeguard.retentionAuthority = .ok retention ∧
    mismatches p rows retention snapshot true receipt = []

theorem readReceipt_eq_some {receipt : Receipt} : readReceipt p = some receipt ↔ ∃ path bytes,
    managedPath p p.authority.safeguard.receipt = .ok path ∧ p.files path = some bytes ∧ p.receipt bytes = .object receipt := by
  unfold readReceipt
  cases hpath : managedPath p p.authority.safeguard.receipt with
  | error message => simp [Except.toOption]
  | ok path =>
    cases hbytes : p.files path with
    | none => simp [Except.toOption, hbytes]
    | some bytes =>
      cases hreceipt : p.receipt bytes with
      | object receipt => simp [Except.toOption, hbytes, hreceipt]
      | _ => simp [Except.toOption, hbytes, hreceipt]

theorem receiptState_current {retention snapshot : Path} {verifySnapshot : Bool} {text : ReceiptText} {error : Option String}
    (h : receiptState p rows retention snapshot verifySnapshot text = .ok (.current, error)) :
    ∃ receipt, text = .object receipt ∧ mismatches p rows retention snapshot verifySnapshot receipt = [] := by
  cases text with
  | object receipt =>
    by_cases hwrong : mismatches p rows retention snapshot verifySnapshot receipt = []
    · exact ⟨receipt, rfl, hwrong⟩
    · simp [receiptState, hwrong, pure_eq_ok] at h
  | _ => cases h

theorem safeguardStatus_current : (∃ status, safeguardStatus p rows liveJobs true = .ok status ∧ status.state = .current) ↔
    ∃ receipt, readReceipt p = some receipt ∧ Safeguarded p rows receipt := by
  constructor
  · rintro ⟨status, hstatus, hcurrent⟩
    simp only [safeguardStatus, bind_eq_ok, pure_eq_ok] at hstatus
    obtain ⟨receiptPath, hreceiptPath, snapshot, hsnapshot, retention, hretention, ⟨state, error⟩, hstate, rfl⟩ := hstatus
    dsimp only at hcurrent
    subst hcurrent
    unfold safeguardState at hstate
    split at hstate
    · rename_i bytes content hbytes hthere
      obtain ⟨receipt, htext, hsame⟩ := receiptState_current hstate
      exact ⟨receipt, readReceipt_eq_some.mpr ⟨receiptPath, bytes, hreceiptPath, hbytes, htext⟩, snapshot, retention,
        hsnapshot, by rw [hthere]; rfl, hretention, hsame⟩
    · cases hstate
  · rintro ⟨receipt, hreceipt, snapshot, retention, hsnapshot, hthere, hretention, hsame⟩
    obtain ⟨receiptPath, bytes, hreceiptPath, hbytes, htext⟩ := readReceipt_eq_some.mp hreceipt
    obtain ⟨content, hcontent⟩ := Option.isSome_iff_exists.mp hthere
    have hstate : safeguardState p rows retention snapshot receiptPath true = .ok (.current, none) := by
      simp only [safeguardState, hbytes, hcontent, htext, receiptState, hsame, if_true]
      rfl
    simp only [safeguardStatus, hreceiptPath, hsnapshot, hretention, ok_bind, hstate]
    exact ⟨_, rfl, rfl⟩

end Safeguard

section Inspected

variable {p : Project} {status : Status}

theorem blockers_eq_nil {missing unexpected : List String} {quality : SidecarStatus} {report registry : Path}
    {safeguard : SafeguardStatus} {requireSafeguard : Bool}
    (h : blockers p missing unexpected quality report registry safeguard requireSafeguard = []) :
    missing = [] ∧ unexpected = [] ∧ isFile p registry = true := by
  simp only [blockers, List.append_eq_nil_iff, ite_eq_left_iff, ite_eq_right_iff, List.cons_ne_nil, imp_false, not_not,
    Bool.not_eq_false] at h
  obtain ⟨⟨⟨⟨⟨hmissing, hunexpected⟩, -⟩, -⟩, hregistry⟩, -⟩ := h
  exact ⟨hmissing, hunexpected, hregistry⟩

/-- What a build finds of an export that is ready. -/
structure Inspected (p : Project) : Prop where
  authority : loadAuthority p = .ok p.authority
  outputRoot : ∃ path, managedPath p p.authority.outputRoot = .ok path
  registry : ∃ path, managedFile p p.authority.compatibility.laneRegistry = .ok path

theorem inspected_of_ready (hinspect : inspectExport p true = .ok status) (hready : status.ready = true) : Inspected p := by
  simp only [inspectExport, bind_eq_ok, pure_eq_ok] at hinspect
  obtain ⟨authority, hauthority, expected, -, ledgerPath, -, ledger, -, report, -, registry, hregistry, safeguard, -,
    outputRoot, houtput, -, -, rfl⟩ := hinspect
  have hsame : authority = p.authority := by
    simp only [loadAuthority, bind_eq_ok, pure_eq_ok] at hauthority
    obtain ⟨_, -, _, -, rfl⟩ := hauthority
    rfl
  subst hsame
  obtain ⟨-, -, hfile⟩ := blockers_eq_nil (List.isEmpty_iff.mp hready)
  exact ⟨hauthority, ⟨outputRoot, houtput⟩, registry, managedFile_eq_ok.mpr ⟨hregistry, hfile⟩⟩

end Inspected

section Payload

variable {p : Project} {rows : List Artifact} {names : List String} {receipt validation registry : Path} {row : Artifact}

/-- The names of a package. -/
def payloadNames (names : List String) (rows : List Artifact) : List String :=
  ["release.toml", "README.md", "manifest.md"] ++ names ++ rows.map Artifact.packagePath ++ ["checksums.sha256"]

def payload (p : Project) (receipt validation registry : Path) (names : List String) (rows : List Artifact) : List Member :=
  fixedMembers p receipt validation registry names ++ rows.map (artifactMember p) ++
    [⟨"checksums.sha256", p.render .checksums⟩]

theorem length_packagePaths (h : packagePaths p = .ok names) : names.length = 5 := by
  simp only [packagePaths, bind_eq_ok, pure_eq_ok] at h
  obtain ⟨_, -, _, -, _, -, _, -, _, -, rfl⟩ := h
  rfl

theorem fixedMembers_names (h : names.length = 5) : (fixedMembers p receipt validation registry names).map Member.name =
    ["release.toml", "README.md", "manifest.md"] ++ names := by
  match names, h with
  | [_, _, _, _, _], _ => rfl

theorem length_fixedMembers (h : names.length = 5) : (fixedMembers p receipt validation registry names).length = 8 := by
  simp [fixedMembers, h]

theorem payload_names (h : names.length = 5) :
    (payload p receipt validation registry names rows).map Member.name = payloadNames names rows := by
  simp only [payload, payloadNames, List.map_append, fixedMembers_names h, List.map_map, List.map_cons, List.map_nil]
  rfl

theorem length_payload (h : names.length = 5) :
    (payload p receipt validation registry names rows).length = rows.length + 9 := by
  simp only [payload, List.length_append, length_fixedMembers h, List.length_map, List.length_singleton]
  omega

theorem artifactMember_mem (hrow : row ∈ rows) : artifactMember p row ∈ payload p receipt validation registry names rows :=
  List.mem_append_left _ (List.mem_append_right _ (List.mem_map_of_mem hrow))

/-- The member of the archive. -/
def archived (member : Member) : Member := { member with name := memberName member.name }

theorem archived_artifactMember : archived (artifactMember p row) = artifactMember p row := by
  simp only [archived, artifactMember, Artifact.packagePath, memberName_packagePath]

theorem payloadNames_packagePaths (h : ((payloadNames names rows).map memberName).Nodup) :
    (rows.map Artifact.packagePath).Nodup := by
  have hnodup := h.of_map memberName
  simp only [payloadNames, List.nodup_append] at hnodup
  exact hnodup.1.2.1

/-- No name that an authority leaves to the program has a leading slash. -/
theorem memberName_payloadNames : (∀ name ∈ payloadNames names rows, memberName name = name) ↔
    ∀ name ∈ names, memberName name = name := by
  have hfixed : ∀ name ∈ ["release.toml", "README.md", "manifest.md", "checksums.sha256"], memberName name = name := by decide
  constructor
  · intro h name hname
    exact h name (by simp [payloadNames, hname])
  · intro h name hname
    simp only [payloadNames, List.mem_append, List.mem_map, List.mem_singleton] at hname
    obtain ((hname | hname) | ⟨row, -, rfl⟩) | rfl := hname
    · exact hfixed name (by simp only [List.mem_cons, List.not_mem_nil, or_false] at hname ⊢; tauto)
    · exact h name hname
    · exact memberName_packagePath
    · exact hfixed _ (by simp)

end Payload

section Release

variable {p : Project} {package : Package} {status : Status} {rows : List Artifact}

/-- One member for every expected identity, under names that all differ, with its row in the catalogue, its checksum line, and the
bytes that the ledger and the receipt of the safeguard record. -/
structure Faithful (p : Project) (package : Package) : Prop where
  selected : releaseArtifacts p = .ok package.catalogue
  identities : (package.catalogue.map Artifact.identity).Nodup
  expected : ∃ expected, expectedIdentities p = .ok expected ∧
    ∀ identity, identity ∈ package.catalogue.map Artifact.identity ↔ identity ∈ expected.identities
  names : (package.members.map Member.name).Nodup
  paths : (package.catalogue.map Artifact.packagePath).Nodup
  members : package.members.length = package.catalogue.length + 9
  stored : ∀ row ∈ package.catalogue, ∃ member ∈ package.members, member.name = row.packagePath ∧
    p.sha256 member.content = row.artifactSha256
  lines : (package.checksums.map ChecksumLine.name).Nodup
  summed : ∀ row ∈ package.catalogue, ⟨row.artifactSha256, row.packagePath⟩ ∈ package.checksums
  listed : ∃ receipt, readReceipt p = some receipt ∧
    ∀ row ∈ package.catalogue, ⟨row.identity, row.artifactSha256⟩ ∈ receipt.artifacts

/-- What a build needs of an export, and an inspection does not ask for. -/
structure Buildable (p : Project) (rows : List Artifact) : Prop where
  selected : releaseArtifacts p = .ok rows
  nonempty : rows ≠ []
  ranks : ∀ row ∈ rows, sqliteInteger row.rank
  safeguarded : ∃ receipt, readReceipt p = some receipt ∧ Safeguarded p rows receipt ∧
    ∀ row ∈ rows, ⟨row.identity, row.artifactSha256⟩ ∈ receipt.artifacts
  quality : ∃ path database, managedFile p p.authority.hashQuality.database = .ok path ∧
    p.quality ((p.files path).getD []) = some database ∧ database.quickCheck = true
  report : ∃ path, managedFile p p.authority.validation.report = .ok path
  digests : ∀ row ∈ rows, fileSha256 p row.artifactPath = row.artifactSha256
  keys : p.authority.population.requireLedgerSha256.isSome ∧ p.authority.compressionLevel.isSome ∧
    p.authority.reopenArchive.isSome
  names : ∃ names, packagePaths p = .ok names ∧ ((payloadNames names rows).map memberName).Nodup ∧
    (p.authority.reopenArchive = some true → ∀ name ∈ names, memberName name = name)

theorem snapshotQuality_eq_ok : snapshotQuality p = .ok () ↔ ∃ path database,
    managedFile p p.authority.hashQuality.database = .ok path ∧ p.quality ((p.files path).getD []) = some database ∧
      database.quickCheck = true := by
  simp only [snapshotQuality, bind_eq_ok]
  refine exists_congr fun path => ?_
  cases p.quality ((p.files path).getD []) with
  | none => simp
  | some database => simp [require_eq_ok]

theorem managedFile_ledger (h : releaseArtifacts p = .ok rows) : ∃ path ledger,
    managedFile p p.authority.population.ledger = .ok path ∧ readLedger p path = .ok ledger := by
  simp only [releaseArtifacts, bind_eq_ok] at h
  obtain ⟨_, -, path, hpath, ledger, hledger, -⟩ := h
  exact ⟨path, ledger, hpath, hledger⟩

theorem catalogue_eq_ok {artifacts : List Artifact} : catalogue artifacts = .ok rows ↔ rows = artifacts ∧
    (∀ row ∈ rows, sqliteInteger row.rank) ∧ (rows.map Artifact.identity).Nodup ∧ (rows.map Artifact.packagePath).Nodup := by
  simp only [catalogue, bind_eq_ok, pure_eq_ok, require_eq_ok]
  constructor
  · rintro ⟨_, hranks, _, hidentities, _, hpaths, rfl⟩
    exact ⟨rfl, hranks, hidentities, hpaths⟩
  · rintro ⟨rfl, hranks, hidentities, hpaths⟩
    exact ⟨(), hranks, (), hidentities, (), hpaths, rfl⟩

/-- A build that returns has passed all its gates. -/
theorem buildExport_eq_ok (h : buildExport p = .ok package) : ∃ names receipt validation registry liveJobs reopenArchive,
    releaseArtifacts p = .ok package.catalogue ∧ package.catalogue ≠ [] ∧
    (∃ status, safeguardStatus p package.catalogue liveJobs true = .ok status ∧ status.state = .current) ∧
    (∀ row ∈ package.catalogue, sqliteInteger row.rank) ∧ snapshotQuality p = .ok () ∧ packagePaths p = .ok names ∧
    managedFile p p.authority.validation.report = .ok validation ∧
    (p.authority.population.requireLedgerSha256.isSome ∧ p.authority.compressionLevel.isSome ∧
      p.authority.reopenArchive = some reopenArchive) ∧
    (reopenArchive = true → reopened (payload p receipt validation registry names package.catalogue) = true) ∧
    package.members = (payload p receipt validation registry names package.catalogue).map archived := by
  simp only [buildExport, bind_eq_ok, pure_eq_ok, require_eq_ok, lookUp_eq_ok] at h
  obtain ⟨authority, hauthority, -, -, -, -, artifacts, hartifacts, ledgerPath, -, ledger, -, safeguard, hsafeguard, -, hcurrent,
    ledgerSha256, hledgerSha256, -, -, -, -, builtAt, hbuiltAt, rows, hrows, ⟨⟩, hquality, names, hnames, validation, hvalidation,
    registry, -, receipt, -, level, hlevel, reopenArchive, hreopenArchive, -, hreopened, rfl⟩ := h
  have hsame : authority = p.authority := by
    simp only [loadAuthority, bind_eq_ok, pure_eq_ok] at hauthority
    obtain ⟨_, -, _, -, rfl⟩ := hauthority
    rfl
  subst hsame
  obtain ⟨rfl, hranks, -, -⟩ := catalogue_eq_ok.mp hrows
  refine ⟨names, receipt, validation, registry, ledger.liveJobs, reopenArchive, hartifacts, ?_, ⟨safeguard, hsafeguard, hcurrent⟩,
    hranks, hquality, hnames, hvalidation, ⟨by rw [hledgerSha256]; rfl, by rw [hlevel]; rfl, hreopenArchive⟩, hreopened, rfl⟩
  intro hempty
  dsimp only at hempty
  rw [hempty] at hbuiltAt
  cases hbuiltAt

theorem Buildable.builds (h : Buildable p rows) (hinspect : inspectExport p true = .ok status) (hready : status.ready = true) :
    ∃ package, buildExport p = .ok package ∧ Faithful p package := by
  obtain ⟨hauthority, ⟨outputRoot, houtput⟩, registry, hregistry⟩ := inspected_of_ready hinspect hready
  obtain ⟨ledgerPath, ledger, hledgerPath, hledger⟩ := managedFile_ledger h.selected
  obtain ⟨receipt, hreceipt, hsafeguarded, hlisted⟩ := h.safeguarded
  obtain ⟨safeguard, hsafeguard, hcurrent⟩ : ∃ safeguard, safeguardStatus p rows ledger.liveJobs true = .ok safeguard ∧
    safeguard.state = .current := safeguardStatus_current.mpr ⟨receipt, hreceipt, hsafeguarded⟩
  obtain ⟨receiptPath, bytes, hreceiptPath, hbytes, -⟩ := readReceipt_eq_some.mp hreceipt
  have hreceiptFile : managedFile p p.authority.safeguard.receipt = .ok receiptPath :=
    managedFile_eq_ok.mpr ⟨hreceiptPath, by rw [hbytes]; rfl⟩
  obtain ⟨validation, hvalidation⟩ := h.report
  obtain ⟨hledgerSha256, hlevel, hreopen⟩ := h.keys
  obtain ⟨ledgerSha256, hledgerSha256⟩ := Option.isSome_iff_exists.mp hledgerSha256
  obtain ⟨level, hlevel⟩ := Option.isSome_iff_exists.mp hlevel
  obtain ⟨reopenArchive, hreopen⟩ := Option.isSome_iff_exists.mp hreopen
  obtain ⟨names, hnames, hnodup, hplain⟩ := h.names
  have hfive := length_packagePaths hnames
  have hpaths := payloadNames_packagePaths hnodup
  have hidentities := releaseArtifacts_nodup h.selected
  obtain ⟨builtAt, hbuiltAt⟩ : ∃ builtAt, (rows.map Artifact.completedAt).max? = some builtAt := by
    rw [← Option.isSome_iff_exists, List.isSome_max?_iff]
    simpa using h.nonempty
  have hreopened : reopenArchive = true → reopened (payload p receiptPath validation registry names rows) = true := by
    intro htrue
    rw [reopened_iff, payload_names hfive]
    exact ⟨hnodup.of_map memberName, memberName_payloadNames.mpr (hplain (by rw [hreopen, htrue]))⟩
  have hbuild : buildExport p = .ok ⟨builtAt, (payload p receiptPath validation registry names rows).map archived, rows,
      (fixedMembers p receiptPath validation registry names ++ rows.map (artifactMember p)).map (checksumLine p)⟩ := by
    simp only [buildExport, bind_eq_ok, pure_eq_ok, require_eq_ok, lookUp_eq_ok]
    exact ⟨_, hauthority, status, hinspect, (), hready, rows, h.selected, ledgerPath, hledgerPath, ledger, hledger, safeguard,
      hsafeguard, (), hcurrent, ledgerSha256, hledgerSha256, (), fun _ => h.digests, outputRoot, houtput, builtAt, hbuiltAt, rows,
      catalogue_eq_ok.mpr ⟨rfl, h.ranks, hidentities, hpaths⟩, (), snapshotQuality_eq_ok.mpr h.quality, names, hnames, validation,
      hvalidation, registry, hregistry, receiptPath, hreceiptFile, level, hlevel, reopenArchive, hreopen, (), hreopened, rfl⟩
  obtain ⟨expected, hexpected, hsorted⟩ := releaseArtifacts_identities h.selected
  refine ⟨_, hbuild, ⟨h.selected, hidentities, ⟨expected, hexpected, fun identity => ?_⟩, ?_, hpaths, ?_, ?_, ?_, ?_,
    receipt, hreceipt, hlisted⟩⟩
  · rw [hsorted, List.mem_insertionSort]
  · have hmap : ((payload p receiptPath validation registry names rows).map archived).map Member.name =
        (payloadNames names rows).map memberName := by
      rw [← payload_names hfive, List.map_map, List.map_map]
      rfl
    rw [hmap]
    exact hnodup
  · rw [List.length_map, length_payload hfive]
  · intro row hrow
    refine ⟨artifactMember p row, ?_, rfl, h.digests row hrow⟩
    rw [← archived_artifactMember]
    exact List.mem_map_of_mem (artifactMember_mem hrow)
  · have hnames := (hnodup.of_map memberName)
    have hmap : ((fixedMembers p receiptPath validation registry names ++ rows.map (artifactMember p)).map
        (checksumLine p)).map ChecksumLine.name = (["release.toml", "README.md", "manifest.md"] ++ names) ++
          rows.map Artifact.packagePath := by
      rw [← fixedMembers_names hfive, List.map_map, List.map_append, List.map_map]
      rfl
    rw [hmap]
    exact (List.nodup_append.mp hnames).1
  · intro row hrow
    have hline : checksumLine p (artifactMember p row) = ⟨row.artifactSha256, row.packagePath⟩ := by
      rw [← h.digests row hrow]
      rfl
    rw [← hline]
    exact List.mem_map_of_mem (List.mem_append_right _ (List.mem_map_of_mem hrow))

theorem Faithful.buildable (h : Faithful p package) (hbuild : buildExport p = .ok package) : Buildable p package.catalogue := by
  obtain ⟨names, receiptPath, validation, registry, liveJobs, reopenArchive, hselected, hnonempty, hsafeguard, hranks, hquality,
    hnames, hvalidation, ⟨hledgerSha256, hlevel, hreopen⟩, hreopened, hmembers⟩ := buildExport_eq_ok hbuild
  obtain ⟨receipt, hreceipt, hsafeguarded⟩ := safeguardStatus_current.mp hsafeguard
  obtain ⟨other, hother, hlisted⟩ := h.listed
  cases hreceipt.symm.trans hother
  have hfive := length_packagePaths hnames
  have hnodup : ((payloadNames names package.catalogue).map memberName).Nodup := by
    have hmap : package.members.map Member.name = (payloadNames names package.catalogue).map memberName := by
      rw [hmembers, ← payload_names hfive, List.map_map, List.map_map]
      rfl
    rw [← hmap]
    exact h.names
  refine ⟨hselected, hnonempty, hranks, ⟨receipt, hreceipt, hsafeguarded, hlisted⟩, snapshotQuality_eq_ok.mp hquality,
    ⟨validation, hvalidation⟩, fun row hrow => ?_, ⟨hledgerSha256, hlevel, by rw [hreopen]; rfl⟩, names, hnames, hnodup,
    fun htrue => ?_⟩
  · -- the only member of this name is the artifact's own
    obtain ⟨member, hmember, hname, hdigest⟩ := h.stored row hrow
    have hown : artifactMember p row ∈ package.members := by
      rw [hmembers, ← archived_artifactMember]
      exact List.mem_map_of_mem (artifactMember_mem hrow)
    obtain rfl := List.inj_on_of_nodup_map h.names hmember hown hname
    exact hdigest
  · cases hreopen.symm.trans htrue
    have hplain := (reopened_iff.mp (hreopened rfl)).2
    rw [payload_names hfive] at hplain
    exact memberName_payloadNames.mp hplain

end Release

namespace OneLibrary

def digest : String := "4bf5122f344554c53bde2ebb8cd2b7e3d1600ad631c385a5d7cce23c7785459a"

def populationSha256 : String := "505063cfa0628c5b5445b76c00b468c8cd6229d3d482dd6f58b62b81cb9f7ee8"

/-- Only the safeguard is required. -/
def authority : Authority where
  schemaVersion := "fidb-export/v1"
  releaseId := "release"
  packageFormat := "tar.zst"
  compressionLevel := some 3
  outputRoot := "exports"
  safeguard := ⟨"receipt.json", "snapshot.sqlite3", "retention.toml", true, some "evidence/source-safeguard.json"⟩
  population := ⟨"ledger.sqlite3", 1, 1, 1, some true⟩
  cataloguePath := some "index/catalogue.sqlite3"
  hashQuality := ⟨"hash-quality.sqlite3", 1, false, some "index/hash-quality.sqlite3"⟩
  validation := ⟨"report.json", false, some "validation/report.json"⟩
  compatibility := ⟨"lanes.toml", some "authority/lanes.toml"⟩
  reopenArchive := some true

def completed : Completed where
  jobId := "job-1"
  batchId := "batch"
  baseCellId := "cell"
  updatedAt := "2026-01-01T00:00:00+00:00"
  result := some ⟨"library.fidbf", digest, "seal.json", digest⟩
  cell := some ⟨"library", "1.0", digest, "linux-x86-64-gcc", "baseline_o2", "gcc", "x86:LE:64:default", "gcc"⟩

def identity : String := "library@1.0:linux-x86-64-gcc:baseline_o2"

def receipt : Receipt where
  schemaVersion := some "fidb-export-safeguard/v1"
  authoritySha256 := some digest
  populationSha256 := some populationSha256
  artifactCount := some 1
  rawArtifactBytes := some 1
  retentionAuthoritySha256 := some digest
  ledgerSnapshot := some ⟨some "snapshot.sqlite3", some 1, some digest⟩
  artifacts := [⟨identity, digest⟩]

/-- A project whose files all hold one byte. -/
def project (names : List String) : Project where
  authority
  authoritySha256 := digest
  sources := some [⟨"library", "Library", "1.0", 1⟩]
  executable := .ok [("linux-x86-64-gcc", "baseline_o2")]
  resolve text := some [text]
  files path := if path ∈ names.map fun name => [name] then some [1] else none
  ledger _ := .ok ⟨[completed], 0⟩
  quality _ := some ⟨true, some ⟨1, digest, 1, 1⟩⟩
  receipt _ := .object receipt
  sha256 _ := digest
  textSha256 _ := populationSha256
  render _ := [1]

def names : List String :=
  ["ledger.sqlite3", "snapshot.sqlite3", "receipt.json", "retention.toml", "hash-quality.sqlite3", "lanes.toml", "library.fidbf"]

def unreported : Project := project names

def reported : Project := project ("report.json" :: names)

theorem inspected_of_any {p : Project} (h : (inspectExport p true).toOption.any Status.ready = true) :
    ∃ status, inspectExport p true = .ok status ∧ status.ready = true := by
  cases hinspect : inspectExport p true with
  | error message => simp [hinspect, Except.toOption] at h
  | ok status =>
    rw [hinspect] at h
    exact ⟨status, rfl, h⟩

theorem unreported_ready : ∃ status, inspectExport unreported true = .ok status ∧ status.ready = true :=
  inspected_of_any (by decide)

theorem reported_ready : ∃ status, inspectExport reported true = .ok status ∧ status.ready = true :=
  inspected_of_any (by decide)

def row : Artifact where
  identity
  libraryId := "library"
  libraryVersion := "1.0"
  rank := 1
  routeId := "linux-x86-64-gcc"
  treatmentId := "baseline_o2"
  jobId := "job-1"
  batchId := "batch"
  cellId := "cell"
  sourceSha256 := digest
  toolchainIdentity := "gcc"
  ghidraLanguageId := "x86:LE:64:default"
  ghidraCompilerSpecId := "gcc"
  artifactPath := ["library.fidbf"]
  artifactSha256 := digest
  artifactBytes := 1
  sealPath := "seal.json"
  sealSha256 := digest
  completedAt := "2026-01-01T00:00:00+00:00"

theorem reported_buildable : Buildable reported [row] where
  selected := by rfl
  nonempty := List.cons_ne_nil _ _
  ranks := by decide
  safeguarded := ⟨receipt, rfl, ⟨["snapshot.sqlite3"], ["retention.toml"], rfl, rfl, rfl, by decide⟩, by decide⟩
  quality := ⟨["hash-quality.sqlite3"], _, rfl, rfl, rfl⟩
  report := ⟨["report.json"], rfl⟩
  digests := by decide
  keys := ⟨rfl, rfl, rfl⟩
  names := ⟨_, rfl, by decide, fun _ => by decide⟩

end OneLibrary

end FidbPoc.Exports
