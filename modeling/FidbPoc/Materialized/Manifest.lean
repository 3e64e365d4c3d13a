import FidbPoc.Materialized.Plans

namespace FidbPoc.Materialized

open FidbPoc.Lib FidbPoc.Lib.Toml FidbPoc.Lib.TomlTables

section Documents

/-- The label of the time model, which no loader asks to be a text; `shown` is the `str()` of another value. -/
inductive Label
  | text (value : String)
  | other (shown : String)

def Label.str : Label → String
  | .text value => value
  | .other shown => shown

def Label.IsText : Label → Prop
  | .text _ => True
  | .other _ => False

instance (label : Label) : Decidable label.IsText :=
  match label with
  | .text _ => isTrue trivial
  | .other _ => isFalse fun h => h

structure SourceDigests where
  modelSha256 : String
  evidenceSha256 : String
  performanceProfilesSha256 : String
  widthBatchesSha256 : String
  scheduleSha256 : String

/-- What `compile_time_block_plan` returns; its blocks are numbered from 1. -/
structure TimePlan (ν : Type) where
  id : String
  label : Label
  languageId : String
  authorityPath : String
  planDigest : String
  performanceProfile : String
  libraries : Nat
  executions : Nat
  estimatedHours : Hours ν
  planningLowerHours : Hours ν
  planningUpperHours : Hours ν
  sourceDigests : SourceDigests
  blocks : List (TimeBlock ν)
  numbered : blocks.map TimeBlock.position = List.range' 1 blocks.length

structure OutputPath where
  directory : String
  name : String
  deriving DecidableEq

def OutputPath.str (path : OutputPath) : String := path.directory ++ "/" ++ path.name

structure Block (ν : Type) where
  id : String
  position : Nat
  state : String
  plan : OutputPath
  planSha256 : String
  queueDigest : String
  executions : Nat
  estimatedHours : Hours ν
  planningLowerHours : Hours ν
  planningUpperHours : Hours ν
  sourceIds : List String
  recipeIds : List String

structure Summary (ν : Type) where
  blocks : Nat
  libraries : Nat
  executions : Nat
  estimatedHours : Hours ν
  planningLowerHours : Hours ν
  planningUpperHours : Hours ν

structure Body (ν : Type) where
  schemaVersion : String
  id : String
  label : Label
  state : String
  languageId : String
  timeModel : String
  timePlanDigest : String
  performanceProfile : String
  outputDirectory : String
  manifestPath : OutputPath
  summary : Summary ν
  sourceDigests : SourceDigests
  blocks : List (Block ν)
  qualificationGates : List Gate

structure Document (ν : Type) extends Body ν where
  materializationDigest : String
  renderedPlans : Dict OutputPath Text

end Documents

section Compilation

def materializationSchema : String := "fidb-materialized-campaign/v1"

def disarmed : String := "materialized-disarmed"

def planName (position : Nat) : String := "block-" ++ Planning.format02d position ++ ".toml"

def manifestName : String := "manifest.toml"

/-- What the compilation takes from other modules. -/
structure Resolvers (ν : Type) where
  sha256 : Text → String
  resolvePlan : String → Text → Except String (List QueueRow)
  queueIdentityDigest : List Identity → String
  canonicalDigest : Body ν → Except String String

def addItem (axes : String → List String × List String) (grouped : Dict String Group) (item : Item) : Dict String Group :=
  match grouped.get? item.batchAuthority with
  | none =>
    grouped.set item.batchAuthority
      ⟨item.batchAuthority, [item.recipeId], (axes item.batchAuthority).1, (axes item.batchAuthority).2⟩
  | some group => grouped.set item.batchAuthority { group with recipeIds := group.recipeIds ++ [item.recipeId] }

def blockGates (qualificationGates : List Gate) (items : List Item) : List Gate :=
  let qualificationByBatch := Dict.ofList (qualificationGates.map fun gate => (gate.batchId, gate))
  (Planning.fromKeys (items.map Item.batchId)).filterMap qualificationByBatch.get?

variable {ν : Type} (floats : FloatFormat ν) (resolvers : Resolvers ν)

def materializeBlock (campaignId campaignDirectory : String) (axes : String → List String × List String)
    (qualificationGates : List Gate) (block : TimeBlock ν) : Except String (Block ν × Text) := do
  let grouped := block.items.foldl (addItem axes) .empty
  let payload := renderPlan floats campaignId block grouped.values (blockGates qualificationGates block.items)
  let resolved ← resolvers.resolvePlan (planName block.position) payload
  let identity ← queueIdentity resolved
  if identity.length ≠ block.executions then
    .error (block.id ++ " materialized " ++ toString identity.length ++ " cells; expected " ++ toString block.executions)
  else
    .ok ({
      id := block.id
      position := block.position
      state := disarmed
      plan := ⟨campaignDirectory, planName block.position⟩
      planSha256 := resolvers.sha256 payload
      queueDigest := resolvers.queueIdentityDigest identity
      executions := identity.length
      estimatedHours := block.estimatedHours
      planningLowerHours := block.planningLowerHours
      planningUpperHours := block.planningUpperHours
      sourceIds := block.items.map Item.sourceId
      recipeIds := block.items.map Item.recipeId }, payload)

/-- `compile_materialization` from the time plan on, whose items already have their recipes. -/
def compileMaterialization (outputRoot : String) (axes : String → List String × List String)
    (qualificationGates : List Gate) (timePlan : TimePlan ν) : Except String (Document ν) := do
  let campaignDirectory := outputRoot ++ "/" ++ timePlan.id
  let rows ← timePlan.blocks.mapM (materializeBlock floats resolvers timePlan.id campaignDirectory axes qualificationGates)
  let totalExecutions := (rows.map fun row => row.1.executions).sum
  if totalExecutions ≠ timePlan.executions then
    .error "materialized campaign execution total does not match time plan"
  else
    let body : Body ν := {
      schemaVersion := materializationSchema
      id := timePlan.id
      label := timePlan.label
      state := disarmed
      languageId := timePlan.languageId
      timeModel := timePlan.authorityPath
      timePlanDigest := timePlan.planDigest
      performanceProfile := timePlan.performanceProfile
      outputDirectory := campaignDirectory
      manifestPath := ⟨campaignDirectory, manifestName⟩
      summary := {
        blocks := rows.length
        libraries := timePlan.libraries
        executions := totalExecutions
        estimatedHours := timePlan.estimatedHours
        planningLowerHours := timePlan.planningLowerHours
        planningUpperHours := timePlan.planningUpperHours }
      sourceDigests := timePlan.sourceDigests
      blocks := rows.map Prod.fst
      qualificationGates := qualificationGates }
    let digest ← resolvers.canonicalDigest body
    .ok { body with
      materializationDigest := digest
      renderedPlans := Dict.ofList (rows.map fun row => (row.1.plan, row.2)) }

end Compilation

section Rendering

variable {ν : Type} (floats : FloatFormat ν)

def SourceDigests.fields (digests : SourceDigests) : Fields ν :=
  [(text "model_sha256", string digests.modelSha256),
    (text "evidence_sha256", string digests.evidenceSha256),
    (text "performance_profiles_sha256", string digests.performanceProfilesSha256),
    (text "width_batches_sha256", string digests.widthBatchesSha256),
    (text "schedule_sha256", string digests.scheduleSha256)]

def Summary.fields (summary : Summary ν) : Fields ν :=
  [(text "blocks", .int summary.blocks),
    (text "libraries", .int summary.libraries),
    (text "executions", .int summary.executions),
    (text "estimated_hours", summary.estimatedHours.value),
    (text "planning_lower_hours", summary.planningLowerHours.value),
    (text "planning_upper_hours", summary.planningUpperHours.value)]

def Block.fields (block : Block ν) : Fields ν :=
  [(text "id", string block.id),
    (text "position", .int block.position),
    (text "state", string block.state),
    (text "plan", string block.plan.str),
    (text "plan_sha256", string block.planSha256),
    (text "queue_digest", string block.queueDigest),
    (text "executions", .int block.executions),
    (text "estimated_hours", block.estimatedHours.value),
    (text "planning_lower_hours", block.planningLowerHours.value),
    (text "planning_upper_hours", block.planningUpperHours.value),
    (text "source_ids", strings block.sourceIds),
    (text "recipe_ids", strings block.recipeIds)]

def Document.scalars (document : Document ν) : Fields ν :=
  [(text "schema_version", string document.schemaVersion),
    (text "id", string document.id),
    (text "label", string document.label.str),
    (text "state", string document.state),
    (text "language_id", string document.languageId),
    (text "time_model", string document.timeModel),
    (text "time_plan_digest", string document.timePlanDigest),
    (text "performance_profile", string document.performanceProfile),
    (text "output_directory", string document.outputDirectory),
    (text "materialization_digest", string document.materializationDigest)]

/-- The tables of the manifest behind its scalar fields. -/
def Document.tables (document : Document ν) : List (Section ν) :=
  [(.table (text "summary"), document.summary.fields), (.table (text "source_digests"), document.sourceDigests.fields)] ++
    document.qualificationGates.map (fun gate => (.element (text "qualification_gates"), gate.fields)) ++
    document.blocks.map fun block => (.element (text "blocks"), block.fields)

def renderManifest (document : Document ν) : Text :=
  renderDocument floats generatedComment ((.root, document.scalars) :: document.tables)

inductive LoadError
  | decode
  | unsupported
  deriving DecidableEq

/-- The checks of `load_materialization_manifest` on the text of the file. -/
def loadMaterializationManifest (loadsOther : Text → Option (TomlTables.Document ν)) (src : Text) :
    Except LoadError (TomlTables.Document ν) :=
  match loads floats loadsOther src with
  | none => .error .decode
  | some document =>
    match document.root.lookup (text "schema_version") with
    | some (.str schema) => if schema = text materializationSchema then .ok document else .error .unsupported
    | _ => .error .unsupported

end Rendering

section RoundTrip

variable {ν : Type} {floats : FloatFormat ν} {document : Document ν} {loaded : TomlTables.Document ν}
  {loadsOther : Text → Option (TomlTables.Document ν)}

/-- The loaded manifest has the fields of the document. -/
structure Returns (document : Document ν) (loaded : TomlTables.Document ν) : Prop where
  label : document.label.IsText
  scalars : loaded.root = document.scalars
  summary : loaded.tables.get? (text "summary") = some document.summary.fields
  sourceDigests : loaded.tables.get? (text "source_digests") = some document.sourceDigests.fields
  gates : loaded.elements (text "qualification_gates") = document.qualificationGates.map Gate.fields
  blocks : loaded.elements (text "blocks") = document.blocks.map Block.fields

/-- A document that TOML reads as JSON writes it: its label is a text and no text in it holds DEL. -/
structure Legible (document : Document ν) : Prop where
  label : document.label.IsText
  scalars : FieldsReadable document.scalars
  tables : ∀ row ∈ document.tables, FieldsReadable row.2

theorem generatedComment_isComment : IsComment generatedComment := by
  refine ⟨by decide, by decide, fun c hc => ⟨?_, ?_⟩⟩
  all_goals
    rintro rfl
    exact absurd hc (by decide)

theorem SourceDigests.wellKeyed (digests : SourceDigests) : WellKeyed (digests.fields : Fields ν) := by
  refine .of_keys [text "model_sha256", text "evidence_sha256", text "performance_profiles_sha256",
    text "width_batches_sha256", text "schedule_sha256"] rfl ?_ ?_
  · decide
  · decide

theorem Summary.wellKeyed (summary : Summary ν) : WellKeyed summary.fields := by
  refine .of_keys [text "blocks", text "libraries", text "executions", text "estimated_hours", text "planning_lower_hours",
    text "planning_upper_hours"] rfl ?_ ?_
  · decide
  · decide

theorem Block.wellKeyed (block : Block ν) : WellKeyed block.fields := by
  refine .of_keys [text "id", text "position", text "state", text "plan", text "plan_sha256", text "queue_digest",
    text "executions", text "estimated_hours", text "planning_lower_hours", text "planning_upper_hours",
    text "source_ids", text "recipe_ids"] rfl ?_ ?_
  · decide
  · decide

def scalarKeys : List Text :=
  [text "schema_version", text "id", text "label", text "state", text "language_id", text "time_model",
    text "time_plan_digest", text "performance_profile", text "output_directory", text "materialization_digest"]

theorem Document.scalars_keys : document.scalars.map Prod.fst = scalarKeys := rfl

theorem Document.scalars_wellKeyed : WellKeyed document.scalars := .of_keys scalarKeys scalars_keys (by decide) (by decide)

theorem mem_tables {row : Section ν} (h : row ∈ document.tables) :
    row = (.table (text "summary"), document.summary.fields) ∨
      row = (.table (text "source_digests"), document.sourceDigests.fields) ∨
      (∃ gate ∈ document.qualificationGates, row = (.element (text "qualification_gates"), gate.fields)) ∨
      ∃ block ∈ document.blocks, row = (.element (text "blocks"), block.fields) := by
  obtain h | h := List.mem_append.mp h
  · obtain h | h := List.mem_append.mp h
    · obtain rfl | h := List.mem_cons.mp h
      · exact .inl rfl
      · exact .inr (.inl (List.mem_singleton.mp h))
    · obtain ⟨gate, hgate, rfl⟩ := List.mem_map.mp h
      exact .inr (.inr (.inl ⟨gate, hgate, rfl⟩))
  · obtain ⟨block, hblock, rfl⟩ := List.mem_map.mp h
    exact .inr (.inr (.inr ⟨block, hblock, rfl⟩))

theorem tables_isNamed : ∀ row ∈ document.tables, row.1.IsNamed := by
  intro row hrow
  obtain rfl | rfl | ⟨gate, -, rfl⟩ | ⟨block, -, rfl⟩ := mem_tables hrow
  · show IsBare (text "summary")
    decide
  · show IsBare (text "source_digests")
    decide
  · show IsBare (text "qualification_gates")
    decide
  · show IsBare (text "blocks")
    decide

theorem tables_wellKeyed : ∀ row ∈ document.tables, WellKeyed row.2 := by
  intro row hrow
  obtain rfl | rfl | ⟨gate, -, rfl⟩ | ⟨block, -, rfl⟩ := mem_tables hrow
  · exact document.summary.wellKeyed
  · exact document.sourceDigests.wellKeyed
  · exact gate.wellKeyed
  · exact block.wellKeyed

/-- The document with its single tables, before the elements of its arrays. -/
def Document.head (document : Document ν) : TomlTables.Document ν :=
  ⟨document.scalars, (Dict.empty.set (text "summary") document.summary.fields).set (text "source_digests")
    document.sourceDigests.fields, .empty⟩

theorem foldlM_head : (((.root, document.scalars) :: [(.table (text "summary"), document.summary.fields),
    (.table (text "source_digests"), document.sourceDigests.fields)]).foldlM addSection .empty : Option _) =
      some document.head := by
  have hroot : addSection .empty (.root, document.scalars) = some ⟨document.scalars, .empty, .empty⟩ := rfl
  have hsummary := @addSection_table ν ⟨document.scalars, .empty, .empty⟩ (text "summary")
    (by rw [Document.scalars_keys]; decide) rfl rfl document.summary.fields
  have hdigests := @addSection_table ν
    ⟨document.scalars, Dict.empty.set (text "summary") document.summary.fields, .empty⟩ (text "source_digests") (by rw [Document.scalars_keys]; decide)
    (by rw [Dict.get?_set, if_neg (by decide)]; rfl) rfl document.sourceDigests.fields
  rw [List.foldlM_cons, hroot, Option.bind_eq_bind, Option.bind_some, List.foldlM_cons, hsummary, Option.bind_eq_bind,
    Option.bind_some, List.foldlM_cons, hdigests]
  rfl

/-- What the tables of the manifest are loaded as. -/
theorem foldlM_tables : ∃ loaded : TomlTables.Document ν,
    ((.root, document.scalars) :: document.tables).foldlM addSection .empty = some loaded ∧
      (document.label.IsText → Returns document loaded) ∧ loaded.root = document.scalars := by
  have hkey (key : Text) (hkey : key ∉ scalarKeys ∧ key ≠ text "summary" ∧ key ≠ text "source_digests") :
      key ∉ document.head.root.map Prod.fst ∧ document.head.tables.get? key = none := by
    refine ⟨hkey.1, ?_⟩
    rw [Document.head, Dict.get?_set, if_neg hkey.2.2, Dict.get?_set, if_neg hkey.2.1]
    rfl
  obtain ⟨hroot, htable⟩ := hkey (text "qualification_gates") (by decide)
  obtain ⟨gated, hgated, hgatedRoot, hgatedTables, hgatedElements⟩ :=
    foldlM_elements hroot htable (document.qualificationGates.map Gate.fields)
  obtain ⟨hroot, htable⟩ := hkey (text "blocks") (by decide)
  rw [← hgatedRoot] at hroot
  rw [← hgatedTables] at htable
  obtain ⟨loaded, hloaded, hloadedRoot, hloadedTables, hloadedElements⟩ :=
    foldlM_elements hroot htable (document.blocks.map Block.fields)
  have hnone (key : Text) : document.head.elements key = [] := rfl
  have hne : text "qualification_gates" ≠ text "blocks" := by decide
  refine ⟨loaded, ?_, fun hlabel => ?_, hloadedRoot.trans hgatedRoot⟩
  · have hsplit : (.root, document.scalars) :: document.tables =
        ((.root, document.scalars) :: [(.table (text "summary"), document.summary.fields),
          (.table (text "source_digests"), document.sourceDigests.fields)]) ++
        ((document.qualificationGates.map Gate.fields).map (fun fields => (.element (text "qualification_gates"), fields)) ++
          (document.blocks.map Block.fields).map fun fields => (.element (text "blocks"), fields)) := by
      rw [Document.tables, List.map_map, List.map_map, List.append_assoc]
      rfl
    rw [hsplit, List.foldlM_append, foldlM_head, Option.bind_eq_bind, Option.bind_some, List.foldlM_append, hgated,
      Option.bind_eq_bind, Option.bind_some, hloaded]
  · refine ⟨hlabel, hloadedRoot.trans hgatedRoot, ?_, ?_, ?_, ?_⟩
    · rw [hloadedTables, hgatedTables, Document.head, Dict.get?_set, if_neg (by decide), Dict.get?_set_self]
    · rw [hloadedTables, hgatedTables, Document.head, Dict.get?_set_self]
    · rw [hloadedElements, if_neg hne, hgatedElements, if_pos rfl, hnone, List.nil_append]
    · rw [hloadedElements, if_pos rfl, hgatedElements, if_neg hne.symm, hnone, List.nil_append]

theorem renderManifest_no_return : 13 ∉ renderManifest floats document := by
  refine Unbroken.joinLines (unbroken_cons.mpr ⟨fun hmem => (generatedComment_isComment.single 13 hmem).2 rfl, ?_⟩)
  rw [List.flatMap_cons]
  refine unbroken_append.mpr ⟨unbroken_pairs document.scalars_wellKeyed.bare, fun line hline hmem => ?_⟩
  obtain ⟨row, hrow, hline⟩ := List.mem_flatMap.mp hline
  exact (renderSection_no_break (tables_isNamed row hrow) (tables_wellKeyed row hrow) line hline 13 hmem).2 rfl

theorem loads_renderManifest : loads floats loadsOther (renderManifest floats document) =
    if FieldsReadable document.scalars ∧ ∀ row ∈ document.tables, FieldsReadable row.2 then
      ((.root, document.scalars) :: document.tables).foldlM addSection .empty else none :=
  loads_renderDocument generatedComment_isComment document.scalars_wellKeyed tables_isNamed tables_wellKeyed

/-- A rendered manifest is loaded with the fields of its document if and only if the document is legible. -/
theorem loadMaterializationManifest_renderManifest (hschema : document.schemaVersion = materializationSchema) :
    (∃ loaded, loadMaterializationManifest floats loadsOther (renderManifest floats document) = .ok loaded ∧
      Returns document loaded) ↔ Legible document := by
  constructor
  · rintro ⟨loaded, hload, hreturns⟩
    by_cases hreadable : FieldsReadable document.scalars ∧ ∀ row ∈ document.tables, FieldsReadable row.2
    · exact ⟨hreturns.label, hreadable.1, hreadable.2⟩
    · rw [loadMaterializationManifest, loads_renderManifest, if_neg hreadable] at hload
      cases hload
  · intro hlegible
    obtain ⟨loaded, hloaded, hreturns, hroot⟩ := @foldlM_tables ν document
    have hversion : loaded.root.lookup (text "schema_version") = some (.str (text document.schemaVersion)) := by
      rw [hroot]
      rfl
    refine ⟨loaded, ?_, hreturns hlegible.label⟩
    rw [loadMaterializationManifest, loads_renderManifest, if_pos ⟨hlegible.scalars, hlegible.tables⟩, hloaded]
    simp only [hversion]
    exact if_pos (congrArg text hschema)

end RoundTrip

end FidbPoc.Materialized
