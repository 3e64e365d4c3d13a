import FidbPoc.Lib.TomlTables
import FidbPoc.Planning.Chunks

namespace FidbPoc.Materialized

open FidbPoc.Lib FidbPoc.Lib.Toml FidbPoc.Lib.TomlTables

section Records

structure Item where
  batchId : String
  batchAuthority : String
  sourceId : String
  recipeId : String

/-- A rounded sum of hours: an integer only where there is nothing to sum. -/
inductive Hours (ν : Type)
  | int (n : Nat)
  | float (x : ν)

structure TimeBlock (ν : Type) where
  id : String
  position : Nat
  executions : Nat
  estimatedHours : Hours ν
  planningLowerHours : Hours ν
  planningUpperHours : Hours ν
  items : List Item

/-- The items of one block from one batch, with the axes of the batch. -/
structure Group where
  batchAuthority : String
  recipeIds : List String
  routeIds : List String
  treatmentIds : List String

structure Gate where
  batchId : String
  batchDigest : String
  authorityPath : String
  authoritySha256 : String
  pipelineAuthorityPath : String
  pipelineAuthoritySha256 : String
  inputDigest : String
  qualificationDigest : String
  evidencePath : String
  evidenceSha256 : String

variable {ν : Type}

def Hours.value : Hours ν → Value ν
  | .int n => .int n
  | .float x => .float x

def string (value : String) : Value ν := .str (text value)

def strings (values : List String) : Value ν := .strings (values.map text)

def Gate.fields (gate : Gate) : Fields ν :=
  [(text "batch_id", string gate.batchId),
    (text "batch_digest", string gate.batchDigest),
    (text "authority_path", string gate.authorityPath),
    (text "authority_sha256", string gate.authoritySha256),
    (text "pipeline_authority_path", string gate.pipelineAuthorityPath),
    (text "pipeline_authority_sha256", string gate.pipelineAuthoritySha256),
    (text "input_digest", string gate.inputDigest),
    (text "qualification_digest", string gate.qualificationDigest),
    (text "evidence_path", string gate.evidencePath),
    (text "evidence_sha256", string gate.evidenceSha256)]

end Records

section Plan

variable {ν : Type} (floats : FloatFormat ν)

def generatedComment : Text := text "# Generated by \"fidb-poc materialize-batches\". Do not hand edit."

def renderGroup (campaignId : String) (position index : Nat) (group : Group) : List Text :=
  [[], text "[[matrix]]"] ++ List.map (renderPair floats)
    [(text "id", string (campaignId ++ "-block-" ++ Planning.format02d position ++ "-width-" ++ Planning.format02d index)),
      (text "kind", string "width-native"),
      (text "width_batch", string group.batchAuthority),
      (text "recipes", strings group.recipeIds),
      (text "routes", strings group.routeIds),
      (text "treatments", strings group.treatmentIds)]

def renderPlan (campaignId : String) (block : TimeBlock ν) (groups : List Group) (qualificationGates : List Gate) : Text :=
  joinLines
    ([generatedComment,
      renderPair floats (text "schema_version", string "fidb-plan/v1"),
      renderPair floats (text "name", string block.id),
      [],
      text "[policy]",
      renderPair floats (text "max_cells", .int block.executions),
      renderPair floats (text "priority", string "normal"),
      [],
      text "[coverage]",
      text "# Native treatments already carry their exact factor-variant identity.",
      renderPair floats (text "factor_variants", strings []),
      [],
      text "[queue]",
      renderPair floats (text "strategy", string "recipe-then-variant"),
      renderPair floats (text "recipe_order", strings (block.items.map Item.recipeId))] ++
    qualificationGates.flatMap (fun gate =>
      [[], text "[[qualification_gate]]"] ++ gate.fields.map (renderPair floats)) ++
    (groups.mapIdx fun i group => renderGroup floats campaignId block.position (i + 1) group).flatten)

end Plan

section Queue

structure QueueRow where
  position : Nat
  baseCell : String
  factorVariants : List String
  state : String
  blockers : List String

structure Identity where
  position : Nat
  baseCell : String
  factorVariants : List String
  state : String

def queueIdentityRow (row : QueueRow) : Except String Identity :=
  if row.state ≠ "planned" then
    .error ("materialized cell " ++ row.baseCell ++ " is blocked: " ++ "; ".intercalate row.blockers)
  else .ok ⟨row.position, row.baseCell, row.factorVariants, row.state⟩

def queueIdentity (queuePreview : List QueueRow) : Except String (List Identity) := queuePreview.mapM queueIdentityRow

end Queue

section Lines

variable {ν : Type} {floats : FloatFormat ν} {lines : List Text}

/-- Lines that a text file reads back as they are written. -/
def Unbroken (lines : List Text) : Prop := ∀ line ∈ lines, 13 ∉ line

theorem Unbroken.joinLines (h : Unbroken lines) : 13 ∉ joinLines lines := by
  intro hmem
  obtain hmem | ⟨line, hline, hmem⟩ := mem_intercalate hmem
  · exact absurd hmem (by decide)
  obtain hline | hline := List.mem_append.mp hline
  · exact h line hline hmem
  · rw [List.mem_singleton.mp hline] at hmem
    cases hmem

theorem unbroken_nil : Unbroken [] := fun _ h => by cases h

theorem unbroken_cons {line : Text} : Unbroken (line :: lines) ↔ 13 ∉ line ∧ Unbroken lines := List.forall_mem_cons

theorem unbroken_append {lines' : List Text} : Unbroken (lines ++ lines') ↔ Unbroken lines ∧ Unbroken lines' :=
  List.forall_mem_append

theorem renderPair_no_return {key : Text} (hkey : IsBare key) (value : Value ν) : 13 ∉ renderPair floats (key, value) :=
  fun hmem => (renderPair_no_break hkey value 13 hmem).2 rfl

theorem unbroken_pairs {pairs : Fields ν} (hbare : ∀ pair ∈ pairs, IsBare pair.1) :
    Unbroken (pairs.map (renderPair floats)) := by
  intro line hline hmem
  obtain ⟨pair, hpair, rfl⟩ := List.mem_map.mp hline
  exact renderPair_no_return (hbare pair hpair) pair.2 hmem

/-- The lines of one table behind a line that sets it off. -/
theorem unbroken_table {header : Text} {pairs : Fields ν} (hheader : 13 ∉ header) (hbare : ∀ pair ∈ pairs, IsBare pair.1) :
    Unbroken ([[], header] ++ pairs.map (renderPair floats)) :=
  unbroken_append.mpr ⟨unbroken_cons.mpr ⟨List.not_mem_nil, unbroken_cons.mpr ⟨hheader, unbroken_nil⟩⟩, unbroken_pairs hbare⟩

theorem Gate.wellKeyed (gate : Gate) : WellKeyed (gate.fields : Fields ν) := by
  refine .of_keys [text "batch_id", text "batch_digest", text "authority_path", text "authority_sha256",
    text "pipeline_authority_path", text "pipeline_authority_sha256", text "input_digest", text "qualification_digest",
    text "evidence_path", text "evidence_sha256"] rfl ?_ ?_
  · decide
  · decide

theorem renderGroup_unbroken (campaignId : String) (position index : Nat) (group : Group) :
    Unbroken (renderGroup floats campaignId position index group) := by
  refine unbroken_table (by decide) ?_
  simp only [List.forall_mem_cons]
  refine ⟨by decide, by decide, by decide, by decide, by decide, by decide,
    fun _ h => by cases h⟩

/-- A plan has no carriage return in it: it is read back as it is written. -/
theorem renderPlan_no_return (campaignId : String) (block : TimeBlock ν) (groups : List Group) (gates : List Gate) :
    13 ∉ renderPlan floats campaignId block groups gates := by
  refine Unbroken.joinLines (unbroken_append.mpr ⟨unbroken_append.mpr ⟨?_, ?_⟩, ?_⟩)
  · simp only [unbroken_cons, unbroken_nil, and_true]
    refine ⟨by decide, renderPair_no_return (by decide) _, renderPair_no_return (by decide) _, by decide, by decide,
      renderPair_no_return (by decide) _, renderPair_no_return (by decide) _, by decide, by decide, by decide,
      renderPair_no_return (by decide) _, by decide, by decide, renderPair_no_return (by decide) _,
      renderPair_no_return (by decide) _⟩
  · intro line hline
    obtain ⟨gate, -, hgate⟩ := List.mem_flatMap.mp hline
    exact unbroken_table (by decide) gate.wellKeyed.bare line hgate
  · intro line hline
    obtain ⟨rows, hrows, hgroup⟩ := List.mem_flatten.mp hline
    obtain ⟨i, hi, rfl⟩ := List.mem_mapIdx.mp hrows
    exact renderGroup_unbroken campaignId block.position (i + 1) _ line hgroup

end Lines

end FidbPoc.Materialized
