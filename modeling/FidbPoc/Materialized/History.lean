import FidbPoc.Materialized.Directory

namespace FidbPoc.Materialized

open FidbPoc.Lib FidbPoc.Lib.Toml FidbPoc.Lib.TomlTables

section Compiled

variable {ν : Type} {floats : FloatFormat ν} {resolvers : Resolvers ν} {outputRoot campaign directory : String}
  {axes : String → List String × List String} {gates : List Gate} {timePlan : TimePlan ν} {document : Document ν}
  {block : TimeBlock ν}

/-- A document that `compile_materialization` returns for one campaign. -/
abbrev Compiled (floats : FloatFormat ν) (outputRoot campaign : String) : Type :=
  {document : Document ν // ∃ resolvers axes gates timePlan, timePlan.id = campaign ∧
    compileMaterialization floats resolvers outputRoot axes gates timePlan = .ok document}

/-- What the files of a document are: one plan for each block, by its number, and the manifest. -/
structure Laid (directory : String) (document : Document ν) : Prop where
  schema : document.schemaVersion = materializationSchema
  outputDirectory : document.outputDirectory = directory
  manifestPath : document.manifestPath = ⟨directory, manifestName⟩
  plans : document.renderedPlans.entries.map Prod.fst =
    (List.range' 1 document.blocks.length).map fun position => ⟨directory, planName position⟩
  unbroken : ∀ e ∈ document.renderedPlans.entries, 13 ∉ e.2

theorem materializeBlock_spec {row : Block ν × Text}
    (h : materializeBlock floats resolvers campaign directory axes gates block = .ok row) :
    row.1.plan = ⟨directory, planName block.position⟩ ∧ 13 ∉ row.2 := by
  simp only [materializeBlock, Checked.bind_eq_ok] at h
  obtain ⟨resolved, -, identity, -, h⟩ := h
  split at h
  · cases h
  · obtain rfl := Except.ok.inj h
    exact ⟨rfl, renderPlan_no_return _ _ _ _⟩

theorem nodup_planPaths (directory : String) (positions : List Nat) (h : positions.Nodup) :
    (positions.map fun position => (⟨directory, planName position⟩ : OutputPath)).Nodup :=
  h.map fun _ _ heq => planName_injective (congrArg OutputPath.name heq)

theorem compileMaterialization_laid (h : compileMaterialization floats resolvers outputRoot axes gates timePlan = .ok document) :
    Laid (outputRoot ++ "/" ++ timePlan.id) document := by
  simp only [compileMaterialization, Checked.bind_eq_ok] at h
  obtain ⟨rows, hrows, h⟩ := h
  split at h
  · cases h
  obtain ⟨digest, -, h⟩ := Checked.bind_eq_ok.mp h
  obtain rfl := Except.ok.inj h
  have hspec : ∀ block ∈ timePlan.blocks, ∃ row, materializeBlock floats resolvers timePlan.id
      (outputRoot ++ "/" ++ timePlan.id) axes gates block = .ok row ∧
      row.1.plan = ⟨outputRoot ++ "/" ++ timePlan.id, planName block.position⟩ := by
    intro block hblock
    obtain ⟨row, -, hrow⟩ := Checked.mapM_mem hrows block hblock
    exact ⟨row, hrow, (materializeBlock_spec hrow).1⟩
  have hlength : rows.length = timePlan.blocks.length := (Checked.mapM_eq_ok hrows).length_eq.symm
  have hplans : (rows.map fun row => (row.1.plan, row.2)).map Prod.fst = (List.range' 1 rows.length).map
      fun position => ⟨outputRoot ++ "/" ++ timePlan.id, planName position⟩ := by
    rw [List.map_map, hlength, ← timePlan.numbered, List.map_map]
    exact Checked.map_mapM hrows hspec
  have hnodup := nodup_planPaths (outputRoot ++ "/" ++ timePlan.id) _ (List.nodup_range' (s := 1) (n := rows.length))
  rw [← hplans] at hnodup
  have hentries := Dict.entries_ofList hnodup
  refine ⟨rfl, rfl, rfl, ?_, ?_⟩
  · rw [hentries, hplans, List.length_map]
  · rw [hentries]
    intro e he
    obtain ⟨row, hrow, rfl⟩ := List.mem_map.mp he
    obtain ⟨block, -, hblock⟩ := Checked.mem_mapM hrows row hrow
    exact (materializeBlock_spec hblock).2

theorem Compiled.laid (document : Compiled floats outputRoot campaign) :
    Laid (outputRoot ++ "/" ++ campaign) document.1 := by
  obtain ⟨resolvers, axes, gates, timePlan, rfl, hcompile⟩ := document.2
  exact compileMaterialization_laid hcompile

end Compiled

section Histories

variable {ν : Type} {floats : FloatFormat ν} {directory : String} {document : Document ν} {documents : List (Document ν)}
  {tree : Tree} {path : OutputPath} {payload : Text}

theorem Laid.manifest_notMem (h : Laid directory document) :
    document.manifestPath ∉ document.renderedPlans.entries.map Prod.fst := by
  rw [h.plans, h.manifestPath]
  intro hmem
  obtain ⟨position, -, heq⟩ := List.mem_map.mp hmem
  exact planName_ne_manifestName position (congrArg OutputPath.name heq)

theorem Laid.entries (h : Laid directory document) : (expectedFiles floats document).entries =
    document.renderedPlans.entries ++ [(document.manifestPath, renderManifest floats document)] :=
  Dict.assign_of_not_mem h.manifest_notMem

/-- The files of a document by their names. -/
theorem Laid.mem_keys (h : Laid directory document) {name : String} :
    ⟨directory, name⟩ ∈ (expectedFiles floats document).entries.map Prod.fst ↔
      name = manifestName ∨ ∃ position, 1 ≤ position ∧ position ≤ document.blocks.length ∧ name = planName position := by
  rw [h.entries, List.map_append, h.plans, List.map_singleton, h.manifestPath, List.mem_append, List.mem_singleton, or_comm]
  refine or_congr ⟨fun heq => congrArg OutputPath.name heq, fun heq => by rw [heq]⟩ ?_
  constructor
  · intro hmem
    obtain ⟨position, hposition, heq⟩ := List.mem_map.mp hmem
    obtain ⟨hle, hlt⟩ := List.mem_range'_1.mp hposition
    exact ⟨position, hle, by omega, (congrArg OutputPath.name heq).symm⟩
  · rintro ⟨position, hle, hlength, rfl⟩
    exact List.mem_map.mpr ⟨position, List.mem_range'_1.mpr ⟨hle, by omega⟩, rfl⟩

theorem Laid.isOutputName (h : Laid directory document)
    (hpath : path ∈ (expectedFiles floats document).entries.map Prod.fst) :
    path.directory = directory ∧ IsOutputName path.name := by
  rw [h.entries, List.map_append, h.plans, List.map_singleton, h.manifestPath, List.mem_append, List.mem_singleton] at hpath
  obtain hpath | rfl := hpath
  · obtain ⟨position, hposition, rfl⟩ := List.mem_map.mp hpath
    exact ⟨rfl, .inr ⟨position, (List.mem_range'_1.mp hposition).1, rfl⟩⟩
  · exact ⟨rfl, .inl rfl⟩

theorem Laid.no_return (h : Laid directory document) : ∀ e ∈ (expectedFiles floats document).entries, 13 ∉ e.2 := by
  intro e he
  rw [h.entries, List.mem_append, List.mem_singleton] at he
  obtain he | rfl := he
  · exact h.unbroken e he
  · exact renderManifest_no_return

/-- A document that has been written is found as it was rendered. -/
theorem Laid.written_mem (h : Laid directory document) (hmem : (path, payload) ∈ (expectedFiles floats document).entries) :
    writeMaterialization floats tree document path = some (.text payload) :=
  writes_mem (expectedFiles floats document).nodup hmem fun write _ =>
    (h.isOutputName (List.mem_map_of_mem hmem)).2.not_temporary write.1

theorem Laid.written_current (h : Laid directory document) :
    IsCurrent floats (writeMaterialization floats tree document) document :=
  isCurrent_iff.mpr fun e he => ⟨e.2, h.written_mem he, universalNewlines_of_notMem (h.no_return e he)⟩

/-- A file is there after a history if and only if some document of it has that file. -/
theorem written_isSome (hlaid : ∀ document ∈ documents, Laid directory document) :
    written floats documents path ≠ none ↔
      ∃ document ∈ documents, path ∈ (expectedFiles floats document).entries.map Prod.fst := by
  induction documents using List.reverseRecOn with
  | nil => simp [written]
  | append_singleton documents document ih =>
    have hlast : Laid directory document := hlaid document (by simp)
    have hearlier := ih fun d hd => hlaid d (List.mem_append_left _ hd)
    have hstep : written floats (documents ++ [document]) = writeMaterialization floats (written floats documents) document :=
      List.foldl_concat ..
    rw [hstep]
    by_cases hpath : path ∈ (expectedFiles floats document).entries.map Prod.fst
    · obtain ⟨e, he, rfl⟩ := List.mem_map.mp hpath
      rw [hlast.written_mem he]
      exact iff_of_true (Option.some_ne_none _) ⟨document, by simp, hpath⟩
    · constructor
      · intro hsome
        have hbefore : written floats documents path ≠ none := fun hnone => hsome (writes_none hpath hnone)
        obtain ⟨d, hd, hmem⟩ := hearlier.mp hbefore
        exact ⟨d, List.mem_append_left _ hd, hmem⟩
      · rintro ⟨d, hd, hmem⟩
        obtain hd | hd := List.mem_append.mp hd
        · have hname := ((hlaid d (List.mem_append_left _ hd)).isOutputName hmem).2
          rw [writeMaterialization, writes_other hpath fun write _ => hname.not_temporary write.1]
          exact hearlier.mpr ⟨d, hd, hmem⟩
        · exact absurd (List.mem_singleton.mp hd ▸ hmem) hpath

end Histories

section Directories

variable {ν : Type} {floats : FloatFormat ν} {directory : String} {document last : Document ν} {earlier : List (Document ν)}
  {tree : Tree} {name : String}

/-- What the document has under the name. -/
def Document.file (floats : FloatFormat ν) (document : Document ν) (name : String) : Option Content :=
  ((expectedFiles floats document).get? ⟨document.outputDirectory, name⟩).map .text

/-- The output directory has exactly the files of the document. -/
def Holds (floats : FloatFormat ν) (tree : Tree) (document : Document ν) : Prop :=
  ∀ name, tree ⟨document.outputDirectory, name⟩ = document.file floats name

/-- The plans and the manifest in the output directory are exactly the rendered ones. -/
def Exact (floats : FloatFormat ν) (tree : Tree) (document : Document ν) : Prop :=
  ∀ name, IsOutputName name → tree ⟨document.outputDirectory, name⟩ = document.file floats name

/-- Beside a complete set of files no plan of a later block is left, and no file of the set has carriage returns. -/
def Undisturbed (floats : FloatFormat ν) (tree : Tree) (document : Document ν) : Prop :=
  (∀ e ∈ (expectedFiles floats document).entries, Reads tree e) →
    (∀ position, document.blocks.length < position → tree ⟨document.outputDirectory, planName position⟩ = none) ∧
    ∀ e ∈ (expectedFiles floats document).entries, ∀ content, tree e.1 = some (.text content) → 13 ∉ content

theorem Laid.file_of_mem (h : Laid directory document) {e : OutputPath × Text}
    (he : e ∈ (expectedFiles floats document).entries) : document.file floats e.1.name = some (.text e.2) := by
  have hdirectory := (h.isOutputName (List.mem_map_of_mem he)).1
  have hpath : (⟨document.outputDirectory, e.1.name⟩ : OutputPath) = e.1 := by rw [h.outputDirectory, ← hdirectory]
  rw [Document.file, hpath, Dict.get?_eq_some_iff.mpr he, Option.map_some]

theorem Laid.file_of_notMem (h : Laid directory document)
    (hname : ⟨directory, name⟩ ∉ (expectedFiles floats document).entries.map Prod.fst) :
    document.file floats name = none := by
  rw [Document.file, h.outputDirectory, Option.map_eq_none_iff, Option.eq_none_iff_forall_ne_some]
  exact fun payload hpayload => hname (List.mem_map_of_mem (Dict.get?_eq_some_iff.mp hpayload))

theorem Laid.planName_notMem (h : Laid directory document) {position : Nat} (hposition : document.blocks.length < position) :
    ⟨directory, planName position⟩ ∉ (expectedFiles floats document).entries.map Prod.fst := by
  rw [h.mem_keys, not_or]
  refine ⟨planName_ne_manifestName position, ?_⟩
  rintro ⟨other, -, hle, heq⟩
  have hsame := planName_injective heq
  omega

/-- The last plan of an earlier document with more blocks is left over. -/
theorem written_leftover (hall : ∀ d ∈ earlier ++ [last], Laid directory d) (hd : document ∈ earlier)
    (hlt : last.blocks.length < document.blocks.length) :
    written floats (earlier ++ [last]) ⟨last.outputDirectory, planName document.blocks.length⟩ ≠
      last.file floats (planName document.blocks.length) := by
  have hlast := hall last (by simp)
  have hdocument := hall document (List.mem_append_left _ hd)
  rw [hlast.file_of_notMem (hlast.planName_notMem hlt), hlast.outputDirectory]
  exact (written_isSome hall).mpr ⟨document, List.mem_append_left _ hd,
    hdocument.mem_keys.mpr (.inr ⟨_, by omega, le_rfl, rfl⟩)⟩

/-- After a history the directory has exactly the files of the last document, unless an earlier one had more blocks. -/
theorem written_holds_iff (hearlier : ∀ d ∈ earlier, Laid directory d) (hlast : Laid directory last) :
    Holds floats (written floats (earlier ++ [last])) last ↔ ∀ d ∈ earlier, d.blocks.length ≤ last.blocks.length := by
  have hall : ∀ d ∈ earlier ++ [last], Laid directory d := by
    intro d hd
    obtain hd | hd := List.mem_append.mp hd
    · exact hearlier d hd
    · rw [List.mem_singleton.mp hd]
      exact hlast
  constructor
  · intro hholds d hd
    by_contra hlt
    exact written_leftover hall hd (not_le.mp hlt) (hholds _)
  · intro hle name
    rw [hlast.outputDirectory]
    by_cases hname : ⟨directory, name⟩ ∈ (expectedFiles floats last).entries.map Prod.fst
    · obtain ⟨e, he, heq⟩ := List.mem_map.mp hname
      have hfile := hlast.file_of_mem he
      rw [heq] at hfile
      rw [hfile, ← heq]
      have hstep : written floats (earlier ++ [last]) = writeMaterialization floats (written floats earlier) last :=
        List.foldl_concat ..
      rw [hstep]
      exact hlast.written_mem he
    · rw [hlast.file_of_notMem hname]
      by_contra hthere
      obtain ⟨d, hd, hmem⟩ := (written_isSome hall).mp hthere
      have hblocks : d.blocks.length ≤ last.blocks.length := by
        obtain hd | hd := List.mem_append.mp hd
        · exact hle d hd
        · rw [List.mem_singleton.mp hd]
      obtain hmanifest | ⟨position, hpos, hposition, hplan⟩ := (hall d hd).mem_keys.mp hmem
      · exact hname (hlast.mem_keys.mpr (.inl hmanifest))
      · exact hname (hlast.mem_keys.mpr (.inr ⟨position, hpos, hposition.trans hblocks, hplan⟩))

theorem Laid.current_of_exact (h : Laid directory document) (hexact : Exact floats tree document) :
    IsCurrent floats tree document := by
  refine isCurrent_iff.mpr fun e he => ⟨e.2, ?_, universalNewlines_of_notMem (h.no_return e he)⟩
  obtain ⟨hdirectory, hname⟩ := h.isOutputName (List.mem_map_of_mem he)
  have hfile := hexact e.1.name hname
  rw [h.file_of_mem he, h.outputDirectory, ← hdirectory] at hfile
  exact hfile

/-- The check says that the files are current exactly when they are, unless they stand in a disturbed directory. -/
theorem Laid.current_iff_exact (h : Laid directory document) :
    (IsCurrent floats tree document ↔ Exact floats tree document) ↔ Undisturbed floats tree document := by
  constructor
  · intro hiff hreads
    have hexact := hiff.mp (isCurrent_iff.mpr hreads)
    refine ⟨fun position hposition => ?_, fun e he content hcontent => ?_⟩
    · rw [hexact (planName position) (.inr ⟨position, by omega, rfl⟩), h.file_of_notMem (h.planName_notMem hposition)]
    · obtain ⟨hdirectory, hname⟩ := h.isOutputName (List.mem_map_of_mem he)
      have hfile := hexact e.1.name hname
      rw [h.file_of_mem he, h.outputDirectory, ← hdirectory, hcontent] at hfile
      obtain rfl := Content.text.inj (Option.some.inj hfile)
      exact h.no_return e he
  · intro hundisturbed
    refine ⟨fun hcurrent name hname => ?_, h.current_of_exact⟩
    have hreads := isCurrent_iff.mp hcurrent
    obtain ⟨hleft, hreturn⟩ := hundisturbed hreads
    by_cases hmem : ⟨directory, name⟩ ∈ (expectedFiles floats document).entries.map Prod.fst
    · obtain ⟨e, he, heq⟩ := List.mem_map.mp hmem
      obtain ⟨content, hcontent, htext⟩ := hreads e he
      have hfile := h.file_of_mem he
      rw [universalNewlines_of_notMem (hreturn e he content hcontent)] at htext
      rw [heq] at hcontent hfile
      rw [h.outputDirectory, hcontent, hfile, htext]
    · rw [h.file_of_notMem hmem]
      obtain rfl | ⟨position, hpos, rfl⟩ := hname
      · exact absurd (h.mem_keys.mpr (.inl rfl)) hmem
      · refine hleft position (not_le.mp fun hle => hmem (h.mem_keys.mpr (.inr ⟨position, hpos, hle, rfl⟩)))

end Directories

section Results

variable {ν : Type} {floats : FloatFormat ν} {outputRoot campaign : String}

/-- The history, the check and the manifest of one campaign. -/
theorem materialized_directory_exact (loadsOther : Text → Option (TomlTables.Document ν))
    (earlier : List (Compiled floats outputRoot campaign)) (last : Compiled floats outputRoot campaign) (tree : Tree) :
    ((IsCurrent floats (written floats (earlier.map Subtype.val ++ [last.1])) last.1 ∧
        Holds floats (written floats (earlier.map Subtype.val ++ [last.1])) last.1) ↔
      ∀ document ∈ earlier, document.1.blocks.length ≤ last.1.blocks.length) ∧
    ((IsCurrent floats tree last.1 ↔ Exact floats tree last.1) ↔ Undisturbed floats tree last.1) ∧
    ((∃ loaded, loadManifest floats loadsOther (written floats (earlier.map Subtype.val ++ [last.1])) last.1.manifestPath =
        .ok loaded ∧ Returns last.1 loaded) ↔ Legible last.1) := by
  have hlast := Compiled.laid last
  have hearlier : ∀ document ∈ earlier.map Subtype.val, Laid (outputRoot ++ "/" ++ campaign) document := by
    intro document hdocument
    obtain ⟨compiled, -, rfl⟩ := List.mem_map.mp hdocument
    exact Compiled.laid compiled
  have hstep : written floats (earlier.map Subtype.val ++ [last.1]) =
      writeMaterialization floats (written floats (earlier.map Subtype.val)) last.1 := List.foldl_concat ..
  refine ⟨?_, hlast.current_iff_exact, ?_⟩
  · rw [written_holds_iff hearlier hlast, hstep, and_iff_right hlast.written_current]
    simp only [List.mem_map, forall_exists_index, and_imp, forall_apply_eq_imp_iff₂]
  · have hmanifest : written floats (earlier.map Subtype.val ++ [last.1]) last.1.manifestPath =
        some (.text (renderManifest floats last.1)) := by
      rw [hstep]
      refine hlast.written_mem ?_
      rw [hlast.entries]
      exact List.mem_append_right _ List.mem_cons_self
    rw [← @loadMaterializationManifest_renderManifest ν floats last.1 loadsOther hlast.schema]
    refine exists_congr fun loaded => and_congr_left fun _ => ?_
    simp only [loadManifest, hmanifest, universalNewlines_of_notMem renderManifest_no_return]
    cases loadMaterializationManifest floats loadsOther (renderManifest floats last.1) <;> simp

end Results

namespace Repacked

/-- Floats that are whole numbers. -/
def wholeFloats : FloatFormat Nat where
  repr n := natText n ++ [46, 48]
  parse src := if src.drop (src.length - 2) = [46, 48] then parseNat (src.take (src.length - 2)) else none
  parse_repr n := by
    have hlength : (natText n ++ [46, 48]).length - 2 = (natText n).length := by simp
    rw [hlength, List.drop_left, if_pos rfl, List.take_left, parseNat_natText]
  repr_chars n c hc := by
    obtain hc | hc := List.mem_append.mp hc
    · exact .inl (natText_digits c hc)
    · have hpoint : ∀ c ∈ ([46, 48] : Text), IsNumberChar c := by
        rw [List.forall_mem_cons, List.forall_mem_singleton]
        decide
      exact hpoint c hc
  repr_float n := ⟨46, List.mem_append_right _ List.mem_cons_self, .inl rfl⟩

def block (position : Nat) : TimeBlock Nat :=
  ⟨"batch-block", position, 1, .float 1, .float 1, .float 1, [⟨"batch", "batches/batch.toml", "zlib", "zlib@1.3"⟩]⟩

def digests : SourceDigests := ⟨"d0", "d1", "d2", "d3", "d4"⟩

def twoBlocks : TimePlan Nat :=
  ⟨"campaign", .text "Width", "c", "performance/batch-planning.toml", "d5", "day", 2, 2, .float 2, .float 2, .float 2, digests,
    [block 1, block 2], rfl⟩

def oneBlock : TimePlan Nat :=
  ⟨"campaign", .text "Width", "c", "performance/batch-planning.toml", "d6", "day", 1, 1, .float 1, .float 1, .float 1, digests,
    [block 1], rfl⟩

def resolvers : Resolvers Nat where
  sha256 _ := "d7"
  resolvePlan _ _ := .ok [⟨1, "zlib@1.3/linux/base", [], "planned", []⟩]
  queueIdentityDigest _ := "d8"
  canonicalDigest _ := .ok "d9"

theorem compiled (timePlan : TimePlan Nat) (hid : timePlan.id = "campaign")
    (h : ∃ document, compileMaterialization wholeFloats resolvers "plans" (fun _ => (["linux"], ["base"])) [] timePlan =
      .ok document ∧ document.blocks.length = timePlan.blocks.length) :
    ∃ document : Compiled wholeFloats "plans" "campaign", document.1.blocks.length = timePlan.blocks.length := by
  obtain ⟨document, hdocument, hlength⟩ := h
  exact ⟨⟨document, resolvers, _, [], timePlan, hid, hdocument⟩, hlength⟩

/-- After a packing with two blocks and then one with a single block, the check calls the directory current although the
second plan of the earlier packing is still in it. -/
theorem repacked_keeps_plan : ∃ first last : Compiled wholeFloats "plans" "campaign",
    first.1.blocks.length = 2 ∧ last.1.blocks.length = 1 ∧
      IsCurrent wholeFloats (written wholeFloats [first.1, last.1]) last.1 ∧
      ¬Holds wholeFloats (written wholeFloats [first.1, last.1]) last.1 ∧
      ¬Exact wholeFloats (written wholeFloats [first.1, last.1]) last.1 := by
  obtain ⟨first, hfirst⟩ := compiled twoBlocks rfl ⟨_, rfl, rfl⟩
  obtain ⟨last, hlast⟩ := compiled oneBlock rfl ⟨_, rfl, rfl⟩
  have hall : ∀ d ∈ [first.1] ++ [last.1], Laid ("plans" ++ "/" ++ "campaign") d := by
    rw [List.forall_mem_append, List.forall_mem_singleton, List.forall_mem_singleton]
    exact ⟨Compiled.laid first, Compiled.laid last⟩
  have hlt : last.1.blocks.length < first.1.blocks.length := by
    rw [hfirst, hlast]
    decide
  have hleft := @written_leftover _ wholeFloats _ _ _ _ hall List.mem_cons_self hlt
  refine ⟨first, last, hfirst, hlast, (Compiled.laid last).written_current, fun h => hleft (h _), fun h => hleft (h _ ?_)⟩
  exact .inr ⟨_, by omega, rfl⟩

end Repacked

end FidbPoc.Materialized
