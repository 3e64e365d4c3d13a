import FidbPoc.Materialized.Manifest

namespace FidbPoc.Materialized

open FidbPoc.Lib FidbPoc.Lib.Toml FidbPoc.Lib.TomlTables

section Files

inductive Content
  | text (content : Text)
  | undecodable

/-- The files of the project by their paths. -/
abbrev Tree := OutputPath → Option Content

def OutputPath.temporary (path : OutputPath) : OutputPath := { path with name := "." ++ path.name ++ ".tmp" }

/-- `temporary.write_text(payload)` and `temporary.replace(path)`. -/
def writeFile (tree : Tree) (write : OutputPath × Text) : Tree :=
  let written := Function.update tree write.1.temporary (some (.text write.2))
  Function.update (Function.update written write.1.temporary none) write.1 (written write.1.temporary)

/-- The line ends of a text file that is opened without a `newline` argument. -/
def universalNewlines : Text → Text
  | [] => []
  | c :: src =>
    if c = 13 then
      match src with
      | [] => [10]
      | d :: src => if d = 10 then 10 :: universalNewlines src else 10 :: universalNewlines (d :: src)
    else c :: universalNewlines src

end Files

section Operations

variable {ν : Type} (floats : FloatFormat ν)

def expectedFiles (document : Document ν) : Dict OutputPath Text :=
  document.renderedPlans.set document.manifestPath (renderManifest floats document)

def writeMaterialization (tree : Tree) (document : Document ν) : Tree :=
  (expectedFiles floats document).entries.foldl writeFile tree

inductive Reason
  | missing
  | contentDrift
  deriving DecidableEq

inductive State
  | current
  | drifted
  deriving DecidableEq

structure Check where
  state : State
  checkedFiles : Nat
  mismatches : List (OutputPath × Reason)

inductive ReadError
  | missing
  | undecodable
  | manifest (error : LoadError)
  deriving DecidableEq

def checkFile (tree : Tree) (expected : OutputPath × Text) : Except ReadError (Option (OutputPath × Reason)) :=
  match tree expected.1 with
  | none => .ok (some (expected.1, .missing))
  | some .undecodable => .error .undecodable
  | some (.text content) =>
    .ok (if universalNewlines content ≠ expected.2 then some (expected.1, .contentDrift) else none)

def checkMaterialization (tree : Tree) (document : Document ν) : Except ReadError Check := do
  let rows ← (expectedFiles floats document).entries.mapM (checkFile tree)
  let mismatches := rows.filterMap id
  .ok ⟨if mismatches = [] then .current else .drifted, (expectedFiles floats document).entries.length, mismatches⟩

def loadManifest (loadsOther : Text → Option (TomlTables.Document ν)) (tree : Tree) (path : OutputPath) :
    Except ReadError (TomlTables.Document ν) :=
  match tree path with
  | none => .error .missing
  | some .undecodable => .error .undecodable
  | some (.text content) =>
    match loadMaterializationManifest floats loadsOther (universalNewlines content) with
    | .ok document => .ok document
    | .error error => .error (.manifest error)

/-- The tree after the documents have been written one after another, from an empty one. -/
def written (documents : List (Document ν)) : Tree := documents.foldl (writeMaterialization floats) fun _ => none

end Operations

section Names

variable {position : Nat}

theorem ofDigitChars_format02d (value : Nat) : Nat.ofDigitChars 10 (Planning.format02d value).toList 0 = value := by
  rw [Planning.format02d, String.toList_ofList, Python.zeroFill, Nat.ofDigitChars_append, Nat.ofDigitChars_replicate_zero,
    Nat.mul_zero, Nat.ofDigitChars_ten_toDigits]

theorem planName_injective : Function.Injective planName := by
  intro p q h
  have hlist : (Planning.format02d p).toList = (Planning.format02d q).toList := by
    have h := congrArg String.toList h
    simp only [planName, String.toList_append] at h
    exact List.append_cancel_left (List.append_cancel_right h)
  rw [← ofDigitChars_format02d p, hlist, ofDigitChars_format02d]

theorem planName_head (position : Nat) : (planName position).toList.head? = some 'b' := by
  simp only [planName, String.toList_append]
  rfl

theorem temporary_head (path : OutputPath) : path.temporary.name.toList.head? = some '.' := by
  simp only [OutputPath.temporary, String.toList_append]
  rfl

theorem planName_ne_manifestName (position : Nat) : planName position ≠ manifestName := by
  intro h
  have hhead := planName_head position
  rw [h] at hhead
  exact absurd hhead (by decide)

/-- The names of the files that the materializer writes. -/
def IsOutputName (name : String) : Prop := name = manifestName ∨ ∃ position, 1 ≤ position ∧ name = planName position

theorem IsOutputName.head {name : String} (h : IsOutputName name) : name.toList.head? ≠ some '.' := by
  obtain rfl | ⟨position, -, rfl⟩ := h
  · decide
  · rw [planName_head]
    decide

theorem IsOutputName.not_temporary {path : OutputPath} (h : IsOutputName path.name) (other : OutputPath) :
    other.temporary ≠ path :=
  fun heq => h.head (heq ▸ temporary_head other)

end Names

section Writes

variable {tree : Tree} {writes : List (OutputPath × Text)} {path : OutputPath} {payload : Text}

theorem writeFile_apply (tree : Tree) (write : OutputPath × Text) (path : OutputPath) : writeFile tree write path =
    if path = write.1 then some (.text write.2) else if path = write.1.temporary then none else tree path := by
  by_cases hpath : path = write.1
  · rw [if_pos hpath, hpath, writeFile, Function.update_self, Function.update_self]
  · rw [if_neg hpath, writeFile, Function.update_of_ne hpath]
    by_cases htemporary : path = write.1.temporary
    · rw [if_pos htemporary, htemporary, Function.update_self]
    · rw [if_neg htemporary, Function.update_of_ne htemporary, Function.update_of_ne htemporary]

theorem writes_other (hpath : path ∉ writes.map Prod.fst) (htemporary : ∀ write ∈ writes, write.1.temporary ≠ path) :
    writes.foldl writeFile tree path = tree path := by
  induction writes generalizing tree with
  | nil => rfl
  | cons write writes ih =>
    rw [List.map_cons, List.mem_cons, not_or] at hpath
    obtain ⟨hwrite, htemporary⟩ := List.forall_mem_cons.mp htemporary
    rw [List.foldl_cons, ih hpath.2 htemporary, writeFile_apply, if_neg hpath.1, if_neg hwrite.symm]

/-- A path that is not written is not there afterwards, unless it was before. -/
theorem writes_none (hpath : path ∉ writes.map Prod.fst) (hnone : tree path = none) :
    writes.foldl writeFile tree path = none := by
  induction writes generalizing tree with
  | nil => exact hnone
  | cons write writes ih =>
    rw [List.map_cons, List.mem_cons, not_or] at hpath
    rw [List.foldl_cons]
    refine ih hpath.2 ?_
    rw [writeFile_apply, if_neg hpath.1, hnone, ite_self]

theorem writes_mem (hnodup : (writes.map Prod.fst).Nodup) (hmem : (path, payload) ∈ writes)
    (htemporary : ∀ write ∈ writes, write.1.temporary ≠ path) :
    writes.foldl writeFile tree path = some (.text payload) := by
  induction writes generalizing tree with
  | nil => cases hmem
  | cons write writes ih =>
    rw [List.map_cons, List.nodup_cons] at hnodup
    obtain ⟨-, hrest⟩ := List.forall_mem_cons.mp htemporary
    rw [List.foldl_cons]
    obtain rfl | hmem := List.mem_cons.mp hmem
    · rw [writes_other hnodup.1 hrest, writeFile_apply, if_pos rfl]
    · exact ih hnodup.2 hmem hrest

end Writes

section Newlines

variable {src : Text}

theorem universalNewlines_of_notMem (h : 13 ∉ src) : universalNewlines src = src := by
  induction src using universalNewlines.induct with
  | case1 => rfl
  | case2 => exact absurd List.mem_cons_self h
  | case3 => exact absurd List.mem_cons_self h
  | case4 => exact absurd List.mem_cons_self h
  | case5 c src hc ih =>
    rw [List.mem_cons, not_or] at h
    rw [universalNewlines.eq_def]
    simp only [if_neg hc, ih h.2]

theorem return_notMem_universalNewlines (src : Text) : 13 ∉ universalNewlines src := by
  have hnewline : (13 : CodePoint) ≠ 10 := by decide
  induction src using universalNewlines.induct with
  | case1 => exact List.not_mem_nil
  | case2 =>
    rw [universalNewlines.eq_def]
    simp [hnewline]
  | case3 src ih =>
    rw [universalNewlines.eq_def]
    simp [hnewline, ih]
  | case4 d src hd ih =>
    rw [universalNewlines.eq_def]
    simp only [if_neg hd, if_true, List.mem_cons, hnewline, false_or]
    exact ih
  | case5 c src hc ih =>
    rw [universalNewlines.eq_def]
    simp only [if_neg hc, List.mem_cons, Ne.symm hc, false_or]
    exact ih

/-- Exactly the texts without a carriage return are read as they are stored. -/
theorem universalNewlines_eq_self : universalNewlines src = src ↔ 13 ∉ src :=
  ⟨fun h => h ▸ return_notMem_universalNewlines src, universalNewlines_of_notMem⟩

end Newlines

section Checks

variable {ν : Type} {floats : FloatFormat ν} {document : Document ν} {tree : Tree} {expected : OutputPath × Text}

/-- The file holds the text, up to the line ends. -/
def Reads (tree : Tree) (expected : OutputPath × Text) : Prop :=
  ∃ content, tree expected.1 = some (.text content) ∧ universalNewlines content = expected.2

theorem checkFile_eq_none : checkFile tree expected = .ok none ↔ Reads tree expected := by
  unfold checkFile Reads
  cases htree : tree expected.1 with
  | none => simp
  | some file =>
    cases file with
    | undecodable => simp
    | text content => simp [eq_comm]

/-- `check_materialization(document)["state"] == "current"`. -/
def IsCurrent (floats : FloatFormat ν) (tree : Tree) (document : Document ν) : Prop :=
  ∃ check, checkMaterialization floats tree document = .ok check ∧ check.state = .current

theorem isCurrent_iff : IsCurrent floats tree document ↔ ∀ e ∈ (expectedFiles floats document).entries, Reads tree e := by
  constructor
  · rintro ⟨check, hcheck, hstate⟩ e he
    obtain ⟨rows, hrows, hresult⟩ := Checked.bind_eq_ok.mp hcheck
    obtain ⟨row, hrow, hread⟩ := Checked.mapM_mem hrows e he
    obtain rfl := Except.ok.inj hresult
    have hnone : rows.filterMap id = [] := by
      by_contra hne
      rw [if_neg hne] at hstate
      cases hstate
    have hrowNone : row = none := List.filterMap_eq_nil_iff.mp hnone row hrow
    rw [hrowNone] at hread
    exact checkFile_eq_none.mp hread
  · intro hreads
    have hrows : (expectedFiles floats document).entries.mapM (checkFile tree) =
        .ok ((expectedFiles floats document).entries.map fun _ => none) :=
      Checked.mapM_of_ok fun e he => checkFile_eq_none.mpr (hreads e he)
    have hnone : ((expectedFiles floats document).entries.map fun _ => (none : Option (OutputPath × Reason))).filterMap id = [] :=
      List.filterMap_eq_nil_iff.mpr fun row hrow => by
        obtain ⟨e, -, rfl⟩ := List.mem_map.mp hrow
        rfl
    refine ⟨_, Checked.bind_eq_ok.mpr ⟨_, hrows, rfl⟩, ?_⟩
    exact if_pos hnone

end Checks

end FidbPoc.Materialized
