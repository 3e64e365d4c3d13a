import FidbPoc.Lib.Table

namespace FidbPoc.Lib

/-- The names on the way from the root directory. -/
abbrev Path := List String

/-- The text of a symbolic link: names from the root, or from the link's own directory. -/
structure Target where
  absolute : Bool
  parts : List String
  deriving DecidableEq

inductive Node (φ : Type)
  | file (content : φ)
  | directory
  | symlink (target : Target)
  | special
  deriving DecidableEq

namespace Node

variable {φ : Type}

def target? : Node φ → Option Target
  | .symlink target => some target
  | _ => none

def content? : Node φ → Option φ
  | .file content => some content
  | _ => none

def isDirectory : Node φ → Bool
  | .directory => true
  | _ => false

def isSymlink (node : Node φ) : Bool := node.target?.isSome

end Node

/-- A name that an entry of a directory can have. -/
def IsName (part : String) : Prop := part ≠ "" ∧ part ≠ "." ∧ part ≠ ".."

instance (part : String) : Decidable (IsName part) := inferInstanceAs (Decidable (_ ∧ _ ∧ _))

def lookup {φ : Type} (entries : List (Path × Node φ)) (p : Path) : Option (Node φ) :=
  if p = [] then some .directory else (entries.find? fun e => e.1 = p).map Prod.snd

/-- A file tree: its entries in the order in which directories list them. Every
entry has one place, proper names, and a directory to stand in. -/
structure FileTree (φ : Type) where
  entries : List (Path × Node φ)
  nodup : (entries.map Prod.fst).Nodup
  named : ∀ e ∈ entries, e.1 ≠ [] ∧ ∀ part ∈ e.1, IsName part
  grounded : ∀ e ∈ entries, lookup entries e.1.dropLast = some .directory

namespace FileTree

variable {φ : Type} {t u : FileTree φ} {p q : Path}

/-- The node at a place, no link followed. -/
def node? (t : FileTree φ) (p : Path) : Option (Node φ) := lookup t.entries p

theorem node?_eq_some (hp : p ≠ []) {node : Node φ} : t.node? p = some node ↔ (p, node) ∈ t.entries := by
  unfold node? lookup
  rw [if_neg hp]
  constructor
  · intro h
    obtain ⟨e, he, rfl⟩ := Option.map_eq_some_iff.mp h
    have hk : e.1 = p := by simpa using List.find?_some he
    exact hk ▸ List.mem_of_find?_eq_some he
  · intro h
    rw [Table.find?_key t.nodup h]
    rfl

@[simp] theorem node?_nil : t.node? [] = some .directory := rfl

theorem node?_of_mem {e : Path × Node φ} (h : e ∈ t.entries) : t.node? e.1 = some e.2 :=
  (node?_eq_some (t.named e h).1).mpr h

theorem node?_dropLast {node : Node φ} (h : t.node? p = some node) : t.node? p.dropLast = some .directory := by
  by_cases hp : p = []
  · rw [hp]
    rfl
  · exact t.grounded _ ((node?_eq_some hp).mp h)

/-- Every place above an entry is a directory. -/
theorem node?_above {node : Node φ} (h : t.node? q = some node) (hp : p <+: q) (hne : p ≠ q) :
    t.node? p = some .directory := by
  obtain ⟨rest, rfl⟩ := hp
  induction rest using List.reverseRecOn generalizing node with
  | nil => exact absurd (List.append_nil p).symm hne
  | append_singleton rest part ih =>
    have hparent := node?_dropLast h
    rw [← List.append_assoc, List.dropLast_concat] at hparent
    by_cases hrest : rest = []
    · rwa [hrest, List.append_nil] at hparent
    · exact ih hparent (by simpa using hrest)

section Links

/-- The symbolic links and where they point. -/
def links (t : FileTree φ) : List (Path × Target) :=
  t.entries.filterMap fun e => e.2.target?.map fun target => (e.1, target)

def link? (links : List (Path × Target)) (p : Path) : Option Target :=
  (links.find? fun l => l.1 = p).map Prod.snd

/-- One name of a path that is being resolved; `visit` resolves the text of a link. -/
def follow (links : List (Path × Target)) (visit : Path → List String → Option Path) (current : Path)
    (part : String) : Option Path :=
  if part = "" ∨ part = "." then some current
  else if part = ".." then some current.dropLast
  else
    match link? links (current ++ [part]) with
    | none => some (current ++ [part])
    | some target => visit (if target.absolute then [] else current) target.parts

/-- Resolve links nested up to a depth. -/
def resolveFrom (links : List (Path × Target)) : Nat → Path → List String → Option Path
  | 0, base, parts => parts.foldlM (follow links fun _ _ => none) base
  | depth + 1, base, parts => parts.foldlM (follow links (resolveFrom links depth)) base

/-- `Path.resolve()`; `none` for a loop of links. Links nested deeper than there are
links meet one of them inside itself. -/
def resolve (t : FileTree φ) (p : Path) : Option Path := resolveFrom t.links t.links.length [] p

/-- A path that names what it says: no link on the way, no name that steps back. -/
structure Canonical (t : FileTree φ) (p : Path) : Prop where
  named : ∀ part ∈ p, IsName part
  linkFree : ∀ q, q <+: p → link? t.links q = none

theorem Canonical.above (h : Canonical t q) (hp : p <+: q) : Canonical t p :=
  ⟨fun part hpart => h.named part (hp.subset hpart), fun r hr => h.linkFree r (hr.trans hp)⟩

theorem canonical_nil (h : link? t.links [] = none) : Canonical t [] :=
  ⟨fun _ h => (List.not_mem_nil h).elim, fun q hq => by rwa [List.prefix_nil.mp hq]⟩

theorem mem_links {l : Path × Target} : l ∈ t.links ↔ (l.1, Node.symlink l.2) ∈ t.entries := by
  unfold links
  rw [List.mem_filterMap]
  constructor
  · rintro ⟨e, he, hl⟩
    obtain ⟨path, node⟩ := e
    cases node with
    | symlink target =>
      obtain rfl := Option.some.inj hl
      exact he
    | file content => cases hl
    | directory => cases hl
    | special => cases hl
  · intro h
    exact ⟨_, h, rfl⟩

theorem link?_eq_none : link? t.links p = none ↔ ∀ target, (p, Node.symlink target) ∉ t.entries := by
  unfold link?
  rw [Option.map_eq_none_iff, List.find?_eq_none]
  constructor
  · intro h target hmem
    have := h (p, target) (mem_links.mpr hmem)
    simp at this
  · intro h l hl hp
    have hp : l.1 = p := by simpa using hp
    exact h l.2 (hp ▸ mem_links.mp hl)

theorem link?_nil : link? t.links [] = none :=
  link?_eq_none.mpr fun _ h => (t.named _ h).1 rfl

/-- A place that is there and is not a link is not in the table of links. -/
theorem link?_of_node? {node : Node φ} (h : t.node? p = some node) (hnode : node.isSymlink = false) :
    link? t.links p = none := by
  by_cases hp : p = []
  · exact hp ▸ link?_nil
  · refine link?_eq_none.mpr fun target hmem => ?_
    rw [(node?_eq_some hp).mpr hmem] at h
    obtain rfl := Option.some.inj h
    cases hnode

theorem link?_of_node?_none (h : t.node? p = none) : link? t.links p = none :=
  link?_eq_none.mpr fun target hmem => by rw [node?_of_mem hmem] at h; cases h

theorem canonical_foldlM {visit : Path → List String → Option Path}
    (hvisit : ∀ base parts q, Canonical t base → visit base parts = some q → Canonical t q) (parts : List String)
    (base : Path) (hbase : Canonical t base) (h : parts.foldlM (follow t.links visit) base = some q) : Canonical t q := by
  induction parts generalizing base with
  | nil =>
    obtain rfl := Option.some.inj h
    exact hbase
  | cons part parts ih =>
    rw [List.foldlM_cons] at h
    obtain ⟨next, hnext, h⟩ := Option.bind_eq_some_iff.mp h
    refine ih next ?_ h
    unfold follow at hnext
    split at hnext
    · exact Option.some.inj hnext ▸ hbase
    · rename_i hempty
      split at hnext
      · exact Option.some.inj hnext ▸ hbase.above (List.dropLast_prefix base)
      · rename_i hback
        split at hnext
        · rename_i hlink
          obtain rfl := Option.some.inj hnext
          refine ⟨fun other hother => ?_, fun r hr => ?_⟩
          · rcases List.mem_append.mp hother with hother | hother
            · exact hbase.named other hother
            · obtain rfl := List.mem_singleton.mp hother
              exact ⟨fun h => hempty (.inl h), fun h => hempty (.inr h), hback⟩
          · rcases List.prefix_concat_iff.mp hr with rfl | hr
            · exact hlink
            · exact hbase.linkFree r hr
        · refine hvisit _ _ next ?_ hnext
          split
          · exact canonical_nil link?_nil
          · exact hbase

theorem canonical_resolveFrom {depth : Nat} {base : Path} {parts : List String} (hbase : Canonical t base)
    (h : resolveFrom t.links depth base parts = some q) : Canonical t q := by
  induction depth generalizing base parts q with
  | zero => exact canonical_foldlM (fun _ _ _ _ h => by cases h) parts base hbase h
  | succ depth ih => exact canonical_foldlM (fun _ _ _ hb h => ih hb h) parts base hbase h

theorem canonical_resolve (h : t.resolve p = some q) : Canonical t q :=
  canonical_resolveFrom (canonical_nil link?_nil) h

theorem foldlM_follow_canonical (visit : Path → List String → Option Path) (base parts : Path)
    (h : Canonical t (base ++ parts)) : parts.foldlM (follow t.links visit) base = some (base ++ parts) := by
  induction parts generalizing base with
  | nil => simp
  | cons part parts ih =>
    have hsplit : base ++ part :: parts = base ++ [part] ++ parts := by simp
    have hname := h.named part (by simp)
    have hlink := h.linkFree (base ++ [part]) ⟨parts, hsplit.symm⟩
    have hfollow : follow t.links visit base part = some (base ++ [part]) := by
      simp [follow, hname.1, hname.2.1, hname.2.2, hlink]
    rw [List.foldlM_cons, hfollow, hsplit]
    exact ih (base ++ [part]) (hsplit ▸ h)

/-- A canonical path resolves to itself. -/
theorem resolve_canonical (h : Canonical t p) : t.resolve p = some p := by
  unfold resolve
  cases t.links.length with
  | zero => exact foldlM_follow_canonical _ [] p h
  | succ depth => exact foldlM_follow_canonical _ [] p h

theorem resolve_resolve (h : t.resolve p = some q) : t.resolve q = some q :=
  resolve_canonical (canonical_resolve h)

theorem resolve_congr (h : t.links = u.links) (p : Path) : t.resolve p = u.resolve p := by
  unfold resolve
  rw [h]

theorem Canonical.congr (h : Canonical t p) (hl : t.links = u.links) : Canonical u p :=
  ⟨h.named, hl ▸ h.linkFree⟩

/-- An entry whose own node and whose directories are no links is canonical. -/
theorem canonical_of_node? {node : Node φ} (h : t.node? p = some node) (hnode : node.isSymlink = false) :
    Canonical t p := by
  refine ⟨fun part hpart => ?_, fun q hq => ?_⟩
  · have hp : p ≠ [] := List.ne_nil_of_mem hpart
    exact (t.named _ ((node?_eq_some hp).mp h)).2 part hpart
  · by_cases hqp : q = p
    · exact hqp ▸ link?_of_node? h hnode
    · exact link?_of_node? (node?_above h hq hqp) rfl

end Links

section Queries

/-- The node a path leads to, links followed. -/
def stat (t : FileTree φ) (p : Path) : Option (Node φ) := (t.resolve p).bind t.node?

/-- The node at the end of a path, its last name not followed. -/
def lstat (t : FileTree φ) (p : Path) : Option (Node φ) :=
  match p.getLast? with
  | none => some .directory
  | some part => (t.resolve p.dropLast).bind fun parent => t.node? (parent ++ [part])

def exists? (t : FileTree φ) (p : Path) : Bool := (t.stat p).isSome

def isFile (t : FileTree φ) (p : Path) : Bool := ((t.stat p).bind Node.content?).isSome

def isDirectory (t : FileTree φ) (p : Path) : Bool := (t.stat p).any Node.isDirectory

def isSymlink (t : FileTree φ) (p : Path) : Bool := (t.lstat p).any Node.isSymlink

/-- The names in a directory. -/
def names (t : FileTree φ) (directory : Path) : List String :=
  t.entries.filterMap fun e => if e.1.dropLast = directory then e.1.getLast? else none

/-- What `scandir` lists at a path. -/
def listing (t : FileTree φ) (p : Path) : List String := ((t.resolve p).map t.names).getD []

/-- A directory that `os.walk` yields: what it takes for directories, and the rest. -/
structure Visit where
  directory : Path
  directories : List String
  filenames : List String
  deriving DecidableEq

/-- A directory and those below it, no link followed. -/
def directoriesBelow (t : FileTree φ) (p : Path) : List Path :=
  p :: (t.entries.filter fun e => p <+: e.1 ∧ e.1 ≠ p ∧ e.2.isDirectory).map Prod.fst

/-- `os.walk(path, followlinks=False)`. -/
def walk (t : FileTree φ) (p : Path) : List Visit :=
  match t.resolve p with
  | none => []
  | some top =>
    if (t.node? top).any Node.isDirectory then
      (t.directoriesBelow top).map fun directory =>
        ⟨directory, (t.names directory).filter fun name => t.isDirectory (directory ++ [name]),
          (t.names directory).filter fun name => !t.isDirectory (directory ++ [name])⟩
    else []

theorem mem_names {name : String} : name ∈ t.names p ↔ ∃ node, (p ++ [name], node) ∈ t.entries := by
  unfold names
  rw [List.mem_filterMap]
  constructor
  · rintro ⟨e, he, hname⟩
    by_cases hp : e.1.dropLast = p
    · rw [if_pos hp] at hname
      have hconcat := List.dropLast_append_getLast? name hname
      exact ⟨e.2, by rw [← hp, hconcat]; exact he⟩
    · rw [if_neg hp] at hname
      cases hname
  · rintro ⟨node, hmem⟩
    exact ⟨_, hmem, by simp⟩

theorem mem_names_iff {name : String} : name ∈ t.names p ↔ (t.node? (p ++ [name])).isSome := by
  rw [mem_names, Option.isSome_iff_exists]
  exact exists_congr fun node => (node?_eq_some (by simp)).symm

theorem stat_canonical (h : Canonical t p) : t.stat p = t.node? p := by
  unfold stat
  rw [resolve_canonical h, Option.bind_some]

theorem lstat_concat {part : String} : t.lstat (p ++ [part]) = (t.resolve p).bind fun q => t.node? (q ++ [part]) := by
  simp [lstat]

theorem lstat_canonical (h : Canonical t p) : t.lstat p = t.node? p := by
  induction p using List.reverseRecOn with
  | nil => rfl
  | append_singleton p part =>
    rw [lstat_concat, resolve_canonical (h.above (List.prefix_append p [part])), Option.bind_some]

/-- A proper name below a path that is no link there stays the last name when the path is resolved. -/
theorem resolve_concat {part : String} (hpart : IsName part) (hlink : t.isSymlink (p ++ [part]) = false)
    (h : t.resolve (p ++ [part]) = some q) : ∃ parent, t.resolve p = some parent ∧ q = parent ++ [part] := by
  have hsplit : ∃ visit, t.resolve (p ++ [part]) = (t.resolve p).bind fun parent => follow t.links visit parent part := by
    unfold resolve
    cases t.links.length with
    | zero => exact ⟨fun _ _ => none, by simp [resolveFrom, List.foldlM_append]⟩
    | succ depth => exact ⟨resolveFrom t.links depth, by simp [resolveFrom, List.foldlM_append]⟩
  obtain ⟨visit, hvisit⟩ := hsplit
  obtain ⟨parent, hparent, hfollow⟩ := Option.bind_eq_some_iff.mp (hvisit.symm.trans h)
  have hplain : link? t.links (parent ++ [part]) = none := by
    rw [isSymlink, lstat_concat, hparent, Option.bind_some] at hlink
    cases hnode : t.node? (parent ++ [part]) with
    | none => exact link?_of_node?_none hnode
    | some node =>
      rw [hnode] at hlink
      exact link?_of_node? hnode hlink
  refine ⟨parent, hparent, ?_⟩
  simpa [follow, hpart.1, hpart.2.1, hpart.2.2, hplain] using hfollow.symm

end Queries

end FileTree

end FidbPoc.Lib
