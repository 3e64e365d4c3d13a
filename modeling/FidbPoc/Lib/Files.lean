import FidbPoc.Lib.Dict
import FidbPoc.Lib.FileTree
import Mathlib.Data.List.Infix

namespace FidbPoc.Lib

/-- The nodes of a file system by their place; the root is one of them. -/
abbrev Files (φ : Type) := Dict Path (Node φ)

namespace Files

open FileTree

variable {φ : Type} {files files' : Files φ} {p q : Path}

theorem nodup_ofTree (t : FileTree φ) : ((([], Node.directory) :: t.entries).map Prod.fst).Nodup := by
  rw [List.map_cons, List.nodup_cons]
  refine ⟨fun h => ?_, t.nodup⟩
  obtain ⟨e, he, hroot⟩ := List.mem_map.mp h
  exact (t.named e he).1 hroot

def ofTree (t : FileTree φ) : Files φ := ⟨([], .directory) :: t.entries, nodup_ofTree t⟩

theorem get?_ofTree (t : FileTree φ) (p : Path) : (ofTree t).get? p = t.node? p := by
  by_cases hp : p = []
  · subst hp
    rfl
  · have hroot : ¬([] : Path) = p := fun h => hp h.symm
    rw [Dict.get?, ofTree, List.find?_cons, decide_eq_false hroot, FileTree.node?, lookup, if_neg hp]

section Resolving

/-- The symbolic links and where they point. -/
def links (files : Files φ) : List (Path × Target) :=
  files.entries.filterMap fun e => e.2.target?.map fun target => (e.1, target)

/-- `Path.resolve()` of a path from the root; a name that is not there stands for itself. -/
def resolve (files : Files φ) (p : Path) : Option Path := resolveFrom files.links files.links.length [] p

theorem link?_links : link? files.links p = (files.get? p).bind Node.target? := by
  have hnodup := files.nodup
  unfold links link? Dict.get?
  generalize files.entries = entries at hnodup ⊢
  induction entries with
  | nil => rfl
  | cons e entries ih =>
    rw [List.map_cons, List.nodup_cons] at hnodup
    rw [List.filterMap_cons, List.find?_cons]
    by_cases he : e.1 = p
    · cases htarget : e.2.target? with
      | none =>
        have hrest : (entries.find? fun e => e.1 = p) = none := by
          refine List.find?_eq_none.mpr fun other hother hkey => hnodup.1 ?_
          rw [he, ← of_decide_eq_true hkey]
          exact List.mem_map_of_mem hother
        simp only [Option.map_none, he, decide_true, Option.map_some, Option.bind_some, htarget]
        rw [ih hnodup.2, hrest]
        rfl
      | some target => simp [he, htarget]
    · cases htarget : e.2.target? with
      | none => simp only [Option.map_none, he, decide_false, ih hnodup.2]
      | some target => simp only [Option.map_some, List.find?_cons, he, decide_false, ih hnodup.2]

theorem resolveFrom_congr {links links' : List (Path × Target)} (h : ∀ p, link? links' p = link? links p) :
    resolveFrom links' = resolveFrom links := by
  have hfollow (visit : Path → List String → Option Path) : follow links' visit = follow links visit := by
    funext current part
    rw [follow, follow, h]
  funext depth
  induction depth with
  | zero =>
    funext base parts
    rw [resolveFrom, resolveFrom, hfollow]
  | succ depth ih =>
    funext base parts
    rw [resolveFrom, resolveFrom, ih, hfollow]

/-- What a path resolves to depends on the nodes only. -/
theorem resolve_congr (h : ∀ p, files'.get? p = files.get? p) (p : Path) : files'.resolve p = files.resolve p := by
  have hperm : files'.entries.Perm files.entries := by
    refine (List.perm_ext_iff_of_nodup files'.nodup.of_map files.nodup.of_map).mpr fun entry => ?_
    rw [← Dict.get?_eq_some_iff, ← Dict.get?_eq_some_iff, h]
  have hlength : files'.links.length = files.links.length := (hperm.filterMap _).length_eq
  have hlink (q : Path) : link? files'.links q = link? files.links q := by rw [link?_links, link?_links, h]
  rw [resolve, resolve, hlength, resolveFrom_congr hlink]

/-- The names of a path, those aside that stay where they are. -/
def proper (parts : List String) : Path := parts.filter fun part => part ≠ "" ∧ part ≠ "."

theorem foldlM_follow_proper {links : List (Path × Target)} {visit : Path → List String → Option Path}
    (parts : List String) (base : Path) :
    parts.foldlM (follow links visit) base = (proper parts).foldlM (follow links visit) base := by
  induction parts generalizing base with
  | nil => rfl
  | cons part parts ih =>
    by_cases hpart : part = "" ∨ part = "."
    · have hfilter : proper (part :: parts) = proper parts := by
        rcases hpart with rfl | rfl <;> rfl
      have hstay : follow links visit base part = some base := by rw [follow, if_pos hpart]
      rw [List.foldlM_cons, hstay, hfilter]
      exact ih base
    · have hfilter : proper (part :: parts) = part :: proper parts :=
        List.filter_cons_of_pos (decide_eq_true (not_or.mp hpart))
      rw [hfilter, List.foldlM_cons, List.foldlM_cons]
      exact congrArg _ (funext ih)

/-- A way on which no name steps back and no place is a link ends where its names lead. -/
theorem foldlM_follow_linkFree {links : List (Path × Target)} {visit : Path → List String → Option Path}
    (base names : Path) (hnames : ∀ part ∈ names, IsName part)
    (hlinks : ∀ q, q ≠ [] → q <+: names → link? links (base ++ q) = none) :
    names.foldlM (follow links visit) base = some (base ++ names) := by
  induction names generalizing base with
  | nil => simp
  | cons part names ih =>
    obtain ⟨hpart, hnames⟩ := List.forall_mem_cons.mp hnames
    have hlink := hlinks [part] (List.cons_ne_nil _ _) ⟨names, rfl⟩
    have hfollow : follow links visit base part = some (base ++ [part]) := by
      simp [follow, hpart.1, hpart.2.1, hpart.2.2, hlink]
    rw [List.foldlM_cons, hfollow]
    refine (ih (base ++ [part]) hnames fun q hq hpre => ?_).trans (by simp)
    rw [List.append_assoc]
    exact hlinks (part :: q) (List.cons_ne_nil _ _) (List.cons_prefix_cons.mpr ⟨rfl, hpre⟩)

theorem resolveFrom_linkFree {links : List (Path × Target)} {depth : Nat} (base : Path) (parts : List String)
    (hnames : ∀ part ∈ proper parts, IsName part)
    (hlinks : ∀ q, q ≠ [] → q <+: proper parts → link? links (base ++ q) = none) :
    resolveFrom links depth base parts = some (base ++ proper parts) := by
  cases depth with
  | zero => rw [resolveFrom, foldlM_follow_proper, foldlM_follow_linkFree base _ hnames hlinks]
  | succ depth => rw [resolveFrom, foldlM_follow_proper, foldlM_follow_linkFree base _ hnames hlinks]

end Resolving

section Making

/-- `mkdir` of one place, where a directory may stand already. -/
def makeDirectory (files : Files φ) (p : Path) : Option (Files φ) :=
  match files.get? p with
  | none => some (files.set p .directory)
  | some .directory => some files
  | some _ => none

/-- `mkdir(parents=True, exist_ok=True)`. -/
def makeDirectories (files : Files φ) (p : Path) : Option (Files φ) := p.inits.foldlM makeDirectory files

/-- A place that is free or a directory. -/
def Open (files : Files φ) (p : Path) : Prop := files.get? p = none ∨ files.get? p = some .directory

theorem makeDirectory_eq_some : makeDirectory files p = some files' ↔ files.Open p ∧ files' =
    if files.get? p = none then files.set p .directory else files := by
  unfold makeDirectory Open
  split
  · rename_i hnone
    simp [hnone, eq_comm]
  · rename_i hdirectory
    simp [hdirectory, eq_comm]
  · rename_i node hother hnode
    refine ⟨fun h => (by cases h), ?_⟩
    rintro ⟨h | h, -⟩
    · rw [hnode] at h
      cases h
    · rw [hnode] at h
      exact absurd (Option.some.inj h) hother

theorem get?_makeDirectory (h : makeDirectory files p = some files') (q : Path) :
    files'.get? q = if q = p ∧ files.get? q = none then some .directory else files.get? q := by
  obtain ⟨-, rfl⟩ := makeDirectory_eq_some.mp h
  by_cases hnone : files.get? p = none
  · rw [if_pos hnone, Dict.get?_set]
    by_cases hq : q = p
    · rw [if_pos hq, if_pos ⟨hq, hq ▸ hnone⟩]
    · rw [if_neg hq, if_neg fun h => hq h.1]
  · rw [if_neg hnone, if_neg]
    rintro ⟨rfl, hq⟩
    exact hnone hq

/-- Directories can be made where nothing else is in the way, and only where nothing was. -/
theorem foldlM_makeDirectory (places : List Path) :
    ((∃ files', places.foldlM makeDirectory files = some files') ↔ ∀ p ∈ places, files.Open p) ∧
      ∀ files', places.foldlM makeDirectory files = some files' → ∀ q, files'.get? q =
        if q ∈ places ∧ files.get? q = none then some .directory else files.get? q := by
  induction places generalizing files with
  | nil =>
    refine ⟨by simp, fun files' h q => ?_⟩
    obtain rfl := Option.some.inj h
    simp
  | cons p places ih =>
    cases hmade : makeDirectory files p with
    | none =>
      have hclosed : ¬files.Open p := fun hopen => by
        rw [makeDirectory_eq_some.mpr ⟨hopen, rfl⟩] at hmade
        cases hmade
      refine ⟨⟨?_, fun h => absurd (h p List.mem_cons_self) hclosed⟩, fun _ h => ?_⟩
      · rintro ⟨_, h⟩
        rw [List.foldlM_cons, hmade] at h
        cases h
      · rw [List.foldlM_cons, hmade] at h
        cases h
    | some next =>
      obtain ⟨hopen, -⟩ := makeDirectory_eq_some.mp hmade
      have hget := get?_makeDirectory hmade
      have hstill (q : Path) : next.Open q ↔ files.Open q := by
        unfold Open
        rw [hget q]
        by_cases hq : q = p ∧ files.get? q = none
        · rw [if_pos hq]
          exact ⟨fun _ => .inl hq.2, fun _ => .inr rfl⟩
        · rw [if_neg hq]
      have hcons : (p :: places).foldlM makeDirectory files = places.foldlM makeDirectory next := by
        rw [List.foldlM_cons, hmade]
        rfl
      rw [hcons]
      obtain ⟨hiff, hgets⟩ := @ih next
      refine ⟨hiff.trans ?_, fun files' h q => ?_⟩
      · rw [List.forall_mem_cons, and_iff_right hopen]
        exact forall₂_congr fun q _ => hstill q
      · rw [hgets files' h q, hget q]
        by_cases hnone : files.get? q = none
        · by_cases hq : q = p
          · subst hq
            simp [hnone]
          · simp [hnone, hq]
        · simp [hnone]

theorem makeDirectories_isSome : (∃ files', makeDirectories files p = some files') ↔ ∀ q, q <+: p → files.Open q := by
  unfold makeDirectories
  rw [(foldlM_makeDirectory p.inits).1]
  exact forall_congr' fun q => by rw [List.mem_inits]

theorem get?_makeDirectories (h : makeDirectories files p = some files') (q : Path) :
    files'.get? q = if q <+: p ∧ files.get? q = none then some .directory else files.get? q := by
  rw [(foldlM_makeDirectory p.inits).2 files' h q]
  simp only [List.mem_inits]

end Making

end Files

end FidbPoc.Lib
