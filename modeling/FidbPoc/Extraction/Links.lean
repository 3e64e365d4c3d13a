import FidbPoc.Extraction.Containment
import FidbPoc.Lib.Walks

namespace FidbPoc.Extraction

open FidbPoc.Lib FidbPoc.Lib.Checked FidbPoc.Lib.Walks

section Links

variable {place : Place} {members : List Member} {files files' : Files File} {rel path : Path}

/-- A link whose text steps back at its beginning only, and not out of the tree. -/
def Member.Steady (m : Member) : Prop :=
  ∀ linkName, m.kind.linkName? = some linkName →
    m.path ≠ [] ∧ staysWithin m.path.dropLast.length linkName.parts = true

theorem linkless_staged : Linkless place place.staged := by
  intro rel
  by_cases hrel : rel = []
  · rw [hrel, List.append_nil, get?_staged_above List.prefix_rfl]
    rfl
  · rw [get?_staged_below hrel]
    rfl

theorem linkless_mkdir (h : Linkless place files) (hmade : mkdir files path = .ok files') : Linkless place files' := by
  intro rel
  rw [Files.get?_makeDirectories (mkdir_eq_ok.mp hmade)]
  split
  · rfl
  · exact h rel

theorem linkless_set (h : Linkless place files) {file : File} : Linkless place (files.set path (.file file)) := by
  intro rel
  rw [Dict.get?_set]
  split
  · rfl
  · exact h rel

/-- What the loop over the members keeps besides: no link is made, and every deferred one is for the place of its member. -/
structure Linking (place : Place) (members : List Member) (state : State) : Prop extends Unpacking place members state where
  linkless : Linkless place state.files
  placed : ∀ link ∈ state.deferredSymlinks, ∃ m ∈ members, m.kind = .symlink link.2 ∧ link.1 = place.stage ++ m.path ∧
    ∀ part ∈ m.path, IsName part

theorem linking_extractMember {state state' : State} {m : Member} (hm : m ∈ members) (h : Linking place members state)
    (hstep : extractMember place state m = .ok state') : Linking place members state' := by
  have hunpacking := unpacking_extractMember hm h.toUnpacking hstep
  unfold extractMember at hstep
  obtain ⟨target, htarget, hstep⟩ := bind_eq_ok.mp hstep
  obtain ⟨hsafe, rfl⟩ := (safeMemberPath_eq_ok h.inside.standing h.linkless).mp htarget
  cases hkind : m.kind with
  | directory =>
    simp only [hkind, bind_eq_ok, pure_eq_ok] at hstep
    obtain ⟨files, hmade, rfl⟩ := hstep
    exact ⟨hunpacking, linkless_mkdir h.linkless hmade, h.placed⟩
  | symlink linkName =>
    simp only [hkind, bind_eq_ok, pure_eq_ok] at hstep
    obtain ⟨files, hmade, rfl⟩ := hstep
    refine ⟨hunpacking, linkless_mkdir h.linkless hmade, fun link hlink => ?_⟩
    rcases List.mem_append.mp hlink with hlink | hlink
    · exact h.placed link hlink
    · obtain rfl := List.mem_singleton.mp hlink
      refine ⟨m, hm, hkind, rfl, fun part hpart => ?_⟩
      obtain ⟨hmem, hproper⟩ := List.mem_filter.mp hpart
      obtain ⟨hempty, hdot⟩ := of_decide_eq_true hproper
      exact ⟨hempty, hdot, fun hback => hsafe.2 (hback ▸ hmem)⟩
  | other =>
    simp only [hkind] at hstep
    cases hstep
  | file content =>
    simp only [hkind, bind_eq_ok, pure_eq_ok, writeFile_eq_ok] at hstep
    obtain ⟨files, hmade, _, ⟨hfree, rfl⟩, rfl⟩ := hstep
    exact ⟨hunpacking, linkless_set (linkless_mkdir h.linkless hmade), h.placed⟩

/-- The tree as the staging directory holds it. -/
def treeOf (place : Place) (files : Files File) (rel : Path) : Option (Node File) := files.get? (place.stage ++ rel)

/-- Every link that has been made leads to a place that is there. -/
structure Led (place : Place) (files : Files File) : Prop where
  steady : Walks.Steady files place.stage
  leads : ∀ rel target, treeOf place files rel = some (.symlink target) →
    ∃ q, Leads (treeOf place files) rel.dropLast target.parts q ∧ (treeOf place files q).isSome

theorem steady_of_inside (h : Inside place members files) (hlinkless : Linkless place files) :
    Walks.Steady files place.stage where
  grounded rel hrel hsome := by
    obtain ⟨node, hnode⟩ := Option.isSome_iff_exists.mp hsome
    exact h.grounded rel node hrel hnode
  links rel target hlink := by
    have hnone := hlinkless rel
    rw [hlink] at hnone
    cases hnone

/-- A directory in the tree resolves to itself. -/
theorem foldlM_follow_stage {visit : Path → List String → Option Path} (h : Inside place members files)
    (hnames : ∀ part ∈ rel, IsName part) (hdirectory : files.get? (place.stage ++ rel) = some .directory) :
    (place.stage ++ rel).foldlM (FileTree.follow files.links visit) [] = some (place.stage ++ rel) := by
  refine Files.foldlM_follow_linkFree [] _ (List.forall_mem_append.mpr ⟨stage_names, hnames⟩) fun q _ hq => ?_
  rw [List.nil_append, Files.link?_links]
  have hplain : files.get? q = some .directory := by
    rcases prefix_stage_append hq with hq | ⟨r, ⟨rest, rfl⟩, rfl⟩
    · exact h.standing q hq
    · clear hq hnames
      induction rest using List.reverseRecOn with
      | nil => rwa [List.append_nil] at hdirectory
      | append_singleton rest part ih =>
        rw [← List.append_assoc r] at hdirectory
        have hparent := h.grounded (r ++ rest ++ [part]) .directory (by simp) hdirectory
        rw [List.dropLast_concat] at hparent
        exact ih hparent
  rw [hplain]
  rfl

theorem led_createSymlink {links : List (Path × Target)} {link : Path × Target} (hlink : link ∈ links)
    (hmembers : ∀ m ∈ members, m.Steady)
    (hplaced : ∃ m ∈ members, m.kind = .symlink link.2 ∧ link.1 = place.stage ++ m.path ∧ ∀ part ∈ m.path, IsName part)
    (h : (Inside place members files ∧ Deferred place members files links) ∧ Led place files)
    (hmade : createSymlink place files link = .ok files') : Led place files' := by
  obtain ⟨m, hm, hkind, hplace, hnames⟩ := hplaced
  have hlinkName : m.kind.linkName? = some link.2 := by rw [hkind]; rfl
  obtain ⟨hne, hwithin⟩ := hmembers m hm link.2 hlinkName
  have hafter := (inside_createSymlink hlink h.1 hmade).1
  unfold createSymlink at hmade
  simp only [bind_eq_ok, require_eq_ok, pure_eq_ok] at hmade
  obtain ⟨resolved, hsafe, _, -, _, hnone, rfl⟩ := hmade
  rw [Option.isNone_iff_eq_none, hplace] at hnone
  unfold safeSymlinkTarget at hsafe
  simp only [bind_eq_ok, require_eq_ok] at hsafe
  obtain ⟨_, hrelative, hsafe⟩ := hsafe
  have hparent := (h.1.2 link hlink).2.1
  rw [hplace, List.dropLast_append_of_ne_nil hne] at hparent
  rw [hplace, List.dropLast_append_of_ne_nil hne] at hsafe
  cases hresolve : files.resolve (place.stage ++ m.path.dropLast ++ link.2.parts) with
  | none =>
    rw [hresolve] at hsafe
    cases hsafe
  | some found =>
    rw [hresolve] at hsafe
    simp only [bind_eq_ok, require_eq_ok, pure_eq_ok] at hsafe
    obtain ⟨_, -, _, hsome, rfl⟩ := hsafe
    have hdirectory : ∀ part ∈ m.path.dropLast, IsName part := fun part hpart =>
      hnames part (List.mem_of_mem_dropLast hpart)
    have hstart : FileTree.resolveFrom files.links files.links.length (place.stage ++ m.path.dropLast) link.2.parts =
        some found := by
      unfold Files.resolve at hresolve
      revert hresolve
      cases files.links.length with
      | zero =>
        rw [FileTree.resolveFrom, FileTree.resolveFrom, List.foldlM_append, foldlM_follow_stage h.1.1 hdirectory hparent]
        exact id
      | succ depth =>
        rw [FileTree.resolveFrom, FileTree.resolveFrom, List.foldlM_append, foldlM_follow_stage h.1.1 hdirectory hparent]
        exact id
    obtain ⟨q, rfl, hleads⟩ := found_resolveFrom h.2.steady hwithin hstart
    have hmore : ∀ p node, treeOf place files p = some node →
        treeOf place (files.set (place.stage ++ m.path) (.symlink link.2)) p = some node := by
      intro p node hnode
      have hother : place.stage ++ p ≠ place.stage ++ m.path := by
        intro he
        rw [treeOf, he, hnone] at hnode
        cases hnode
      rw [treeOf, Dict.get?_set, if_neg hother]
      exact hnode
    have hkeeps : ∀ p, (treeOf place files p).isSome →
        (treeOf place (files.set (place.stage ++ m.path) (.symlink link.2)) p).isSome := by
      intro p hp
      obtain ⟨node, hnode⟩ := Option.isSome_iff_exists.mp hp
      rw [hmore p node hnode]
      rfl
    rw [hplace] at hafter ⊢
    refine ⟨⟨fun rel hrel hthere => ?_, fun rel target hget => ?_⟩, fun rel target hget => ?_⟩
    · obtain ⟨node, hnode⟩ := Option.isSome_iff_exists.mp hthere
      exact hafter.grounded rel node hrel hnode
    · rw [Dict.get?_set] at hget
      split at hget
      · rename_i he
        obtain rfl := List.append_cancel_left he
        cases hget
        exact ⟨hne, hrelative, hwithin⟩
      · exact h.2.steady.links rel target hget
    · rw [treeOf, Dict.get?_set] at hget
      split at hget
      · rename_i he
        obtain rfl := List.append_cancel_left he
        cases hget
        exact ⟨q, (hleads hsome).mono hmore, hkeeps q hsome⟩
      · obtain ⟨q', hq', hthere⟩ := h.2.leads rel target hget
        exact ⟨q', hq'.mono hmore, hkeeps q' hthere⟩

end Links

namespace TwoLinks

theorem steady_members : ∀ m ∈ [file, second, first], m.Steady := by
  intro m hm linkName hlink
  simp only [List.mem_cons, List.not_mem_nil, or_false] at hm
  obtain rfl | rfl | rfl := hm
  · cases hlink
  · obtain rfl := Option.some.inj hlink
    decide
  · obtain rfl := Option.some.inj hlink
    decide

/-- A later link turns the step back of an earlier one, and the earlier one leads out of the tree. -/
example : ∃ result, extractStaged place
    [⟨⟨false, ["file"]⟩, .file "text", 0o644, 0⟩, member "first" (.symlink ⟨false, ["second", "..", "..", "file"]⟩),
      member "second" (.symlink ⟨false, [".."]⟩)] "src" = .ok result ∧
    result.1.resolve (place.stage ++ ["src", "first"]) = some ["sources", "file"] := ⟨_, rfl, by decide⟩

end TwoLinks

end FidbPoc.Extraction
