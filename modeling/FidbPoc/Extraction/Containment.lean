import FidbPoc.Extraction.Order

namespace FidbPoc.Extraction

open FidbPoc.Lib FidbPoc.Lib.Checked

section Containment

variable {place : Place} {members : List Member} {files files' : Files File} {rel path : Path}

/-- What a member puts into the tree besides directories. -/
inductive Puts (m : Member) : Node File → Prop
  | file {content : String} (h : m.kind = .file content) : Puts m (.file ⟨content, fileMode m.mode, m.modified⟩)
  | symlink {linkName : Target} (h : m.kind = .symlink linkName) (hrelative : linkName.absolute = false) :
      Puts m (.symlink linkName)

/-- Nothing outside the staging directory has changed, and inside it there are directories and what
members put there, every entry standing in a directory. -/
structure Inside (place : Place) (members : List Member) (files : Files File) : Prop where
  outside : ∀ p, ¬place.stage <+: p → files.get? p = place.staged.get? p
  root : files.get? place.stage = some .directory
  grounded : ∀ rel node, rel ≠ [] → files.get? (place.stage ++ rel) = some node →
    files.get? (place.stage ++ rel.dropLast) = some .directory
  content : ∀ rel node, files.get? (place.stage ++ rel) = some node → node = .directory ∨ ∃ m ∈ members, Puts m node

theorem inside_staged : Inside place members place.staged where
  outside _ _ := rfl
  root := get?_staged_above List.prefix_rfl
  grounded rel node hrel h := by
    rw [get?_staged_below hrel] at h
    cases h
  content rel node h := by
    by_cases hrel : rel = []
    · rw [hrel, List.append_nil, get?_staged_above List.prefix_rfl] at h
      exact .inl (Option.some.inj h).symm
    · rw [get?_staged_below hrel] at h
      cases h

namespace Inside

theorem standing (h : Inside place members files) : Standing place files := by
  intro p hp
  by_cases hstage : place.stage <+: p
  · rw [hp.eq_of_length_le hstage.length_le]
    exact h.root
  · rw [h.outside p hstage]
    exact get?_staged_above hp

/-- A place that is no directory may be given a node, if it stands in a directory. -/
theorem set (h : Inside place members files) (hrel : rel ≠ []) (hfree : files.get? (place.stage ++ rel) ≠ some .directory)
    (hparent : files.get? (place.stage ++ rel.dropLast) = some .directory) {node : Node File}
    (hnode : ∃ m ∈ members, Puts m node) : Inside place members (files.set (place.stage ++ rel) node) where
  outside p hp := by
    have hne : p ≠ place.stage ++ rel := fun he => hp (he ▸ List.prefix_append _ _)
    rw [Dict.get?_set, if_neg hne, h.outside p hp]
  root := by
    have hne : place.stage ≠ place.stage ++ rel := fun he => hrel (List.append_right_eq_self.mp he.symm)
    rw [Dict.get?_set, if_neg hne, h.root]
  grounded other node' hother hget := by
    have hdirectory : files.get? (place.stage ++ other.dropLast) = some .directory := by
      rw [Dict.get?_set] at hget
      split at hget
      · rename_i he
        rw [List.append_cancel_left he]
        exact hparent
      · exact h.grounded other node' hother hget
    have hne : place.stage ++ other.dropLast ≠ place.stage ++ rel := fun he => hfree (he ▸ hdirectory)
    rw [Dict.get?_set, if_neg hne, hdirectory]
  content other node' hget := by
    rw [Dict.get?_set] at hget
    split at hget
    · exact Option.some.inj hget ▸ .inr hnode
    · exact h.content other node' hget

end Inside

/-- Directories stay where they are. -/
def Keeps (files files' : Files File) : Prop := ∀ p, files.get? p = some .directory → files'.get? p = some .directory

theorem keeps_mkdir (h : mkdir files path = .ok files') : Keeps files files' := by
  intro p hp
  rw [Files.get?_makeDirectories (mkdir_eq_ok.mp h), if_neg (by simp [hp]), hp]

theorem mkdir_directory (h : mkdir files path = .ok files') : files'.get? path = some .directory := by
  rw [Files.get?_makeDirectories (mkdir_eq_ok.mp h)]
  rcases Files.makeDirectories_isSome.mp ⟨_, mkdir_eq_ok.mp h⟩ path List.prefix_rfl with hnone | hdirectory
  · rw [if_pos ⟨List.prefix_rfl, hnone⟩]
  · rw [if_neg (by simp [hdirectory]), hdirectory]

/-- Making a directory below the staging directory, or one that leads to it, changes nothing outside. -/
theorem inside_mkdir (h : Inside place members files) (hpath : place.stage <+: path ∨ path <+: place.stage)
    (hmade : mkdir files path = .ok files') : Inside place members files' := by
  have hget := Files.get?_makeDirectories (mkdir_eq_ok.mp hmade)
  have hopen := Files.makeDirectories_isSome.mp ⟨_, mkdir_eq_ok.mp hmade⟩
  have habove : ∀ q, q <+: path → files.get? q = none → place.stage <+: q := by
    intro q hq hnone
    have hcases : q <+: place.stage ∨ place.stage <+: q := by
      rcases hpath with hbelow | habove
      · exact List.prefix_or_prefix_of_prefix hq hbelow
      · exact .inl (hq.trans habove)
    refine hcases.resolve_left fun hpre => ?_
    rw [h.standing q hpre] at hnone
    cases hnone
  refine ⟨fun p hp => ?_, keeps_mkdir hmade _ h.root, fun rel node hrel hnode => ?_, fun rel node hnode => ?_⟩
  · rw [hget, if_neg fun hnew => hp (habove p hnew.1 hnew.2), h.outside p hp]
  · rw [hget] at hnode
    split at hnode
    · rename_i hnew
      have hparent : place.stage ++ rel.dropLast <+: path :=
        ((List.prefix_append_right_inj _).mpr (List.dropLast_prefix rel)).trans hnew.1
      rcases hopen _ hparent with hnone | hdirectory
      · rw [hget, if_pos ⟨hparent, hnone⟩]
      · exact keeps_mkdir hmade _ hdirectory
    · exact keeps_mkdir hmade _ (h.grounded rel node hrel hnode)
  · rw [hget] at hnode
    split at hnode
    · exact .inl (Option.some.inj hnode).symm
    · exact h.content rel node hnode

theorem safeMemberPath_inside {name : Target} {target : Path} (h : safeMemberPath place files name = .ok target) :
    ∃ rel, target = place.stage ++ rel := by
  rw [safeMemberPath, bind_eq_ok] at h
  obtain ⟨-, -, h⟩ := h
  split at h
  · cases h
  · simp only [bind_eq_ok, require_eq_ok, pure_eq_ok] at h
    obtain ⟨-, ⟨rel, hrel⟩, rfl⟩ := h
    exact ⟨rel, hrel.symm⟩

theorem parent_inside (rel : Path) :
    place.stage <+: (place.stage ++ rel).dropLast ∨ (place.stage ++ rel).dropLast <+: place.stage := by
  by_cases hrel : rel = []
  · rw [hrel, List.append_nil]
    exact .inr (List.dropLast_prefix _)
  · rw [List.dropLast_append_of_ne_nil hrel]
    exact .inl (List.prefix_append _ _)

/-- The links that are still to be made: their directories are there. -/
def Deferred (place : Place) (members : List Member) (files : Files File) (links : List (Path × Target)) : Prop :=
  ∀ link ∈ links, (∃ rel, link.1 = place.stage ++ rel) ∧ files.get? link.1.dropLast = some .directory ∧
    ∃ m ∈ members, m.kind = .symlink link.2

theorem Deferred.keeps {links : List (Path × Target)} (h : Deferred place members files links) (hkeeps : Keeps files files') :
    Deferred place members files' links := fun link hlink =>
  ⟨(h link hlink).1, hkeeps _ (h link hlink).2.1, (h link hlink).2.2⟩

/-- What the loop over the members keeps. -/
structure Unpacking (place : Place) (members : List Member) (state : State) : Prop where
  inside : Inside place members state.files
  deferred : Deferred place members state.files state.deferredSymlinks

theorem keeps_set {node : Node File} (h : files.get? path ≠ some .directory) : Keeps files (files.set path node) := by
  intro p hp
  have hne : p ≠ path := fun he => h (he ▸ hp)
  rw [Dict.get?_set, if_neg hne, hp]

theorem unpacking_extractMember {state state' : State} {m : Member} (hm : m ∈ members)
    (h : Unpacking place members state) (hstep : extractMember place state m = .ok state') :
    Unpacking place members state' := by
  unfold extractMember at hstep
  obtain ⟨target, htarget, hstep⟩ := bind_eq_ok.mp hstep
  obtain ⟨rel, rfl⟩ := safeMemberPath_inside htarget
  cases hkind : m.kind with
  | directory =>
    simp only [hkind, bind_eq_ok, pure_eq_ok] at hstep
    obtain ⟨files, hmade, rfl⟩ := hstep
    exact ⟨inside_mkdir h.inside (.inl (List.prefix_append _ _)) hmade, h.deferred.keeps (keeps_mkdir hmade)⟩
  | symlink linkName =>
    simp only [hkind, bind_eq_ok, pure_eq_ok] at hstep
    obtain ⟨files, hmade, rfl⟩ := hstep
    refine ⟨inside_mkdir h.inside (parent_inside rel) hmade, fun link hlink => ?_⟩
    rcases List.mem_append.mp hlink with hlink | hlink
    · exact (h.deferred.keeps (keeps_mkdir hmade)) link hlink
    · obtain rfl := List.mem_singleton.mp hlink
      exact ⟨⟨rel, rfl⟩, mkdir_directory hmade, m, hm, hkind⟩
  | other =>
    simp only [hkind] at hstep
    cases hstep
  | file content =>
    simp only [hkind, bind_eq_ok, pure_eq_ok, writeFile_eq_ok] at hstep
    obtain ⟨files, hmade, _, ⟨hfree, rfl⟩, rfl⟩ := hstep
    have hinside := inside_mkdir h.inside (parent_inside rel) hmade
    have hrel : rel ≠ [] := by
      rintro rfl
      rw [List.append_nil] at hfree
      exact hfree hinside.root
    have hparent := mkdir_directory hmade
    rw [List.dropLast_append_of_ne_nil hrel] at hparent
    exact ⟨hinside.set hrel hfree hparent ⟨m, hm, .file hkind⟩,
      (h.deferred.keeps (keeps_mkdir hmade)).keeps (keeps_set hfree)⟩

theorem inside_createSymlink {link : Path × Target} {links : List (Path × Target)} (hlink : link ∈ links)
    (h : Inside place members files ∧ Deferred place members files links)
    (hmade : createSymlink place files link = .ok files') :
    Inside place members files' ∧ Deferred place members files' links := by
  unfold createSymlink at hmade
  simp only [bind_eq_ok, require_eq_ok, pure_eq_ok] at hmade
  obtain ⟨_, hsafe, _, -, _, hnone, rfl⟩ := hmade
  obtain ⟨⟨rel, hrel⟩, hparent, m, hm, hkind⟩ := h.2 link hlink
  rw [Option.isNone_iff_eq_none, hrel] at hnone
  have hne : rel ≠ [] := by
    rintro rfl
    rw [List.append_nil, h.1.root] at hnone
    cases hnone
  have hfree : files.get? (place.stage ++ rel) ≠ some .directory := by simp [hnone]
  have hrelative : link.2.absolute = false := by
    unfold safeSymlinkTarget at hsafe
    simp only [bind_eq_ok, require_eq_ok] at hsafe
    exact hsafe.choose_spec.1
  rw [hrel] at hparent ⊢
  rw [List.dropLast_append_of_ne_nil hne] at hparent
  exact ⟨h.1.set hne hfree hparent ⟨m, hm, .symlink hkind hrelative⟩, h.2.keeps (keeps_set hfree)⟩

/-- The tree that a library had, or the tree that its archive gave. -/
structure Contained (place : Place) (members : List Member) (sourceDirectory : String) : Prop where
  outside : ∀ p, ¬place.destination <+: p → ¬place.temp <+: p →
    (extractSource place members sourceDirectory).1 p = place.prior.node? p
  cleared : ∀ p, ¬place.destination <+: p → place.temp <+: p → (extractSource place members sourceDirectory).1 p = none
  raised : ∀ e, (extractSource place members sourceDirectory).2 = .error e →
    (extractSource place members sourceDirectory).1 = place.prior.node?
  root : ∀ extracted, (extractSource place members sourceDirectory).2 = .ok extracted →
    (extractSource place members sourceDirectory).1 place.destination = some .directory
  grounded : ∀ extracted, (extractSource place members sourceDirectory).2 = .ok extracted →
    ∀ rel node, rel ≠ [] → (extractSource place members sourceDirectory).1 (place.destination ++ rel) = some node →
      (extractSource place members sourceDirectory).1 (place.destination ++ rel.dropLast) = some .directory
  content : ∀ extracted, (extractSource place members sourceDirectory).2 = .ok extracted →
    ∀ rel node, (extractSource place members sourceDirectory).1 (place.destination ++ rel) = some node →
      node = .directory ∨ ∃ m ∈ members, Puts m node

theorem inside_extractStaged {sourceDirectory : String} {result : Files File × Extracted}
    (h : extractStaged place members sourceDirectory = .ok result) : Inside place members result.1 := by
  unfold extractStaged at h
  simp only [bind_eq_ok, pure_eq_ok] at h
  obtain ⟨state, hstate, files, hfiles, -, -, -, -, rfl⟩ := h
  have hunpacking : Unpacking place members state :=
    foldlM_invariant (P := Unpacking place members) (fun _ _ m hm h hstep => unpacking_extractMember hm h hstep)
      ⟨inside_staged, fun _ h => (List.not_mem_nil h).elim⟩ hstate
  exact (foldlM_invariant (P := fun files => Inside place members files ∧ Deferred place members files state.deferredSymlinks)
    (fun _ _ link hlink h hstep => inside_createSymlink hlink h hstep) ⟨hunpacking.inside, hunpacking.deferred⟩ hfiles).1

theorem prior_below_temp {p : Path} (h : place.temp <+: p) : place.prior.node? p = none := by
  cases hnode : place.prior.node? p with
  | none => rfl
  | some node =>
    by_cases hp : place.temp = p
    · rw [← hp, Place.temp, place.fresh] at hnode
      cases hnode
    · have habove := FileTree.node?_above hnode h hp
      rw [Place.temp, place.fresh] at habove
      cases habove

end Containment

end FidbPoc.Extraction
