import FidbPoc.Extraction.Staging

namespace FidbPoc.Extraction

open FidbPoc.Lib FidbPoc.Lib.Checked

namespace Kind

def linkName? : Kind → Option Target
  | .symlink linkName => some linkName
  | _ => none

def isLink (kind : Kind) : Bool := kind.linkName?.isSome

def isFile : Kind → Bool
  | .file _ => true
  | _ => false

end Kind

namespace Member

/-- The place of a member below the root of the archive. -/
def path (member : Member) : Path := Files.proper member.name.parts

def node (member : Member) : Option (Node File) :=
  match member.kind with
  | .directory => some .directory
  | .symlink linkName => some (.symlink linkName)
  | .file content => some (.file ⟨content, fileMode member.mode, member.modified⟩)
  | .other => none

end Member

/-- The tree of an archive while only some of its links are made. -/
def treeNode (members : List Member) (made : Member → Bool) (rel : Path) : Option (Node File) :=
  if rel = [] then some .directory
  else
    match members.find? fun m => m.path = rel with
    | some m => if m.kind.isLink && !made m then none else m.node
    | none => if members.any fun m => rel <+: m.path then some .directory else none

/-- The tree of an archive: its members, and the directories that they stand in. -/
def archiveNode (members : List Member) (rel : Path) : Option (Node File) := treeNode members (fun _ => true) rel

/-- An archive of directories, files and relative links with distinct safe paths, none of them below a link. -/
structure Regular (members : List Member) : Prop where
  safe : ∀ m ∈ members, m.name.absolute = false ∧ ".." ∉ m.name.parts
  placed : ∀ m ∈ members, m.kind ≠ .directory → m.path ≠ []
  distinct : (members.map Member.path).Nodup
  kinds : ∀ m ∈ members, m.kind ≠ .other
  relative : ∀ m ∈ members, ∀ linkName ∈ m.kind.linkName?, linkName.absolute = false ∧ nameText linkName ≠ ""
  linkLeaves : ∀ m ∈ members, m.kind.isLink = true → ∀ m' ∈ members, m.path <+: m'.path → m'.path = m.path

/-- No member lies below a file. -/
def FileLeaves (members : List Member) : Prop :=
  ∀ m ∈ members, m.kind.isFile = true → ∀ m' ∈ members, m.path <+: m'.path → m'.path = m.path

section Places

variable {place : Place} {files : Files File} {rel : Path}

theorem names_of_node? {t : FileTree File} {p : Path} {node : Node File} (h : t.node? p = some node) :
    ∀ part ∈ p, IsName part := by
  intro part hpart
  exact (t.named _ ((FileTree.node?_eq_some (List.ne_nil_of_mem hpart)).mp h)).2 part hpart

theorem stage_eq : place.stage = place.sources ++ [place.temporary, place.identifier] := by simp [Place.stage, Place.temp]

theorem stage_names : ∀ part ∈ place.stage, IsName part := by
  rw [stage_eq]
  refine List.forall_mem_append.mpr ⟨names_of_node? place.directory, List.forall_mem_cons.mpr ⟨place.temporary_name, ?_⟩⟩
  exact List.forall_mem_singleton.mpr place.identifier_name

theorem get?_staged (p : Path) : place.staged.get? p =
    if p = place.stage ∨ p = place.temp then some .directory else place.prior.node? p := by
  rw [Place.staged, Dict.get?_set, Dict.get?_set, Place.before, Files.get?_ofTree]
  by_cases hstage : p = place.stage
  · simp [hstage]
  · simp [hstage]

/-- The staging directory starts empty. -/
theorem get?_staged_below (hrel : rel ≠ []) : place.staged.get? (place.stage ++ rel) = none := by
  have hlength : 0 < rel.length := List.length_pos_iff.mpr hrel
  have hstage : place.stage ++ rel ≠ place.stage := fun h => hrel (List.append_right_eq_self.mp h)
  have htemp : place.stage ++ rel ≠ place.temp := by
    intro h
    have hlengths := congrArg List.length h
    rw [Place.stage, List.length_append, List.length_append, List.length_singleton] at hlengths
    omega
  rw [get?_staged, if_neg (not_or.mpr ⟨hstage, htemp⟩)]
  cases hnode : place.prior.node? (place.stage ++ rel) with
  | none => rfl
  | some node =>
    have hpre : place.temp <+: place.stage ++ rel := ⟨[place.identifier] ++ rel, by simp [Place.stage]⟩
    have habove := FileTree.node?_above hnode hpre (Ne.symm htemp)
    rw [Place.temp, place.fresh] at habove
    cases habove

theorem get?_staged_above {p : Path} (h : p <+: place.stage) : place.staged.get? p = some .directory := by
  rw [get?_staged]
  rw [Place.stage, List.prefix_concat_iff, Place.temp, List.prefix_concat_iff] at h
  obtain rfl | rfl | h := h
  · rw [if_pos (.inl rfl)]
  · rw [if_pos (.inr rfl)]
  · split
    · rfl
    · by_cases hp : p = place.sources
      · rw [hp, place.directory]
      · exact FileTree.node?_above place.directory h hp

/-- The directories down to the staging directory are there. -/
def Standing (place : Place) (files : Files File) : Prop := ∀ p, p <+: place.stage → files.get? p = some .directory

/-- No link has been made yet. -/
def Linkless (place : Place) (files : Files File) : Prop :=
  ∀ rel, (files.get? (place.stage ++ rel)).bind Node.target? = none

theorem prefix_stage_append {q : Path} (h : q <+: place.stage ++ rel) :
    q <+: place.stage ∨ ∃ r, r <+: rel ∧ q = place.stage ++ r := by
  rcases List.prefix_or_prefix_of_prefix h (List.prefix_append place.stage rel) with hq | ⟨r, rfl⟩
  · exact .inl hq
  · exact .inr ⟨r, (List.prefix_append_right_inj _).mp h, rfl⟩

theorem resolve_stage {parts : List String} (hstanding : Standing place files)
    (hnames : ∀ part ∈ Files.proper parts, IsName part)
    (hlinks : ∀ r, r <+: Files.proper parts → (files.get? (place.stage ++ r)).bind Node.target? = none) :
    files.resolve (place.stage ++ parts) = some (place.stage ++ Files.proper parts) := by
  have hproper : Files.proper (place.stage ++ parts) = place.stage ++ Files.proper parts := by
    rw [Files.proper, List.filter_append, List.filter_eq_self.mpr fun part hpart => ?_]
    · rfl
    · have hname := stage_names part hpart
      exact decide_eq_true ⟨hname.1, hname.2.1⟩
  rw [Files.resolve, Files.resolveFrom_linkFree [] _ _ _, hproper, List.nil_append]
  · rw [hproper]
    exact List.forall_mem_append.mpr ⟨stage_names, hnames⟩
  · intro q _ hq
    rw [hproper] at hq
    rw [List.nil_append, Files.link?_links]
    rcases prefix_stage_append hq with hq | ⟨r, hr, rfl⟩
    · rw [hstanding q hq]
      rfl
    · exact hlinks r hr

/-- While no link is made a safe name resolves to its own place below the staging directory. -/
theorem safeMemberPath_eq_ok {name : Target} {target : Path} (hstanding : Standing place files)
    (hlinks : Linkless place files) : safeMemberPath place files name = .ok target ↔
      (name.absolute = false ∧ ".." ∉ name.parts) ∧ target = place.stage ++ Files.proper name.parts := by
  rw [safeMemberPath, bind_eq_ok]
  simp only [require_eq_ok]
  by_cases hsafe : name.absolute = false ∧ ".." ∉ name.parts
  · have hnames : ∀ part ∈ Files.proper name.parts, IsName part := by
      intro part hpart
      obtain ⟨hmem, hproper⟩ := List.mem_filter.mp hpart
      obtain ⟨hempty, hdot⟩ := of_decide_eq_true hproper
      exact ⟨hempty, hdot, fun hback => hsafe.2 (hback ▸ hmem)⟩
    rw [resolve_stage hstanding hnames fun r _ => hlinks r]
    simp only [bind_eq_ok, require_eq_ok, List.prefix_append, true_and, exists_const, pure_eq_ok, and_iff_right hsafe]
    exact eq_comm
  · exact ⟨fun ⟨_, h, _⟩ => absurd h hsafe, fun h => absurd h.1 hsafe⟩

end Places

section Trees

variable {members done : List Member} {m : Member} {made : Member → Bool} {rel : Path}

theorem find?_path (h : (members.map Member.path).Nodup) (hm : m ∈ members) :
    members.find? (fun m' => m'.path = m.path) = some m := by
  cases hfind : members.find? fun m' => m'.path = m.path with
  | none => exact absurd (decide_eq_true rfl) (List.find?_eq_none.mp hfind m hm)
  | some m' =>
    have hpath : m'.path = m.path := by simpa using List.find?_some hfind
    rw [List.inj_on_of_nodup_map h (List.mem_of_find?_eq_some hfind) hm hpath]

@[simp] theorem treeNode_nil : treeNode members made [] = some .directory := rfl

theorem treeNode_member (h : (members.map Member.path).Nodup) (hm : m ∈ members) (hpath : m.path ≠ []) :
    treeNode members made m.path = if m.kind.isLink && !made m then none else m.node := by
  rw [treeNode, if_neg hpath, find?_path h hm]

theorem treeNode_between (hrel : rel ≠ []) (h : ∀ m ∈ members, m.path ≠ rel) : treeNode members made rel =
    if members.any (fun m => rel <+: m.path) then some .directory else none := by
  have hfind : members.find? (fun m => m.path = rel) = none :=
    List.find?_eq_none.mpr fun m hm => by simpa using h m hm
  rw [treeNode, if_neg hrel, hfind]

/-- A place of the tree is a member's or lies between the root and members. -/
theorem treeNode_cases (h : (members.map Member.path).Nodup) (rel : Path) : rel = [] ∨
    (∃ m ∈ members, m.path = rel ∧ rel ≠ [] ∧
      treeNode members made rel = if m.kind.isLink && !made m then none else m.node) ∨
    rel ≠ [] ∧ (∀ m ∈ members, m.path ≠ rel) ∧
      treeNode members made rel = if members.any (fun m => rel <+: m.path) then some .directory else none := by
  by_cases hrel : rel = []
  · exact .inl hrel
  · by_cases hmember : ∃ m ∈ members, m.path = rel
    · obtain ⟨m, hm, rfl⟩ := hmember
      exact .inr (.inl ⟨m, hm, rfl, hrel, treeNode_member h hm hrel⟩)
    · have hnone : ∀ m ∈ members, m.path ≠ rel := fun m hm hpath => hmember ⟨m, hm, hpath⟩
      exact .inr (.inr ⟨hrel, hnone, treeNode_between hrel hnone⟩)

theorem Regular.of_append (h : Regular (done ++ members)) : Regular done where
  safe m hm := h.safe m (List.mem_append_left _ hm)
  placed m hm := h.placed m (List.mem_append_left _ hm)
  distinct := (List.nodup_append.mp (List.map_append ▸ h.distinct)).1
  kinds m hm := h.kinds m (List.mem_append_left _ hm)
  relative m hm := h.relative m (List.mem_append_left _ hm)
  linkLeaves m hm hlink m' hm' := h.linkLeaves m (List.mem_append_left _ hm) hlink m' (List.mem_append_left _ hm')

/-- The path of the last member is no other member's. -/
theorem Regular.last_distinct (h : Regular (done ++ [m])) : ∀ m' ∈ done, m'.path ≠ m.path := by
  intro m' hm' hpath
  have hnodup := h.distinct
  rw [List.map_append, List.nodup_append] at hnodup
  exact hnodup.2.2 m'.path (List.mem_map_of_mem hm') m.path (by simp) hpath

theorem prefix_dropLast {r p : Path} (hne : r ≠ p) : r <+: p ↔ r <+: p.dropLast := by
  by_cases hp : p = []
  · subst hp
    rfl
  · have hconcat := List.dropLast_append_getLast hp
    constructor
    · intro h
      rw [← hconcat, List.prefix_concat_iff, hconcat] at h
      exact h.resolve_left hne
    · exact fun h => h.trans (List.dropLast_prefix p)

theorem not_prefix_dropLast {p : Path} (hp : p ≠ []) : ¬p <+: p.dropLast := by
  intro h
  have hlength := h.length_le
  have hpos := List.length_pos_iff.mpr hp
  rw [List.length_dropLast] at hlength
  omega

theorem node_of_file (h : m.kind.isFile = true) : ∃ file, m.node = some (.file file) := by
  unfold Member.node
  cases hkind : m.kind with
  | file content => exact ⟨_, rfl⟩
  | _ => simp [Kind.isFile, hkind] at h

/-- Before the links are made a place is free or a directory unless it is a file's. -/
theorem treeNode_open_iff (h : Regular members) (rel : Path) :
    (treeNode members (fun _ => false) rel = none ∨ treeNode members (fun _ => false) rel = some .directory) ↔
      ∀ m ∈ members, m.kind.isFile = true → m.path ≠ rel := by
  rcases @treeNode_cases members (fun _ => false) h.distinct rel with rfl | ⟨m, hm, rfl, hrel, hnode⟩ | ⟨hrel, hnone, hnode⟩
  · refine ⟨fun _ m hm hfile => h.placed m hm fun hdirectory => ?_, fun _ => .inr rfl⟩
    rw [hdirectory] at hfile
    cases hfile
  · rw [hnode]
    constructor
    · intro hopen m' hm' hfile hpath
      obtain rfl := List.inj_on_of_nodup_map h.distinct hm' hm hpath
      obtain ⟨file, hfileNode⟩ := node_of_file hfile
      cases hkind : m'.kind <;> simp_all [Kind.isFile, Kind.isLink, Kind.linkName?]
    · intro hall
      have hfile := hall m hm
      have hother := h.kinds m hm
      unfold Member.node
      cases hkind : m.kind with
      | directory => exact .inr rfl
      | symlink linkName => exact .inl rfl
      | file content =>
        rw [hkind] at hfile
        exact absurd rfl (hfile rfl)
      | other => exact absurd hkind hother
  · rw [hnode]
    refine ⟨fun _ m hm _ => hnone m hm, fun _ => ?_⟩
    split
    · exact .inr rfl
    · exact .inl rfl

/-- What one more member adds to the tree, its link aside. -/
theorem treeNode_concat (h : Regular (done ++ [m])) (rel : Path) : treeNode (done ++ [m]) (fun _ => false) rel =
    if rel = m.path ∧ rel ≠ [] then if m.kind.isLink then none else m.node
    else if rel <+: m.path ∧ treeNode done (fun _ => false) rel = none then some .directory
    else treeNode done (fun _ => false) rel := by
  have hdone := h.of_append
  by_cases hrel : rel = []
  · subst hrel
    simp
  · by_cases hpath : rel = m.path
    · subst hpath
      rw [if_pos ⟨rfl, hrel⟩, treeNode_member h.distinct (List.mem_append_right _ (List.mem_singleton_self m)) hrel]
      simp
    · rw [if_neg fun hboth => hpath hboth.1]
      rcases @treeNode_cases done (fun _ => false) hdone.distinct rel with hnil | ⟨m', hm', rfl, -, hnode⟩ | ⟨-, hnone, hnode⟩
      · exact absurd hnil hrel
      · rw [treeNode_member h.distinct (List.mem_append_left _ hm') hrel, hnode]
        split
        · rename_i hlink
          rw [Bool.not_false, Bool.and_true] at hlink
          have hbelow : ¬m'.path <+: m.path := fun hpre =>
            hpath (h.linkLeaves m' (List.mem_append_left _ hm') hlink m (List.mem_append_right _ (List.mem_singleton_self m))
              hpre).symm
          rw [if_neg fun hboth => hbelow hboth.1]
        · rw [if_neg]
          rintro ⟨-, hempty⟩
          have hother := h.kinds m' (List.mem_append_left _ hm')
          unfold Member.node at hempty
          cases hkind : m'.kind <;> simp_all
      · have hnone' : ∀ m' ∈ done ++ [m], m'.path ≠ rel := by
          refine List.forall_mem_append.mpr ⟨hnone, List.forall_mem_singleton.mpr (Ne.symm hpath)⟩
        rw [treeNode_between hrel hnone', hnode, List.any_append]
        by_cases hany : done.any fun m => rel <+: m.path
        · simp [hany]
        · by_cases hpre : rel <+: m.path <;> simp [hany, hpre]

end Trees

section Unpacking

variable {place : Place} {members done : List Member} {m : Member} {made : Member → Bool} {files files' : Files File}
  {state state' : State} {rel : Path}

/-- Files whose staging directory holds the tree of an archive, some of its links made. -/
structure Built (place : Place) (members : List Member) (made : Member → Bool) (files : Files File) : Prop where
  inside : ∀ rel, files.get? (place.stage ++ rel) = treeNode members made rel
  outside : ∀ p, ¬place.stage <+: p → files.get? p = place.staged.get? p

theorem built_staged : Built place [] made place.staged where
  inside rel := by
    by_cases hrel : rel = []
    · rw [hrel, List.append_nil, get?_staged_above (List.prefix_refl _), treeNode_nil]
    · rw [get?_staged_below hrel, treeNode_between hrel fun _ h => (List.not_mem_nil h).elim]
      rfl
  outside _ _ := rfl

theorem Built.standing (h : Built place members made files) : Standing place files := by
  intro p hp
  by_cases hstage : place.stage <+: p
  · have hsame : p = place.stage ++ [] := by
      rw [List.append_nil]
      exact (hp.eq_of_length_le hstage.length_le)
    rw [hsame, h.inside, treeNode_nil]
  · rw [h.outside p hstage, get?_staged_above hp]

theorem Built.linkless (h : Built place members (fun _ => false) files) (hregular : Regular members) :
    Linkless place files := by
  intro rel
  rw [h.inside]
  rcases @treeNode_cases members (fun _ => false) hregular.distinct rel with rfl | ⟨m, hm, rfl, -, hnode⟩ | ⟨-, -, hnode⟩
  · rfl
  · rw [hnode]
    unfold Member.node
    cases m.kind <;> rfl
  · rw [hnode]
    split <;> rfl

theorem mkdir_eq_ok {path : Path} : mkdir files path = .ok files' ↔ files.makeDirectories path = some files' := by
  unfold mkdir
  cases files.makeDirectories path <;> simp

/-- Directories can be made where no file is in the way. -/
theorem mkdir_isOk (h : Built place done (fun _ => false) files) (hregular : Regular done) (rel : Path) :
    (∃ files', mkdir files (place.stage ++ rel) = .ok files') ↔
      ∀ m ∈ done, m.kind.isFile = true → ¬m.path <+: rel := by
  simp only [mkdir_eq_ok, Files.makeDirectories_isSome, Files.Open]
  constructor
  · intro hopen m hm hfile hpre
    have hplace := hopen (place.stage ++ m.path) ((List.prefix_append_right_inj _).mpr hpre)
    rw [h.inside] at hplace
    exact (treeNode_open_iff hregular m.path).mp hplace m hm hfile rfl
  · intro hfiles q hq
    rcases prefix_stage_append hq with hq | ⟨r, hr, rfl⟩
    · exact .inr (h.standing q hq)
    · rw [h.inside]
      exact (treeNode_open_iff hregular r).mpr fun m hm hfile hpath => hfiles m hm hfile (hpath ▸ hr)

theorem get?_mkdir (h : Built place done (fun _ => false) files) (hmade : mkdir files (place.stage ++ rel) = .ok files') :
    (∀ r, files'.get? (place.stage ++ r) = if r <+: rel ∧ treeNode done (fun _ => false) r = none then some .directory
      else treeNode done (fun _ => false) r) ∧ ∀ p, ¬place.stage <+: p → files'.get? p = place.staged.get? p := by
  have hget := Files.get?_makeDirectories (mkdir_eq_ok.mp hmade)
  refine ⟨fun r => ?_, fun p hp => ?_⟩
  · simp only [hget, h.inside, List.prefix_append_right_inj]
  · rw [hget p, if_neg, h.outside p hp]
    rintro ⟨hpre, hnone⟩
    rcases prefix_stage_append hpre with hq | ⟨r, -, rfl⟩
    · rw [h.standing p hq] at hnone
      cases hnone
    · exact hp (List.prefix_append _ _)

/-- The member lies apart from the files before it, and they from it if it is one. -/
def Apart (done : List Member) (m : Member) : Prop :=
  (∀ m' ∈ done, m'.kind.isFile = true → ¬m'.path <+: m.path) ∧
    (m.kind.isFile = true → ∀ m' ∈ done, ¬m.path <+: m'.path)

theorem fileLeaves_concat (h : Regular (done ++ [m])) : FileLeaves (done ++ [m]) ↔ FileLeaves done ∧ Apart done m := by
  have hdistinct := h.last_distinct
  constructor
  · intro hleaves
    refine ⟨fun m' hm' hfile m'' hm'' => hleaves m' (List.mem_append_left _ hm') hfile m'' (List.mem_append_left _ hm''),
      fun m' hm' hfile hpre => ?_, fun hfile m' hm' hpre => ?_⟩
    · exact hdistinct m' hm' (hleaves m' (List.mem_append_left _ hm') hfile m
        (List.mem_append_right _ (List.mem_singleton_self m)) hpre).symm
    · exact hdistinct m' hm' (hleaves m (List.mem_append_right _ (List.mem_singleton_self m)) hfile m'
        (List.mem_append_left _ hm') hpre)
  · rintro ⟨hleaves, hbefore, hself⟩ m' hm' hfile m'' hm'' hpre
    rw [List.mem_append, List.mem_singleton] at hm' hm''
    rcases hm' with hdone | rfl
    · rcases hm'' with hdone' | rfl
      · exact hleaves m' hdone hfile m'' hdone' hpre
      · exact absurd hpre (hbefore m' hdone hfile)
    · rcases hm'' with hdone' | rfl
      · exact absurd hpre (hself hfile m'' hdone')
      · rfl

/-- What a member adds to the deferred links and times. -/
def deferredSymlinks (place : Place) (members : List Member) : List (Path × Target) :=
  members.filterMap fun m => m.kind.linkName?.map fun linkName => (place.stage ++ m.path, linkName)

def deferredTimes (place : Place) (members : List Member) : List (Path × Rat) :=
  (members.filter fun m => m.kind = .directory).map fun m => (place.stage ++ m.path, m.modified)

/-- A state after the members of a list: their tree stands but for the links, which are deferred. -/
structure Unpacked (place : Place) (done : List Member) (state : State) : Prop where
  built : Built place done (fun _ => false) state.files
  symlinks : state.deferredSymlinks = deferredSymlinks place done
  times : state.deferredDirectoryTimes = deferredTimes place done

/-- A file can be written where no directory stands. -/
theorem writeFile_eq_ok {path : Path} {file : File} : writeFile files path file = .ok files' ↔
    files.get? path ≠ some .directory ∧ files' = files.set path (.file file) := by
  unfold writeFile
  split
  · rename_i hdirectory
    simp [hdirectory]
  · rename_i hother
    rw [pure_eq_ok]
    exact ⟨fun h => ⟨fun hdirectory => hother hdirectory, h.symm⟩, fun h => h.2.symm⟩

theorem mkdir_parent_isOk (h : Built place done (fun _ => false) files) (hregular : Regular (done ++ [m])) :
    (∃ files', mkdir files (place.stage ++ m.path.dropLast) = .ok files') ↔
      ∀ m' ∈ done, m'.kind.isFile = true → ¬m'.path <+: m.path := by
  rw [mkdir_isOk h hregular.of_append]
  refine forall₂_congr fun m' hm' => ?_
  rw [prefix_dropLast (hregular.last_distinct m' hm')]

section Kinds

variable (hregular : Regular (done ++ [m]))

include hregular

theorem treeNode_last : treeNode done made m.path = none ∨ treeNode done made m.path = some .directory := by
  by_cases hpath : m.path = []
  · rw [hpath]
    exact .inr rfl
  · rw [treeNode_between hpath hregular.last_distinct]
    split
    · exact .inr rfl
    · exact .inl rfl

theorem treeNode_directory (hkind : m.kind = .directory) (rel : Path) : treeNode (done ++ [m]) (fun _ => false) rel =
    if rel <+: m.path ∧ treeNode done (fun _ => false) rel = none then some .directory
    else treeNode done (fun _ => false) rel := by
  have hnode : (if m.kind.isLink then none else m.node) = some .directory := by
    rw [Member.node, hkind]
    rfl
  rw [treeNode_concat hregular, hnode]
  by_cases hlast : rel = m.path ∧ rel ≠ []
  · rw [if_pos hlast, hlast.1]
    rcases @treeNode_last done m (fun _ => false) hregular with hnone | hdirectory
    · rw [if_pos ⟨List.prefix_refl _, hnone⟩]
    · rw [hdirectory, if_neg fun h => nomatch h.2]
  · rw [if_neg hlast]

theorem placed_last (hkind : m.kind ≠ .directory) : m.path ≠ [] :=
  hregular.placed m (List.mem_append_right _ (List.mem_singleton_self m)) hkind

theorem treeNode_symlink (hkind : m.kind.isLink = true) (rel : Path) : treeNode (done ++ [m]) (fun _ => false) rel =
    if rel <+: m.path.dropLast ∧ treeNode done (fun _ => false) rel = none then some .directory
    else treeNode done (fun _ => false) rel := by
  have hpath : m.path ≠ [] := placed_last hregular fun h => by
    rw [h] at hkind
    cases hkind
  rw [treeNode_concat hregular]
  by_cases hlast : rel = m.path ∧ rel ≠ []
  · rw [if_pos hlast, if_pos hkind, hlast.1, if_neg fun h => not_prefix_dropLast hpath h.1,
      treeNode_between hpath hregular.last_distinct, if_neg]
    intro hany
    obtain ⟨m', hm', hpre⟩ := List.any_eq_true.mp hany
    exact hregular.last_distinct m' hm' (hregular.linkLeaves m (List.mem_append_right _ (List.mem_singleton_self m)) hkind m'
      (List.mem_append_left _ hm') (of_decide_eq_true hpre))
  · rw [if_neg hlast]
    by_cases hrel : rel = []
    · subst hrel
      simp
    · have hne : rel ≠ m.path := fun h => hlast ⟨h, hrel⟩
      simp only [prefix_dropLast hne]

theorem treeNode_file (hkind : m.kind.isFile = true) (rel : Path) : treeNode (done ++ [m]) (fun _ => false) rel =
    if rel = m.path then m.node
    else if rel <+: m.path.dropLast ∧ treeNode done (fun _ => false) rel = none then some .directory
    else treeNode done (fun _ => false) rel := by
  have hpath : m.path ≠ [] := placed_last hregular fun h => by
    rw [h] at hkind
    cases hkind
  have hlink : m.kind.isLink = false := by
    cases hkind' : m.kind <;> simp_all [Kind.isFile, Kind.isLink, Kind.linkName?]
  rw [treeNode_concat hregular]
  by_cases hlast : rel = m.path
  · subst hlast
    rw [if_pos ⟨rfl, hpath⟩, hlink, if_pos rfl]
    rfl
  · rw [if_neg fun h => hlast h.1, if_neg hlast]
    simp only [prefix_dropLast hlast]

/-- No directory stands in the place of a file that nothing lies below. -/
theorem treeNode_last_ne_directory (hpath : m.path ≠ []) :
    treeNode done made m.path ≠ some .directory ↔ ∀ m' ∈ done, ¬m.path <+: m'.path := by
  rw [treeNode_between hpath hregular.last_distinct]
  split
  · rename_i hany
    obtain ⟨m', hm', hpre⟩ := List.any_eq_true.mp hany
    exact ⟨fun h => absurd rfl h, fun h => absurd (of_decide_eq_true hpre) (h m' hm')⟩
  · rename_i hany
    refine ⟨fun _ m' hm' hpre => hany (List.any_eq_true.mpr ⟨m', hm', decide_eq_true hpre⟩), fun _ h => nomatch h⟩

end Kinds

/-- A member is extracted when it lies apart from those before it, and then the tree has it. -/
theorem extractMember_unpacked (hregular : Regular (done ++ [m])) (h : Unpacked place done state) :
    ((∃ state', extractMember place state m = .ok state') ↔ Apart done m) ∧
      ∀ state', extractMember place state m = .ok state' → Unpacked place (done ++ [m]) state' := by
  have hlast : m ∈ done ++ [m] := List.mem_append_right _ (List.mem_singleton_self m)
  have hpath : safeMemberPath place state.files m.name = .ok (place.stage ++ m.path) :=
    (safeMemberPath_eq_ok h.built.standing (h.built.linkless hregular.of_append)).mpr ⟨hregular.safe m hlast, rfl⟩
  have hparent (hne : m.path ≠ []) : (place.stage ++ m.path).dropLast = place.stage ++ m.path.dropLast :=
    List.dropLast_append_of_ne_nil hne
  unfold extractMember
  rw [hpath, ok_bind]
  cases hkind : m.kind with
  | other => exact absurd hkind (hregular.kinds m hlast)
  | directory =>
    have hfile : m.kind.isFile = false := by rw [hkind]; rfl
    simp only [bind_eq_ok, pure_eq_ok]
    refine ⟨?_, ?_⟩
    · simp only [Apart, hfile, Bool.false_eq_true, false_implies, and_true]
      rw [← mkdir_isOk h.built hregular.of_append]
      exact ⟨fun ⟨_, files, hfiles, _⟩ => ⟨files, hfiles⟩, fun ⟨files, hfiles⟩ => ⟨_, files, hfiles, rfl⟩⟩
    · rintro state' ⟨files, hfiles, rfl⟩
      obtain ⟨hinside, houtside⟩ := get?_mkdir h.built hfiles
      refine ⟨⟨fun r => ?_, houtside⟩, ?_, ?_⟩
      · rw [hinside, treeNode_directory hregular hkind]
      · simp [h.symlinks, deferredSymlinks, hkind, Kind.linkName?]
      · simp [h.times, deferredTimes, hkind]
  | symlink linkName =>
    have hfile : m.kind.isFile = false := by rw [hkind]; rfl
    have hlink : m.kind.isLink = true := by rw [hkind]; rfl
    have hne : m.path ≠ [] := placed_last hregular (by rw [hkind]; nofun)
    simp only [bind_eq_ok, pure_eq_ok, hparent hne]
    refine ⟨?_, ?_⟩
    · simp only [Apart, hfile, Bool.false_eq_true, false_implies, and_true]
      rw [← mkdir_parent_isOk h.built hregular]
      exact ⟨fun ⟨_, files, hfiles, _⟩ => ⟨files, hfiles⟩, fun ⟨files, hfiles⟩ => ⟨_, files, hfiles, rfl⟩⟩
    · rintro state' ⟨files, hfiles, rfl⟩
      obtain ⟨hinside, houtside⟩ := get?_mkdir h.built hfiles
      refine ⟨⟨fun r => ?_, houtside⟩, ?_, ?_⟩
      · rw [hinside, treeNode_symlink hregular hlink]
      · simp [h.symlinks, deferredSymlinks, hkind, Kind.linkName?]
      · simp [h.times, deferredTimes, hkind]
  | file content =>
    have hfile : m.kind.isFile = true := by rw [hkind]; rfl
    have hne : m.path ≠ [] := placed_last hregular (by rw [hkind]; nofun)
    have hnode : m.node = some (.file ⟨content, fileMode m.mode, m.modified⟩) := by rw [Member.node, hkind]
    simp only [bind_eq_ok, pure_eq_ok, hparent hne, writeFile_eq_ok]
    refine ⟨?_, ?_⟩
    · have hfree (files : Files File) (hfiles : mkdir state.files (place.stage ++ m.path.dropLast) = .ok files) :
          files.get? (place.stage ++ m.path) ≠ some .directory ↔ ∀ m' ∈ done, ¬m.path <+: m'.path := by
        rw [(get?_mkdir h.built hfiles).1, if_neg fun h => not_prefix_dropLast hne h.1, treeNode_last_ne_directory hregular hne]
      simp only [Apart, hfile, forall_const]
      rw [← mkdir_parent_isOk h.built hregular]
      constructor
      · rintro ⟨_, files, hfiles, _, ⟨hdirectory, -⟩, -⟩
        exact ⟨⟨files, hfiles⟩, (hfree files hfiles).mp hdirectory⟩
      · rintro ⟨⟨files, hfiles⟩, hbelow⟩
        exact ⟨_, files, hfiles, _, ⟨(hfree files hfiles).mpr hbelow, rfl⟩, rfl⟩
    · rintro state' ⟨files, hfiles, _, ⟨hdirectory, rfl⟩, rfl⟩
      obtain ⟨hinside, houtside⟩ := get?_mkdir h.built hfiles
      refine ⟨⟨fun r => ?_, fun p hp => ?_⟩, ?_, ?_⟩
      · rw [treeNode_file hregular hfile, Dict.get?_set, hinside, hnode]
        simp only [List.append_cancel_left_eq]
      · rw [Dict.get?_set, if_neg, houtside p hp]
        rintro rfl
        exact hp (List.prefix_append _ _)
      · simp [h.symlinks, deferredSymlinks, hkind, Kind.linkName?]
      · simp [h.times, deferredTimes, hkind]

/-- All members are extracted when none lies below a file. -/
theorem extractMembers_unpacked (hregular : Regular (done ++ members)) (h : Unpacked place done state)
    (hdone : FileLeaves done) :
    ((∃ state', members.foldlM (extractMember place) state = .ok state') ↔ FileLeaves (done ++ members)) ∧
      ∀ state', members.foldlM (extractMember place) state = .ok state' → Unpacked place (done ++ members) state' := by
  induction members generalizing done state with
  | nil =>
    rw [List.append_nil]
    exact ⟨⟨fun _ => hdone, fun _ => ⟨state, rfl⟩⟩, fun state' hstate => Except.ok.inj hstate ▸ h⟩
  | cons m members ih =>
    have hsplit : done ++ m :: members = done ++ [m] ++ members := by simp
    rw [hsplit] at hregular ⊢
    obtain ⟨hisOk, hunpacked⟩ := @extractMember_unpacked place done m state hregular.of_append h
    simp only [List.foldlM_cons, bind_eq_ok]
    constructor
    · constructor
      · rintro ⟨state', next, hnext, hrest⟩
        have hleaves := (fileLeaves_concat hregular.of_append).mpr ⟨hdone, hisOk.mp ⟨next, hnext⟩⟩
        exact (ih hregular (hunpacked next hnext) hleaves).1.mp ⟨state', hrest⟩
      · intro hleaves
        have hpre : FileLeaves (done ++ [m]) := fun m' hm' hfile m'' hm'' =>
          hleaves m' (List.mem_append_left _ hm') hfile m'' (List.mem_append_left _ hm'')
        obtain ⟨next, hnext⟩ := hisOk.mpr ((fileLeaves_concat hregular.of_append).mp hpre).2
        obtain ⟨state', hrest⟩ := (ih hregular (hunpacked next hnext) hpre).1.mpr hleaves
        exact ⟨state', next, hnext, hrest⟩
    · rintro state' ⟨next, hnext, hrest⟩
      have hleaves := (fileLeaves_concat hregular.of_append).mpr ⟨hdone, hisOk.mp ⟨next, hnext⟩⟩
      exact (ih hregular (hunpacked next hnext) hleaves).2 state' hrest

end Unpacking

section Linking

variable {place : Place} {members earlier later : List Member} {m : Member} {made : Member → Bool} {files files' : Files File}
  {linkName : Target} {sourceDirectory : String}

def linksOf (members : List Member) : List Member := members.filter fun m => m.kind.isLink

/-- The target of a link is found inside the staging directory. -/
def Found (place : Place) (files : Files File) (m : Member) (linkName : Target) : Prop :=
  ∃ resolved, files.resolve ((place.stage ++ m.path).dropLast ++ linkName.parts) = some resolved ∧
    place.stage <+: resolved ∧ (files.get? resolved).isSome = true

/-- Each link finds its target in the tree of the directories, the files and the links before it. -/
def LinksInOrder (place : Place) (members : List Member) : Prop :=
  ∀ earlier m later, linksOf members = earlier ++ m :: later → ∀ linkName ∈ m.kind.linkName?, ∀ files,
    Built place members (fun m' => m' ∈ earlier) files → Found place files m linkName

theorem Built.get?_congr (h : Built place members made files) (h' : Built place members made files') (p : Path) :
    files'.get? p = files.get? p := by
  by_cases hp : place.stage <+: p
  · obtain ⟨rel, rfl⟩ := hp
    rw [h.inside, h'.inside]
  · rw [h.outside p hp, h'.outside p hp]

theorem Found.congr (h : ∀ p, files'.get? p = files.get? p) (hfound : Found place files m linkName) :
    Found place files' m linkName := by
  obtain ⟨resolved, hresolve, hinside, hthere⟩ := hfound
  exact ⟨resolved, by rw [Files.resolve_congr h, hresolve], hinside, by rw [h, hthere]⟩

theorem safeSymlinkTarget_isOk (hrelative : linkName.absolute = false) :
    (∃ resolved, safeSymlinkTarget place files (place.stage ++ m.path) linkName = .ok resolved) ↔
      Found place files m linkName := by
  simp only [safeSymlinkTarget, bind_eq_ok, require_eq_ok, hrelative, true_and, exists_const]
  unfold Found
  cases files.resolve ((place.stage ++ m.path).dropLast ++ linkName.parts) with
  | none => simp
  | some target =>
    simp only [bind_eq_ok, require_eq_ok, pure_eq_ok, exists_const, Option.some.injEq, exists_eq_left']
    constructor
    · rintro ⟨_, hinside, hthere, -⟩
      exact ⟨hinside, hthere⟩
    · rintro ⟨hinside, hthere⟩
      exact ⟨_, hinside, hthere, rfl⟩

/-- A link is made when its target is found, and then the tree has it. -/
theorem createSymlink_built (hregular : Regular members) (hm : m ∈ members) (hlink : m.kind.linkName? = some linkName)
    (hnew : m ∉ earlier) (h : Built place members (fun m' => m' ∈ earlier) files) :
    ((∃ files', createSymlink place files (place.stage ++ m.path, linkName) = .ok files') ↔
        Found place files m linkName) ∧
      ∀ files', createSymlink place files (place.stage ++ m.path, linkName) = .ok files' →
        Built place members (fun m' => m' ∈ earlier ++ [m]) files' := by
  obtain ⟨hrelative, htext⟩ := hregular.relative m hm linkName hlink
  have hkind : m.kind = .symlink linkName := by
    cases hkind : m.kind <;> simp_all [Kind.linkName?]
  have hpath : m.path ≠ [] := hregular.placed m hm (by rw [hkind]; nofun)
  have hfree : (files.get? (place.stage ++ m.path)).isNone = true := by
    rw [h.inside, treeNode_member hregular.distinct hm hpath]
    simp [hkind, Kind.isLink, Kind.linkName?, hnew]
  simp only [createSymlink, bind_eq_ok, require_eq_ok, pure_eq_ok]
  refine ⟨?_, ?_⟩
  · rw [← safeSymlinkTarget_isOk hrelative]
    constructor
    · rintro ⟨_, resolved, hresolved, -⟩
      exact ⟨resolved, hresolved⟩
    · rintro ⟨resolved, hresolved⟩
      exact ⟨_, resolved, hresolved, (), htext, (), hfree, rfl⟩
  · rintro files' ⟨-, -, -, -, -, -, rfl⟩
    refine ⟨fun rel => ?_, fun p hp => ?_⟩
    · rw [Dict.get?_set, h.inside]
      simp only [List.append_cancel_left_eq]
      by_cases hrel : rel = m.path
      · subst hrel
        rw [if_pos rfl, treeNode_member hregular.distinct hm hpath]
        simp [hkind, Member.node]
      · rw [if_neg hrel]
        rcases @treeNode_cases members (fun m' => m' ∈ earlier) hregular.distinct rel with
          rfl | ⟨m', hm', rfl, hne, hnode⟩ | ⟨hne, hnone, hnode⟩
        · rfl
        · have hother : m' ≠ m := fun hsame => hrel (hsame ▸ rfl)
          rw [hnode, treeNode_member hregular.distinct hm' hne]
          simp [hother]
        · rw [hnode, treeNode_between hne hnone]
    · rw [Dict.get?_set, if_neg, h.outside p hp]
      rintro rfl
      exact hp (List.prefix_append _ _)

theorem deferredSymlinks_linksOf (place : Place) (members : List Member) :
    deferredSymlinks place (linksOf members) = deferredSymlinks place members := by
  unfold deferredSymlinks linksOf
  rw [List.filterMap_filter]
  refine List.filterMap_congr fun m _ => ?_
  cases hkind : m.kind <;> simp [Kind.isLink, Kind.linkName?]

/-- All links are made when each finds its target when its turn comes. -/
theorem createSymlinks_built (hregular : Regular members) (hlinks : linksOf members = earlier ++ later)
    (h : Built place members (fun m => m ∈ earlier) files) :
    ((∃ files', (deferredSymlinks place later).foldlM (createSymlink place) files = .ok files') ↔
      ∀ before m after, later = before ++ m :: after → ∀ linkName ∈ m.kind.linkName?, ∀ files,
        Built place members (fun m' => m' ∈ earlier ++ before) files → Found place files m linkName) ∧
      ∀ files', (deferredSymlinks place later).foldlM (createSymlink place) files = .ok files' →
        Built place members (fun m => m ∈ earlier ++ later) files' := by
  induction later generalizing earlier files with
  | nil =>
    refine ⟨⟨fun _ before m after hsplit => ?_, fun _ => ⟨files, rfl⟩⟩, fun files' hfiles => ?_⟩
    · exact absurd hsplit (by simp)
    · obtain rfl := Except.ok.inj hfiles
      rwa [List.append_nil]
  | cons m later ih =>
    have hmem : m ∈ linksOf members := hlinks ▸ List.mem_append_right _ List.mem_cons_self
    obtain ⟨hm, hisLink⟩ := List.mem_filter.mp hmem
    obtain ⟨linkName, hlink⟩ := Option.isSome_iff_exists.mp hisLink
    have hnew : m ∉ earlier := by
      have hnodup : (earlier ++ m :: later).Nodup := hlinks ▸ (hregular.distinct.of_map).filter _
      exact fun hmem => (List.nodup_append.mp hnodup).2.2 m hmem m List.mem_cons_self rfl
    obtain ⟨hisOk, hbuilt⟩ := createSymlink_built hregular hm hlink hnew h
    have hcons : deferredSymlinks place (m :: later) = (place.stage ++ m.path, linkName) :: deferredSymlinks place later := by
      simp [deferredSymlinks, hlink]
    have hlinks' : linksOf members = earlier ++ [m] ++ later := by rw [hlinks, List.append_assoc, List.singleton_append]
    have happend (xs : List Member) : earlier ++ m :: xs = earlier ++ [m] ++ xs := by simp
    rw [hcons]
    simp only [List.foldlM_cons, bind_eq_ok]
    refine ⟨⟨?_, ?_⟩, ?_⟩
    · rintro ⟨files', next, hnext, hrest⟩ before m' after hsplit linkName' hlink' files'' hbuilt''
      cases before with
      | nil =>
        obtain ⟨rfl, rfl⟩ := List.cons.inj hsplit
        obtain rfl := Option.some.inj (hlink.symm.trans hlink')
        rw [List.append_nil] at hbuilt''
        exact (hisOk.mp ⟨next, hnext⟩).congr (h.get?_congr hbuilt'')
      | cons _ before =>
        obtain ⟨rfl, rfl⟩ := List.cons.inj hsplit
        rw [happend] at hbuilt''
        exact (ih hlinks' (hbuilt next hnext)).1.mp ⟨files', hrest⟩ before m' after rfl linkName' hlink' files'' hbuilt''
    · intro hfound
      obtain ⟨next, hnext⟩ := hisOk.mpr (hfound [] m later rfl linkName hlink files (by rwa [List.append_nil]))
      obtain ⟨files', hrest⟩ := (ih hlinks' (hbuilt next hnext)).1.mpr fun before m' after hsplit linkName' hlink' files'' hb =>
        hfound (m :: before) m' after (by rw [hsplit, List.cons_append]) linkName' hlink' files'' (by rwa [happend])
      exact ⟨files', next, hnext, hrest⟩
    · rintro files' ⟨next, hnext, hrest⟩
      rw [happend]
      exact (ih hlinks' (hbuilt next hnext)).2 files' hrest

/-- Where all links are made the staging directory holds the tree of the archive. -/
theorem treeNode_made (hregular : Regular members) (rel : Path) :
    treeNode members (fun m => m ∈ linksOf members) rel = archiveNode members rel := by
  rcases @treeNode_cases members (fun m => m ∈ linksOf members) hregular.distinct rel with
    rfl | ⟨m, hm, rfl, hne, hnode⟩ | ⟨hne, hnone, hnode⟩
  · rfl
  · rw [hnode, archiveNode, treeNode_member hregular.distinct hm hne]
    cases hlink : m.kind.isLink <;> simp [linksOf, hm, hlink]
  · rw [hnode, archiveNode, treeNode_between hne hnone]

/-- Each directory has the time of its own member. -/
theorem get?_directoryTimes (hregular : Regular members) (hm : m ∈ members) (hkind : m.kind = .directory) :
    (directoryTimes place (deferredTimes place members)).get? m.path = some m.modified := by
  let pairs := (deferredTimes place members).reverse.map fun time => (time.1.drop place.stage.length, time.2)
  have hlist : directoryTimes place (deferredTimes place members) = Dict.ofList pairs := by
    rw [directoryTimes, Dict.ofList, List.foldl_map]
  have hpairs : pairs = ((members.filter fun m => m.kind = .directory).map fun m => (m.path, m.modified)).reverse := by
    simp [pairs, deferredTimes, ← List.map_reverse, Function.comp_def]
  have hnodup : (pairs.map Prod.fst).Nodup := by
    rw [hpairs, List.map_reverse, List.nodup_reverse, List.map_map]
    exact hregular.distinct.sublist ((List.filter_sublist).map _)
  rw [hlist, Dict.get?_eq_some_iff, Dict.entries_ofList hnodup, hpairs, List.mem_reverse]
  have hmem : m ∈ members.filter fun m => m.kind = .directory := List.mem_filter.mpr ⟨hm, decide_eq_true hkind⟩
  exact List.mem_map.mpr ⟨m, hmem, rfl⟩

end Linking

section Extraction

variable {place : Place} {members : List Member} {sourceDirectory : String} {files : Files File}

/-- The call succeeds, and the entry of the library is the tree of the archive. -/
structure Exact (place : Place) (members : List Member) (sourceDirectory : String) : Prop where
  extracted : ∃ extracted, (extractSource place members sourceDirectory).2 = .ok extracted ∧
    ∀ m ∈ members, m.kind = .directory → extracted.directoryTimes.get? m.path = some m.modified
  tree : ∀ rel, (extractSource place members sourceDirectory).1 (place.destination ++ rel) = archiveNode members rel

/-- The order of the members lets every link find its target. -/
structure Extractable (place : Place) (members : List Member) : Prop where
  fileLeaves : FileLeaves members
  linksInOrder : LinksInOrder place members
  replaceable : place.before.get? place.destination ≠ some .special

theorem source_isDirectory {made : Member → Bool} (h : Built place members made files) (hname : IsName sourceDirectory)
    (hsource : treeNode members made [sourceDirectory] = some .directory) :
    ((files.resolve (place.stage ++ [sourceDirectory])).bind files.get?).any Node.isDirectory = true := by
  have hproper : Files.proper [sourceDirectory] = [sourceDirectory] :=
    List.filter_eq_self.mpr (List.forall_mem_singleton.mpr (decide_eq_true ⟨hname.1, hname.2.1⟩))
  have hresolve : files.resolve (place.stage ++ [sourceDirectory]) = some (place.stage ++ Files.proper [sourceDirectory]) := by
    refine resolve_stage h.standing ?_ fun r hr => ?_
    · rw [hproper]
      exact List.forall_mem_singleton.mpr hname
    rw [hproper, ← List.nil_append [sourceDirectory], List.prefix_concat_iff, List.prefix_nil] at hr
    obtain rfl | rfl := hr
    · rw [List.nil_append, h.inside, hsource]
      rfl
    · rw [h.inside]
      rfl
  rw [hresolve, hproper, Option.bind_some, h.inside, hsource]
  rfl

theorem replaced_destination (rel : Path) : replaced place files (place.destination ++ rel) = files.get? (place.stage ++ rel) := by
  rw [replaced, if_pos (List.prefix_append _ _), List.drop_left]

/-- An archive is extracted as it is just where no member lies below a file and the links come in an order in which each
resolves when it is made. -/
theorem extractSource_exact_iff (hregular : Regular members) (hname : IsName sourceDirectory)
    (hsource : archiveNode members [sourceDirectory] = some .directory) :
    Exact place members sourceDirectory ↔ Extractable place members := by
  obtain ⟨hunpacks, hunpacked⟩ := @extractMembers_unpacked place members [] ⟨place.staged, [], [], 0, 0⟩ hregular
    ⟨built_staged, rfl, rfl⟩ fun _ h => (List.not_mem_nil h).elim
  simp only [List.nil_append] at hunpacks hunpacked
  have hlink (state : State) (hstate : members.foldlM (extractMember place) ⟨place.staged, [], [], 0, 0⟩ = .ok state) :
      ((∃ files, state.deferredSymlinks.foldlM (createSymlink place) state.files = .ok files) ↔ LinksInOrder place members) ∧
        ∀ files, state.deferredSymlinks.foldlM (createSymlink place) state.files = .ok files →
          Built place members (fun m => m ∈ linksOf members) files := by
    have hbuilt : Built place members (fun m => m ∈ ([] : List Member)) state.files := by
      simpa using (hunpacked state hstate).built
    rw [(hunpacked state hstate).symlinks, ← deferredSymlinks_linksOf]
    exact @createSymlinks_built place members [] (linksOf members) state.files hregular rfl hbuilt
  constructor
  · rintro ⟨⟨extracted, hextracted, -⟩, -⟩
    unfold extractSource at hextracted
    cases hstaged : extractStaged place members sourceDirectory with
    | error e =>
      rw [hstaged] at hextracted
      cases hextracted
    | ok result =>
      simp only [extractStaged, bind_eq_ok, require_eq_ok] at hstaged
      obtain ⟨state, hstate, files, hfiles, -, -, -, hspecial, -⟩ := hstaged
      exact ⟨hunpacks.mp ⟨state, hstate⟩, (hlink state hstate).1.mp ⟨files, hfiles⟩, hspecial⟩
  · rintro ⟨hleaves, horder, hspecial⟩
    obtain ⟨state, hstate⟩ := hunpacks.mpr hleaves
    obtain ⟨files, hfiles⟩ := (hlink state hstate).1.mpr horder
    have hbuilt := (hlink state hstate).2 files hfiles
    have hdirectory := source_isDirectory hbuilt hname ((treeNode_made hregular _).trans hsource)
    have hstaged : ∃ extracted, extractStaged place members sourceDirectory = .ok (files, extracted) ∧
        extracted.directoryTimes = directoryTimes place state.deferredDirectoryTimes := by
      simp only [extractStaged, hstate, ok_bind, hfiles, bind_eq_ok, require_eq_ok, pure_eq_ok]
      exact ⟨_, ⟨(), hdirectory, (), hspecial, rfl⟩, rfl⟩
    obtain ⟨extracted, hstaged, htimes⟩ := hstaged
    have hextract : extractSource place members sourceDirectory = (replaced place files, .ok extracted) := by
      rw [extractSource, hstaged]
    refine ⟨⟨extracted, by rw [hextract], fun m hm hkind => ?_⟩, fun rel => ?_⟩
    · rw [htimes, (hunpacked state hstate).times, get?_directoryTimes hregular hm hkind]
    · rw [hextract]
      change replaced place files (place.destination ++ rel) = _
      rw [replaced_destination, hbuilt.inside, treeNode_made hregular]

end Extraction

namespace TwoLinks

theorem sources_nodup : ([(["sources"], (Node.directory : Node File))].map Prod.fst).Nodup := List.nodup_singleton _

theorem sources_named : ∀ e ∈ [(["sources"], (Node.directory : Node File))], e.1 ≠ [] ∧ ∀ part ∈ e.1, IsName part := by
  decide

theorem sources_grounded : ∀ e ∈ [(["sources"], (Node.directory : Node File))],
    lookup [(["sources"], (Node.directory : Node File))] e.1.dropLast = some .directory := by
  decide

def prior : FileTree File := ⟨[(["sources"], .directory)], sources_nodup, sources_named, sources_grounded⟩

theorem identifier_name : IsName "zlib@1" := by decide

theorem temporary_name : IsName ".zlib@1-x" := by decide

def place : Place := ⟨prior, ["sources"], "zlib@1", ".zlib@1-x", rfl, rfl, identifier_name, temporary_name⟩

def member (name : String) (kind : Kind) : Member := ⟨⟨false, ["src", name]⟩, kind, 0o644, 0⟩

def file : Member := member "file" (.file "text")

def first : Member := member "first" (.symlink ⟨false, ["second"]⟩)

def second : Member := member "second" (.symlink ⟨false, ["file"]⟩)

theorem regular_second_first : Regular [file, second, first] where
  safe := by decide
  placed := by decide
  distinct := by decide
  kinds := by decide
  relative := by simp [file, first, second, member, Kind.linkName?, nameText]
  linkLeaves := by decide

/-- A link to a later link is refused; in the other order both are made. -/
theorem first_second_refused : [file, first, second].Perm [file, second, first] ∧ Regular [file, second, first] ∧
    (∃ extracted, (extractSource place [file, second, first] "src").2 = .ok extracted) ∧
    ¬ Exact place [file, first, second] "src" := by
  refine ⟨(List.Perm.swap ..).cons file, regular_second_first, ⟨_, rfl⟩, fun h => ?_⟩
  obtain ⟨extracted, hextracted, -⟩ := h.extracted
  have hrefused : (extractSource place [file, first, second] "src").2 =
    .error (.pipeline "archive symlink target does not exist: second") := rfl
  rw [hrefused] at hextracted
  cases hextracted

theorem second_first_exact : Exact place [file, second, first] "src" ↔ Extractable place [file, second, first] :=
  extractSource_exact_iff regular_second_first (by decide) (by decide)

end TwoLinks

end FidbPoc.Extraction
