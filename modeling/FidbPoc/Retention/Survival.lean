import FidbPoc.Retention.Apply
import FidbPoc.Retention.Disposal
import Mathlib.Algebra.Order.BigOperators.Group.List
import Mathlib.Data.List.Pairwise
import Mathlib.Logic.Relation

namespace FidbPoc.Retention

open FidbPoc.Lib FidbPoc.Lib.Checked FidbPoc.Lib.Crash Collected

section Invariant

/-- One of two paths leads to the other. -/
def Related (p q : Path) : Prop := p <+: q ∨ q <+: p

instance decidableRelated (p q : Path) : Decidable (Related p q) := inferInstanceAs (Decidable (_ ∨ _))

theorem Related.symm {p q : Path} (h : Related p q) : Related q p := Or.symm h

theorem related_of_below {p q r : Path} (hp : p <+: r) (hq : q <+: r) : Related p q := List.prefix_or_prefix_of_prefix hp hq

/-- What is related to a path is related to those above it. -/
theorem Related.above {p q r : Path} (h : Related q r) (hp : p <+: q) : Related p r :=
  h.elim (fun hq => .inl (hp.trans hq)) (fun hr => related_of_below hp hr)

def destination (root : Path) (bundle : Bundle) : Path := root ++ bundle.bundlePath

/-- The directory that a bundle is put in. -/
def home (root : Path) (bundle : Bundle) : Path := (destination root bundle).dropLast

def Action.removes (root : Path) (action : Action) (q : Path) : Prop := ∃ path ∈ action.paths, root ++ path <+: q

/-- Where an action changes something. -/
def Action.places (root : Path) (action : Action) : List Path :=
  action.paths.map (root ++ ·) ++ action.bundle?.toList.map (home root)

def Action.ApartFrom (root : Path) (a b : Action) : Prop := ∀ p ∈ a.places root, ∀ q ∈ b.places root, ¬Related p q

instance decidableApartFrom (root : Path) : DecidableRel (Action.ApartFrom root) := fun a b =>
  inferInstanceAs (Decidable (∀ p ∈ a.places root, ∀ q ∈ b.places root, ¬Related p q))

instance symmApartFrom (root : Path) : Std.Symm (Action.ApartFrom root) :=
  ⟨fun _ _ h q hq p hp hrelated => h p hp q hq hrelated.symm⟩

/-- No action of a plan works inside the places of another, and no bundle is put inside its sources. -/
structure Apart (root : Path) (plan : Plan) : Prop where
  actions : plan.actions.Pairwise (Action.ApartFrom root)
  sources : ∀ bundle ∈ plan.basis.collected.bundles, ∀ path ∈ bundle.sourcePaths, ¬Related (root ++ path) (home root bundle)

/-- The evidence of a bundle stands at its place, written by the plan of a digest. -/
def Bound (root : Path) (planDigest : Sha256) (bundle : Bundle) (t : Files) : Prop :=
  ∃ content fields, t.node? (evidencePath (destination root bundle)) = some (.file content) ∧
    content.json = some (.obj fields) ∧ binds fields planDigest bundle = true

/-- Evidence files stand in a directory, with the digests that a plan recorded. -/
def Holds (place : Path) (files : List EvidenceFile) (t : Files) : Prop :=
  ∀ file ∈ files, ∃ content, t.node? (memberPath place file) = some (.file content) ∧ content.sha256 = file.sha256

/-- Every evidence file of a bundle stands in it. -/
def Filled (root : Path) (bundle : Bundle) (t : Files) : Prop := Holds (destination root bundle) bundle.evidenceFiles t

/-- The directory that a bundle's evidence is taken from is as it was. -/
def Intact (root : Path) (bundle : Bundle) (before t : Files) : Prop :=
  ∀ path, bundle.sourcePaths.head? = some path → ∀ q, root ++ path <+: q → t.node? q = before.node? q

/-- What holds of a tree while a plan is applied to one: changes are deletions the plan lists and new places next to its
bundles, what stands at a bundle's place is that bundle, and each failure's evidence is where it was or in its bundle. -/
structure Survives (root : Path) (plan : Plan) (before t : Files) : Prop where
  same : ∀ q, t.node? q = before.node? q ∨ (t.node? q = none ∧ ∃ action ∈ plan.actions, action.removes root q) ∨
    (before.node? q = none ∧ ∃ bundle ∈ plan.basis.collected.bundles, Related q (home root bundle))
  links : ∀ q target, t.node? q = some (.symlink target) → before.node? q = some (.symlink target)
  kept : ∀ bundle ∈ plan.basis.collected.bundles, Bound root plan.digest bundle t → Filled root bundle t
  evidence : ∀ bundle ∈ plan.basis.collected.bundles,
    Intact root bundle before t ∨ (Bound root plan.digest bundle t ∧ Filled root bundle t)

/-- What an action has done when it is finished. -/
def Done (root : Path) (plan : Plan) (action : Action) (t : Files) : Prop :=
  (∀ q, action.removes root q → t.node? q = none) ∧
    ∀ bundle, action.bundle? = some bundle → Bound root plan.digest bundle t ∧ Filled root bundle t

variable {root : Path} {plan : Plan} {before t u : Files} {bundle other : Bundle} {action : Action} {path p q r : Path}

theorem mem_bundles : bundle ∈ plan.basis.collected.bundles ↔ .bundleFailedAttempts bundle ∈ plan.actions := by
  rw [Collected.bundles, List.mem_filterMap]
  constructor
  · rintro ⟨action, haction, hbundle⟩
    cases action with
    | bundleFailedAttempts found => exact Option.some.inj hbundle ▸ haction
    | pruneSuccessScratch => cases hbundle
    | pruneValidationScratch => cases hbundle
    | pruneValidationComposites => cases hbundle
  · exact fun h => ⟨_, h, rfl⟩

theorem bundle?_eq_some (h : action.bundle? = some bundle) : action = .bundleFailedAttempts bundle := by
  cases action with
  | bundleFailedAttempts found => exact congrArg _ (Option.some.inj h)
  | pruneSuccessScratch => cases h
  | pruneValidationScratch => cases h
  | pruneValidationComposites => cases h

theorem mem_places_path (h : path ∈ action.paths) : root ++ path ∈ action.places root :=
  List.mem_append_left _ (List.mem_map_of_mem h)

theorem mem_places_home (h : action.bundle? = some bundle) : home root bundle ∈ action.places root :=
  List.mem_append_right _ (List.mem_map_of_mem (Option.mem_toList.mpr h))

theorem Apart.of_ne (h : Apart root plan) {a b : Action} (ha : a ∈ plan.actions) (hb : b ∈ plan.actions) (hne : a ≠ b)
    (hp : p ∈ a.places root) (hq : q ∈ b.places root) : ¬Related p q := h.actions.forall ha hb hne p hp q hq

/-- Nothing is deleted where bundles are put. -/
theorem Apart.removes_home (h : Apart root plan) (haction : action ∈ plan.actions) (hb : bundle ∈ plan.basis.collected.bundles)
    (hremoves : action.removes root q) : ¬Related q (home root bundle) := by
  obtain ⟨path, hpath, hq⟩ := hremoves
  intro hrelated
  have hplace := hrelated.above hq
  by_cases hsame : action = .bundleFailedAttempts bundle
  · subst hsame
    exact h.sources bundle hb path hpath hplace
  · exact h.of_ne haction (mem_bundles.mp hb) hsame (mem_places_path hpath) (mem_places_home rfl) hplace

theorem Apart.homes (h : Apart root plan) (hb : bundle ∈ plan.basis.collected.bundles)
    (hother : other ∈ plan.basis.collected.bundles) (hne : other ≠ bundle) : ¬Related (home root other) (home root bundle) :=
  h.of_ne (mem_bundles.mp hother) (mem_bundles.mp hb) (fun heq => hne (Action.bundleFailedAttempts.inj heq))
    (mem_places_home rfl) (mem_places_home rfl)

/-- A source is not where a bundle is put. -/
theorem Apart.source_home (h : Apart root plan) (hb : bundle ∈ plan.basis.collected.bundles)
    (hother : other ∈ plan.basis.collected.bundles) (hpath : path ∈ other.sourcePaths) (hq : root ++ path <+: q) :
    ¬Related q (home root bundle) := h.removes_home (mem_bundles.mp hother) hb ⟨path, hpath, hq⟩

theorem home_above (rest : Path) : home root bundle <+: destination root bundle ++ rest :=
  (List.dropLast_prefix _).trans (List.prefix_append _ rest)

theorem not_bound (h : t.node? (destination root bundle) = none) (planDigest : Sha256) : ¬Bound root planDigest bundle t := by
  rintro ⟨content, fields, hnode, -⟩
  rw [evidencePath, FileTree.node?_below_none h (List.prefix_append _ _)] at hnode
  cases hnode

/-- A bundle stands in two trees alike that agree below its place. -/
theorem bound_congr (h : ∀ rest, u.node? (destination root bundle ++ rest) = t.node? (destination root bundle ++ rest))
    {planDigest : Sha256} : Bound root planDigest bundle u ↔ Bound root planDigest bundle t := by
  rw [Bound, Bound, evidencePath, h]

theorem filled_congr (h : ∀ rest, u.node? (destination root bundle ++ rest) = t.node? (destination root bundle ++ rest)) :
    Filled root bundle u ↔ Filled root bundle t := by
  simp only [Filled, Holds, memberPath, h]

/-- A free place next to a bundle was free before. -/
theorem Survives.fresh (h : Survives root plan before t) (hapart : Apart root plan)
    (hb : bundle ∈ plan.basis.collected.bundles) (hrelated : Related q (home root bundle)) (hfree : t.node? q = none) :
    before.node? q = none := by
  rcases h.same q with hq | ⟨-, action, haction, hremoves⟩ | ⟨hq, -⟩
  · exact hq ▸ hfree
  · exact absurd hrelated (hapart.removes_home haction hb hremoves)
  · exact hq

/-- A change where nothing was before, next to a bundle that is taken from a source as it was. -/
theorem Survives.create (h : Survives root plan before t) (hapart : Apart root plan)
    (hb : bundle ∈ plan.basis.collected.bundles)
    (hchange : ∀ q, u.node? q = t.node? q ∨ (before.node? q = none ∧ Related q (home root bundle)))
    (hlinks : ∀ q target, u.node? q = some (.symlink target) → before.node? q = some (.symlink target))
    (hkept : Bound root plan.digest bundle u → Filled root bundle u)
    (hevidence : Intact root bundle before t ∨ (Bound root plan.digest bundle u ∧ Filled root bundle u)) :
    Survives root plan before u := by
  have hstill : ∀ q, ¬Related q (home root bundle) → u.node? q = t.node? q := fun q hq =>
    (hchange q).resolve_right fun hfresh => hq hfresh.2
  have hother : ∀ other ∈ plan.basis.collected.bundles, other ≠ bundle → ∀ rest,
      u.node? (destination root other ++ rest) = t.node? (destination root other ++ rest) := fun other hmem hne rest =>
    hstill _ fun hrelated => hapart.homes hb hmem hne (hrelated.above (home_above rest))
  have hintact : ∀ other ∈ plan.basis.collected.bundles, Intact root other before t → Intact root other before u := by
    intro other hmem hsource path hpath q hq
    rw [hstill q (hapart.source_home hb hmem (List.mem_of_head? hpath) hq)]
    exact hsource path hpath q hq
  refine ⟨fun q => ?_, hlinks, fun other hmem hbound => ?_, fun other hmem => ?_⟩
  · rcases hchange q with hq | ⟨hfresh, hrelated⟩
    · rw [hq]
      exact h.same q
    · exact .inr (.inr ⟨hfresh, bundle, hb, hrelated⟩)
  · by_cases hsame : other = bundle
    · exact hsame ▸ hkept (hsame ▸ hbound)
    · have hplace := hother other hmem hsame
      exact (filled_congr hplace).mpr (h.kept other hmem ((bound_congr hplace).mp hbound))
  · by_cases hsame : other = bundle
    · subst hsame
      exact hevidence.imp_left (hintact other hmem)
    · have hplace := hother other hmem hsame
      refine (h.evidence other hmem).imp (hintact other hmem) fun hdone => ?_
      exact ⟨(bound_congr hplace).mpr hdone.1, (filled_congr hplace).mpr hdone.2⟩

/-- A deletion that an action lists spares the bundles. -/
theorem removes_place (hapart : Apart root plan) (haction : action ∈ plan.actions) (hr : action.removes root r)
    (hb : bundle ∈ plan.basis.collected.bundles) (rest : Path) :
    (t.remove r).node? (destination root bundle ++ rest) = t.node? (destination root bundle ++ rest) := by
  obtain ⟨path, hpath, hrpath⟩ := hr
  rw [FileTree.node?_remove, if_neg fun hq => ?_]
  exact hapart.removes_home haction hb ⟨path, hpath, hrpath.trans hq.2⟩ (.inr (home_above rest))

/-- A deletion that an action lists, once its bundle stands. -/
theorem Survives.remove (h : Survives root plan before t) (hapart : Apart root plan) (haction : action ∈ plan.actions)
    (hr : action.removes root r)
    (hdone : ∀ bundle, action.bundle? = some bundle → Bound root plan.digest bundle t ∧ Filled root bundle t) :
    Survives root plan before (t.remove r) := by
  have hplace := fun other hmem => @removes_place root plan t other action r hapart haction hr hmem
  obtain ⟨path, hpath, hrpath⟩ := hr
  have hbelow : ∀ q, r <+: q → action.removes root q := fun q hq => ⟨path, hpath, hrpath.trans hq⟩
  refine ⟨fun q => ?_, fun q target hq => ?_, fun other hmem hbound => ?_, fun other hmem => ?_⟩
  · rw [FileTree.node?_remove]
    split
    · rename_i hq
      exact .inr (.inl ⟨rfl, action, haction, hbelow q hq.2⟩)
    · exact h.same q
  · rw [FileTree.node?_remove] at hq
    split at hq
    · cases hq
    · exact h.links q target hq
  · exact (filled_congr (hplace other hmem)).mpr (h.kept other hmem ((bound_congr (hplace other hmem)).mp hbound))
  · by_cases hsame : action = .bundleFailedAttempts other
    · obtain ⟨hbound, hfilled⟩ := hdone other (by rw [hsame]; rfl)
      exact .inr ⟨(bound_congr (hplace other hmem)).mpr hbound, (filled_congr (hplace other hmem)).mpr hfilled⟩
    · refine (h.evidence other hmem).imp (fun hsource source hhead q hq => ?_) fun hdone => ?_
      · rw [FileTree.node?_remove, if_neg fun hgone => ?_]
        · exact hsource source hhead q hq
        · have hsources : source ∈ (Action.bundleFailedAttempts other).paths := List.mem_of_head? hhead
          exact hapart.of_ne haction (mem_bundles.mp hmem) hsame (mem_places_path hpath) (mem_places_path hsources)
            (related_of_below (hrpath.trans hgone.2) hq)
      · exact ⟨(bound_congr (hplace other hmem)).mpr hdone.1, (filled_congr (hplace other hmem)).mpr hdone.2⟩

end Invariant

section Writing

variable {root : Path} {plan : Plan} {before s t u : Files} {bundle : Bundle} {temporary p q r : Path}

/-- While a bundle is written from a tree: nothing stands at its place, and nothing has changed elsewhere. -/
structure Filling (root : Path) (plan : Plan) (before s : Files) (bundle : Bundle) (t : Files) : Prop where
  survives : Survives root plan before t
  intact : Intact root bundle before t
  free : t.node? (destination root bundle) = none
  frame : ∀ q, ¬Related q (home root bundle) → t.node? q = s.node? q

/-- A bundle that stands, with nothing changed elsewhere. -/
structure Standing (root : Path) (plan : Plan) (before s : Files) (bundle : Bundle) (t : Files) : Prop where
  survives : Survives root plan before t
  bound : Bound root plan.digest bundle t
  filled : Filled root bundle t
  frame : ∀ q, ¬Related q (home root bundle) → t.node? q = s.node? q

/-- The directory that a bundle is written in. -/
structure Temporary (root : Path) (before : Files) (bundle : Bundle) (temporary : Path) : Prop where
  parent : ∃ name, temporary = home root bundle ++ [name]
  free : ∀ q, temporary <+: q → before.node? q = none
  other : ∀ q, temporary <+: q → ¬destination root bundle <+: q

theorem Temporary.related (h : Temporary root before bundle temporary) (hq : temporary <+: q) : Related q (home root bundle) := by
  obtain ⟨name, rfl⟩ := h.parent
  exact .inr ((List.prefix_append _ _).trans hq)

theorem Temporary.ne (h : Temporary root before bundle temporary) (hq : temporary <+: q) : q ≠ destination root bundle := by
  rintro rfl
  exact h.other _ hq List.prefix_rfl

/-- No link stands on the way to a place in the temporary directory. -/
theorem Temporary.canonical (h : Temporary root before bundle temporary) (hnamed : ∀ part ∈ temporary, IsName part)
    (hplaced : FileTree.Canonical before (destination root bundle)) (hsurvives : Survives root plan before t) {rest : Path}
    (hrest : ∀ part ∈ rest, IsName part) : FileTree.Canonical t (temporary ++ rest) := by
  refine FileTree.canonical_of_names (List.forall_mem_append.mpr ⟨hnamed, hrest⟩) fun q hq target hnode => ?_
  have hlink := hsurvives.links q target hnode
  rcases List.prefix_or_prefix_of_prefix (List.prefix_append temporary rest) hq with hbelow | habove
  · rw [h.free q hbelow] at hlink
    cases hlink
  · obtain ⟨name, hname⟩ := h.parent
    rcases List.prefix_concat_iff.mp (hname ▸ habove) with heq | hhome
    · rw [h.free q (by rw [hname, heq])] at hlink
      cases hlink
    · exact hplaced.not_link (hhome.trans (List.dropLast_prefix _)) target hlink

theorem Filling.put (h : Filling root plan before s bundle t) (hapart : Apart root plan)
    (hb : bundle ∈ plan.basis.collected.bundles) (hq : Related q (home root bundle)) (hne : q ≠ destination root bundle)
    (hfresh : before.node? q = none)
    (hchange : ∀ r, u.node? r = t.node? r ∨ (r = q ∧ ∃ node, u.node? q = some node ∧ ∀ target, node ≠ .symlink target)) :
    Filling root plan before s bundle u := by
  have hstill : ∀ r, r ≠ q → u.node? r = t.node? r := fun r hr => (hchange r).resolve_right fun h => hr h.1
  have hfree : u.node? (destination root bundle) = none := (hstill _ hne.symm).trans h.free
  have hsurvives : Survives root plan before u := by
    refine h.survives.create hapart hb (fun r => ?_) (fun r target hr => ?_) (fun hbound => absurd hbound (not_bound hfree _))
      (.inl h.intact)
    · rcases hchange r with hsame | ⟨rfl, -⟩
      · exact .inl hsame
      · exact .inr ⟨hfresh, hq⟩
    · rcases hchange r with hsame | ⟨rfl, node, hnode, hplain⟩
      · exact h.survives.links r target (hsame ▸ hr)
      · rw [hr] at hnode
        exact absurd (Option.some.inj hnode).symm (hplain target)
  refine ⟨hsurvives, fun path hpath r hr => ?_, hfree, fun r hr => ?_⟩
  · rw [hstill r, h.intact path hpath r hr]
    rintro rfl
    exact hapart.source_home hb hb (List.mem_of_head? hpath) hr hq
  · rw [hstill r, h.frame r hr]
    rintro rfl
    exact hr hq

/-- Making directories next to a bundle, whatever grows with the tree. -/
theorem filling_mkdirs {K : Files → Prop} (hK : ∀ t u : Files, (∀ r node, t.node? r = some node → u.node? r = some node) → K t → K u)
    (hapart : Apart root plan) (hb : bundle ∈ plan.basis.collected.bundles)
    (hplace : ∀ r, r <+: p → Related r (home root bundle) ∧ r ≠ destination root bundle) :
    Triple (Survives root plan before) (fun t => Filling root plan before s bundle t ∧ K t) (FileTree.mkdirs cannotChange p)
      fun _ t => Filling root plan before s bundle t ∧ K t := by
  refine Triple.weaken (FileTree.mkdirs_triple fun t u r ht hr hu => ?_) fun t ht => ht.1.survives
  have hmade := FileTree.makeDirectory_eq_some hu
  obtain ⟨hrelated, hne⟩ := hplace r hr
  have hgrows : ∀ q node, t.node? q = some node → u.node? q = some node := fun q node hnode => by
    rw [hmade q, if_neg, hnode]
    rintro ⟨-, hnone⟩
    rw [hnode] at hnone
    cases hnone
  refine ⟨?_, hK t u hgrows ht.2⟩
  by_cases hnone : t.node? r = none
  · refine ht.1.put hapart hb hrelated hne (ht.1.survives.fresh hapart hb hrelated hnone) fun q => ?_
    by_cases hq : q = r
    · exact .inr ⟨hq, _, by rw [hmade r, if_pos ⟨rfl, hnone⟩], fun _ h => by cases h⟩
    · exact .inl (by rw [hmade q, if_neg fun h => hq h.1])
  · have hsame : ∀ q, u.node? q = t.node? q := fun q => by
      rw [hmade q, if_neg]
      rintro ⟨rfl, hq⟩
      exact hnone hq
    have hlinks : ∀ q target, u.node? q = some (.symlink target) → before.node? q = some (.symlink target) :=
      fun q target hq => ht.1.survives.links q target (hsame q ▸ hq)
    refine ⟨ht.1.survives.create hapart hb (fun q => .inl (hsame q)) hlinks ?_ (.inl ht.1.intact), ?_, ?_, ?_⟩
    · exact fun hbound => absurd hbound (not_bound ((hsame _).trans ht.1.free) _)
    · exact fun path hpath q hq => (hsame q).trans (ht.1.intact path hpath q hq)
    · exact (hsame _).trans ht.1.free
    · exact fun q hq => (hsame q).trans (ht.1.frame q hq)

theorem holds_grows {files : List EvidenceFile} (h : ∀ r node, t.node? r = some node → u.node? r = some node)
    (hholds : Holds p files t) : Holds p files u := fun file hfile => by
  obtain ⟨content, hnode, hdigest⟩ := hholds file hfile
  exact ⟨content, h _ _ hnode, hdigest⟩

theorem memberPath_inj {file other : EvidenceFile} (h : memberPath p file = memberPath p other) :
    file.relativePath = other.relativePath := (List.cons.inj (List.append_cancel_left h)).2

theorem Sha256.ext_text {a b : Sha256} (h : a.text = b.text) : a = b := by
  cases a
  cases b
  cases h
  rfl

theorem fileAt_canonical {content : FileData} (hp : FileTree.Canonical t p) (h : fileAt t p = .ok content) :
    t.node? p = some (.file content) := by
  unfold fileAt at h
  rw [FileTree.stat_canonical hp] at h
  cases hnode : t.node? p with
  | none =>
    rw [hnode] at h
    cases h
  | some node =>
    rw [hnode] at h
    cases node with
    | file found => exact congrArg (fun c => some (Node.file c)) (Except.ok.inj h)
    | directory => cases h
    | symlink target => cases h
    | special => cases h

/-- A file whose digest has been verified. -/
theorem verifyDigest_canonical {file : EvidenceFile} {label : String} (hp : FileTree.Canonical t p)
    (h : verifyDigest t p (some (.str file.sha256.text)) label = .ok ()) :
    ∃ content, t.node? p = some (.file content) ∧ content.sha256 = file.sha256 := by
  unfold verifyDigest at h
  obtain ⟨-, -, h⟩ := bind_eq_ok.mp h
  obtain ⟨content, hcontent, h⟩ := bind_eq_ok.mp h
  exact ⟨content, fileAt_canonical hp hcontent, Sha256.ext_text (require_eq_ok.mp h)⟩

end Writing

section Bundling

variable {root : Path} {plan : Plan} {before s : Files} {bundle : Bundle} {temporary : Path} {policy : RetentionPolicy}
variable {hashing : Hashing} {temporaries : Temporaries}

/-- One more evidence file, whose digest is verified where it has been copied to. -/
theorem copyFile_triple (hapart : Apart root plan) (hb : bundle ∈ plan.basis.collected.bundles)
    (hplaced : FileTree.Canonical before (destination root bundle)) (htemp : Temporary root before bundle temporary)
    (hnamed : ∀ part ∈ temporary, IsName part) {file : EvidenceFile} (hnames : ∀ part ∈ file.relativePath, IsName part)
    {done : List EvidenceFile} (hnew : ∀ other ∈ done, other.relativePath ≠ file.relativePath) (representative : Path) :
    Triple (Survives root plan before) (fun t => Filling root plan before s bundle t ∧ Holds temporary done t)
      (copyFile policy representative temporary file)
      fun _ t => Filling root plan before s bundle t ∧ Holds temporary (done ++ [file]) t := by
  have hbelow : temporary <+: memberPath temporary file := List.prefix_append _ _
  have hparts : ∀ part ∈ "files" :: file.relativePath, IsName part := List.forall_mem_cons.mpr ⟨by decide, hnames⟩
  have hcanonical : ∀ t, Survives root plan before t → FileTree.Canonical t (memberPath temporary file) := fun t ht =>
    htemp.canonical hnamed hplaced ht hparts
  unfold copyFile
  refine Triple.bind (Triple.look fun t ht _ _ => ht) fun source => ?_
  refine Triple.bind (Triple.look fun t ht _ _ => ht) fun _ => ?_
  refine Triple.lookBind (fun target t => target = memberPath temporary file ∧
    Filling root plan before s bundle t ∧ Holds temporary done t) (fun t ht target htarget => ⟨?_, ht⟩) fun target => ?_
  · have hresolve := (inside_eq_ok.mp htarget).1
    rw [FileTree.resolve_canonical (hcanonical t ht.1.survives)] at hresolve
    exact (Option.some.inj hresolve).symm
  refine Triple.given ?_
  rintro rfl
  have hdirectories : ∀ r, r <+: (memberPath temporary file).dropLast → Related r (home root bundle) ∧ r ≠ destination root bundle := by
    intro r hr
    have hr := hr.trans (List.dropLast_prefix _)
    refine ⟨(htemp.related hbelow).above hr, ?_⟩
    rintro rfl
    exact htemp.other _ hbelow hr
  refine Triple.bind (filling_mkdirs (fun _ _ => holds_grows) hapart hb hdirectories) fun _ => ?_
  refine Triple.editBind (fun t => Filling root plan before s bundle t ∧ Holds temporary done t)
    (fun t ht u hu => ?_) ?_
  · obtain ⟨content, -, hput⟩ := bind_eq_ok.mp hu
    have hput : t.put (memberPath temporary file) (.file content) = some u := by
      cases hmade : t.put (memberPath temporary file) (.file content) with
      | none =>
        rw [hmade] at hput
        cases hput
      | some made =>
        rw [hmade] at hput
        exact congrArg some (Except.ok.inj hput)
    have hnode := (FileTree.put_eq_some hput).2
    have hfilling : Filling root plan before s bundle u := by
      refine ht.1.put hapart hb (htemp.related hbelow) (htemp.ne hbelow) (htemp.free _ hbelow) fun r => ?_
      by_cases hr : r = memberPath temporary file
      · exact .inr ⟨hr, _, by rw [hnode, if_pos rfl], fun _ h => by cases h⟩
      · exact .inl (by rw [hnode, if_neg hr])
    refine ⟨hfilling.survives, hfilling, fun other hother => ?_⟩
    rw [hnode, if_neg fun heq => hnew other hother (memberPath_inj heq)]
    exact ht.2 other hother
  · refine Triple.look fun t ht _ hverified => ⟨ht.1, List.forall_mem_append.mpr ⟨ht.2, ?_⟩⟩
    rw [List.forall_mem_singleton]
    exact verifyDigest_canonical (hcanonical t ht.1.survives) hverified

theorem binds_evidenceDocument (planDigest : Sha256) (copied : List EvidenceFile) :
    ∃ fields, evidenceDocument planDigest bundle copied = .obj fields ∧ binds fields planDigest bundle = true := by
  refine ⟨_, rfl, ?_⟩
  simp [binds, Json.Fields.get?, Json.isText, Json.str?]

/-- A bundle is written under its temporary name, and takes its own when it is complete. -/
theorem fillBundle_triple (hapart : Apart root plan) (hb : bundle ∈ plan.basis.collected.bundles)
    (hplaced : Placed before root (.bundleFailedAttempts bundle)) (htemp : Temporary root before bundle temporary)
    (hnamed : ∀ part ∈ temporary, IsName part) (representative : Path) :
    Triple (Survives root plan before) (Filling root plan before s bundle)
      (fillBundle policy hashing plan.digest bundle representative temporary (destination root bundle))
      fun _ => Standing root plan before s bundle := by
  obtain ⟨hcanonical, hnodup, hnames⟩ := hplaced.bundle bundle rfl
  unfold fillBundle
  have hloop := @Triple.forM Fault Files EvidenceFile (Survives root plan before) bundle.evidenceFiles
    (copyFile policy representative temporary) (fun done t => Filling root plan before s bundle t ∧ Holds temporary done t)
    fun done file rest hrows => by
      have hfile : file ∈ bundle.evidenceFiles := hrows ▸ List.mem_append_right _ List.mem_cons_self
      refine copyFile_triple hapart hb hcanonical htemp hnamed (hnames file hfile) (fun other hother heq => ?_) representative
      rw [hrows, List.map_append, List.map_cons] at hnodup
      exact (List.nodup_append.mp hnodup).2.2 _ (List.mem_map_of_mem hother) _ List.mem_cons_self heq
  refine Triple.bind (hloop.mono (fun t ht => ⟨ht, fun _ h => (List.not_mem_nil h).elim⟩) fun _ _ h => h) fun _ => ?_
  have hbelow : temporary <+: evidencePath temporary := List.prefix_append _ _
  refine Triple.editBind (fun t => Filling root plan before s bundle t ∧
      Holds temporary bundle.evidenceFiles t ∧ t.node? (evidencePath temporary) =
        some (.file (hashing.render (evidenceDocument plan.digest bundle bundle.evidenceFiles)))) (fun t ht u hu => ?_) ?_
  · cases hput : t.put (evidencePath temporary)
        (.file (hashing.render (evidenceDocument plan.digest bundle bundle.evidenceFiles))) with
    | none =>
      rw [hput] at hu
      cases hu
    | some made =>
      rw [hput] at hu
      obtain rfl := Except.ok.inj hu
      have hnode := (FileTree.put_eq_some hput).2
      have hfilling : Filling root plan before s bundle made := by
        refine ht.1.put hapart hb (htemp.related hbelow) (htemp.ne hbelow) (htemp.free _ hbelow) fun r => ?_
        by_cases hr : r = evidencePath temporary
        · exact .inr ⟨hr, _, by rw [hnode, if_pos rfl], fun _ h => by cases h⟩
        · exact .inl (by rw [hnode, if_neg hr])
      refine ⟨hfilling.survives, hfilling, fun file hfile => ?_, by rw [hnode, if_pos rfl]⟩
      rw [hnode, if_neg]
      · exact ht.2 file hfile
      · exact fun heq => absurd (List.cons.inj (List.append_cancel_left heq)).1 (by decide)
  · refine Triple.edit fun t ht u hu => ?_
    obtain ⟨hfilling, hholds, hevidence⟩ := ht
    cases hmove : t.move temporary (destination root bundle) with
    | none =>
      rw [hmove] at hu
      cases hu
    | some moved =>
      rw [hmove] at hu
      obtain rfl := Except.ok.inj hu
      obtain ⟨-, htarget, hsource, helse⟩ := FileTree.move_eq_some hmove
      have hbound : Bound root plan.digest bundle moved := by
        obtain ⟨fields, hfields, hbinds⟩ := @binds_evidenceDocument bundle plan.digest bundle.evidenceFiles
        refine ⟨_, fields, (htarget _).trans hevidence, ?_, hbinds⟩
        rw [hashing.render_json, hfields]
      have hfilled : Filled root bundle moved := fun file hfile => by
        obtain ⟨content, hnode, hdigest⟩ := hholds file hfile
        exact ⟨content, (htarget _).trans hnode, hdigest⟩
      have hsurvives : Survives root plan before moved := by
        refine hfilling.survives.create hapart hb (fun q => ?_) (fun q target hq => ?_) (fun _ => hfilled) (.inr ⟨hbound, hfilled⟩)
        · by_cases hq : destination root bundle <+: q
          · have hrelated : Related q (home root bundle) := .inr ((List.dropLast_prefix _).trans hq)
            exact .inr ⟨hfilling.survives.fresh hapart hb hrelated (FileTree.node?_below_none hfilling.free hq), hrelated⟩
          · by_cases hq' : temporary <+: q
            · exact .inr ⟨htemp.free q hq', htemp.related hq'⟩
            · exact .inl (helse q hq' hq)
        · by_cases hq' : destination root bundle <+: q
          · obtain ⟨rest, rfl⟩ := hq'
            have hlink := hfilling.survives.links _ target ((htarget rest).symm.trans hq)
            rw [htemp.free _ (List.prefix_append _ _)] at hlink
            cases hlink
          · by_cases hq'' : temporary <+: q
            · rw [hsource q hq'' hq'] at hq
              cases hq
            · exact hfilling.survives.links q target ((helse q hq'' hq').symm.trans hq)
      refine ⟨hsurvives, hsurvives, hbound, hfilled, fun q hq => ?_⟩
      rw [helse q (fun h => hq (htemp.related h)) fun h => hq (.inr ((List.dropLast_prefix _).trans h))]
      exact hfilling.frame q hq

/-- Removing what is left of a temporary directory. -/
theorem Survives.discard {t : Files} {r : Path} (h : Survives root plan before t) (hapart : Apart root plan)
    (hb : bundle ∈ plan.basis.collected.bundles) (htemp : Temporary root before bundle temporary) (hr : temporary <+: r) :
    Survives root plan before (t.remove r) ∧
      (∀ q, ¬Related q (home root bundle) → (t.remove r).node? q = t.node? q) ∧
      ∀ rest, (t.remove r).node? (destination root bundle ++ rest) = t.node? (destination root bundle ++ rest) := by
  have hplace : ∀ rest, (t.remove r).node? (destination root bundle ++ rest) = t.node? (destination root bundle ++ rest) := by
    intro rest
    rw [FileTree.node?_remove, if_neg fun hq => htemp.other _ (hr.trans hq.2) (List.prefix_append _ rest)]
  refine ⟨h.create hapart hb (fun q => ?_) (fun q target hq => ?_) (fun hbound => ?_) ?_, fun q hq => ?_, hplace⟩
  · by_cases hq : r <+: q
    · exact .inr ⟨htemp.free q (hr.trans hq), htemp.related (hr.trans hq)⟩
    · exact .inl (by rw [FileTree.node?_remove, if_neg fun h => hq h.2])
  · rw [FileTree.node?_remove] at hq
    split at hq
    · cases hq
    · exact h.links q target hq
  · exact (filled_congr hplace).mpr (h.kept bundle hb ((bound_congr hplace).mp hbound))
  · exact (h.evidence bundle hb).imp_right fun hdone =>
      ⟨(bound_congr hplace).mpr hdone.1, (filled_congr hplace).mpr hdone.2⟩
  · rw [FileTree.node?_remove, if_neg fun h => hq (htemp.related (hr.trans h.2))]

theorem discard_triple {inv : Files → Prop} (hstep : ∀ t r, inv t → temporary <+: r → inv (t.remove r)) :
    Triple inv inv (discard temporary) fun _ t => inv t := by
  unfold discard
  refine Triple.lookBind (fun _ t => inv t) (fun t ht _ _ => ht) fun standing => ?_
  cases standing with
  | true => exact (FileTree.rmtree_triple (fun _ h => h) hstep).mono (fun _ h => h) fun _ _ h => h.1
  | false => exact Triple.pure () fun _ h => h

theorem pick_ne {temporaries : Temporaries} {t : Files} {directory front : Path} {last : String} :
    temporaries.pick t directory (temporaryStem (front ++ [last])) ≠ last := by
  intro heq
  have hmarked := (temporaries.marked t directory (temporaryStem (front ++ [last]))).length_le
  rw [heq] at hmarked
  have hlength : (temporaryStem (front ++ [last])).toList.length = last.toList.length + 2 := by
    have hdot : ".".toList.length = 1 := rfl
    rw [temporaryStem, List.getLast?_concat, Option.getD_some, String.toList_append, String.toList_append,
      List.length_append, List.length_append, hdot]
    omega
  omega

/-- Writing a bundle that does not stand yet. -/
theorem writeBundle_triple (hapart : Apart root plan) (hb : bundle ∈ plan.basis.collected.bundles)
    (hplaced : Placed before root (.bundleFailedAttempts bundle)) :
    Triple (Survives root plan before) (Filling root plan before s bundle)
      (writeBundle policy hashing temporaries plan.digest bundle (destination root bundle))
      fun _ => Standing root plan before s bundle := by
  by_cases hdestination : destination root bundle = []
  · refine Triple.start fun t ht => ?_
    have hfree := ht.free
    rw [hdestination, FileTree.node?_nil] at hfree
    cases hfree
  obtain ⟨front, last, hlast⟩ := (List.eq_nil_or_concat' (destination root bundle)).resolve_left hdestination
  have hhome : home root bundle = front := by rw [home, hlast, List.dropLast_concat]
  unfold writeBundle
  refine Triple.bind (Triple.look fun t ht _ _ => ht) fun source => ?_
  refine Triple.bind (Triple.look fun t ht _ _ => ht) fun representative => ?_
  have hdirectories : ∀ r, r <+: (destination root bundle).dropLast → Related r (home root bundle) ∧ r ≠ destination root bundle := by
    intro r hr
    refine ⟨.inl hr, ?_⟩
    rintro rfl
    have hlength := hr.length_le
    rw [hlast, List.dropLast_concat, List.length_append, List.length_singleton] at hlength
    omega
  have hmade : Triple (Survives root plan before) (fun t => Filling root plan before s bundle t ∧ True)
      (FileTree.mkdirs cannotChange (destination root bundle).dropLast) fun _ t => Filling root plan before s bundle t ∧ True :=
    filling_mkdirs (fun _ _ _ _ => trivial) hapart hb hdirectories
  refine Triple.bind (hmade.mono (fun _ ht => ⟨ht, trivial⟩) fun _ _ ht => ht.1) fun _ => ?_
  refine Triple.lookBind (fun name t => Temporary root before bundle (home root bundle ++ [name]) ∧
    Filling root plan before s bundle t) (fun t ht name hname => ⟨?_, ht⟩) fun name => ?_
  · obtain rfl := Except.ok.inj hname
    have hfree := temporaries.free t (destination root bundle).dropLast (temporaryStem (destination root bundle))
    refine ⟨⟨_, rfl⟩, fun q hq => ?_, fun q hq hother => ?_⟩
    · exact ht.survives.fresh hapart hb (.inr ((List.prefix_append _ _).trans hq)) (FileTree.node?_below_none hfree hq)
    · -- both are entries of one directory, of different names
      have hequal : destination root bundle = home root bundle ++
          [temporaries.pick t (destination root bundle).dropLast (temporaryStem (destination root bundle))] := by
        refine (List.prefix_of_prefix_length_le hother hq ?_).eq_of_length ?_
        · rw [hlast, hhome, List.length_append, List.length_append]
          rfl
        · rw [hlast, hhome, List.length_append, List.length_append]
          rfl
      rw [hhome, hlast] at hequal
      have hnames := List.singleton_inj.mp (List.append_cancel_left hequal)
      exact pick_ne hnames.symm
  refine Triple.given fun htemp => ?_
  dsimp only
  refine Triple.editBind (fun t => (∀ part ∈ home root bundle ++ [name], IsName part) ∧ Filling root plan before s bundle t)
    (fun t ht u hu => ?_) ?_
  · have hput : t.put (home root bundle ++ [name]) .directory = some u := by
      cases hmade : t.put (home root bundle ++ [name]) .directory with
      | none =>
        rw [home] at hmade
        rw [hmade] at hu
        cases hu
      | some made =>
        rw [home] at hmade
        rw [hmade] at hu
        exact congrArg some (Except.ok.inj hu)
    obtain ⟨hplaceable, hnode⟩ := FileTree.put_eq_some hput
    have hfilling : Filling root plan before s bundle u := by
      refine ht.put hapart hb (htemp.related List.prefix_rfl) (htemp.ne List.prefix_rfl) (htemp.free _ List.prefix_rfl) fun r => ?_
      by_cases hr : r = home root bundle ++ [name]
      · exact .inr ⟨hr, _, by rw [hnode, if_pos rfl], fun _ h => by cases h⟩
      · exact .inl (by rw [hnode, if_neg hr])
    exact ⟨hfilling.survives, hplaceable.2.1, hfilling⟩
  · refine Triple.given fun hnamed => Triple.ending (fun t ht => ht.survives)
      (fillBundle_triple hapart hb hplaced htemp hnamed representative) ?_ fun _ => ?_
    · exact (discard_triple fun t r ht hr => (ht.discard hapart hb htemp hr).1).mono (fun _ h => h) fun _ _ _ => trivial
    · refine Triple.weaken (discard_triple fun t r ht hr => ?_) fun t ht => ht.survives
      obtain ⟨hsurvives, hframe, hplace⟩ := ht.survives.discard hapart hb htemp hr
      exact ⟨hsurvives, (bound_congr hplace).mpr ht.bound, (filled_congr hplace).mpr ht.filled,
        fun q hq => (hframe q hq).trans (ht.frame q hq)⟩

theorem loadJson_canonical {t : Files} {p : Path} {label : String} {fields : Json.Fields} (hp : FileTree.Canonical t p)
    (h : loadJson t p label = .ok fields) : ∃ content, t.node? p = some (.file content) ∧ content.json = some (.obj fields) := by
  unfold loadJson at h
  obtain ⟨content, hcontent, h⟩ := bind_eq_ok.mp h
  refine ⟨content, fileAt_canonical hp hcontent, ?_⟩
  cases hjson : content.json with
  | none =>
    rw [hjson] at h
    cases h
  | some value =>
    rw [hjson] at h
    cases value with
    | obj found => exact congrArg (fun fields => some (Json.obj fields)) (Except.ok.inj h)
    | null => cases h
    | bool => cases h
    | int => cases h
    | float => cases h
    | str => cases h
    | arr => cases h

theorem exists?_canonical {t : Files} {p : Path} (hp : FileTree.Canonical t p) (h : t.exists? p = false) : t.node? p = none := by
  rw [FileTree.exists?, FileTree.stat_canonical hp] at h
  exact Option.not_isSome_iff_eq_none.mp (Bool.eq_false_iff.mp h)

/-- A bundle that stands already is that of the plan, or it is written. -/
theorem copyBundle_triple (hapart : Apart root plan) (hb : bundle ∈ plan.basis.collected.bundles)
    (hplaced : Placed before root (.bundleFailedAttempts bundle)) (hroot : policy.root = root)
    (hplain : ∀ target, before.node? (evidencePath (destination root bundle)) ≠ some (.symlink target)) :
    Triple (Survives root plan before) (fun t => t = s ∧ Survives root plan before t)
      (copyBundle policy hashing temporaries plan.digest bundle) fun _ => Standing root plan before s bundle := by
  have hcanonical : ∀ t, Survives root plan before t → FileTree.Canonical t (destination root bundle) := fun t ht =>
    (hplaced.bundle bundle rfl).1.of_links ht.links
  unfold copyBundle
  refine Triple.lookBind (fun place t => place = destination root bundle ∧ t = s ∧ Survives root plan before t)
    (fun t ht place hinside => ⟨?_, ht⟩) fun place => ?_
  · have hresolve := (inside_eq_ok.mp hinside).1
    rw [hroot] at hresolve
    exact Option.some.inj (hresolve.symm.trans (FileTree.resolve_canonical (hcanonical t ht.2)))
  refine Triple.given ?_
  rintro rfl
  refine Triple.lookBind (fun standing t => t.exists? (destination root bundle) = standing ∧ t = s ∧ Survives root plan before t)
    (fun t ht standing hstanding => ⟨Except.ok.inj hstanding, ht⟩) fun standing => ?_
  cases standing with
  | true =>
    refine Triple.lookBind (fun _ => Standing root plan before s bundle) (fun t ht _ hloaded => ?_) fun _ =>
      Triple.look fun _ ht _ _ => ht
    obtain ⟨-, rfl, hsurvives⟩ := ht
    obtain ⟨fields, hfields, hbinds⟩ := bind_eq_ok.mp hloaded
    have hevidence : FileTree.Canonical t (evidencePath (destination root bundle)) :=
      (hcanonical t hsurvives).concat (by decide) fun target hlink => hplain target (hsurvives.links _ target hlink)
    obtain ⟨content, hnode, hjson⟩ := loadJson_canonical hevidence hfields
    have hbound : Bound root plan.digest bundle t := ⟨content, fields, hnode, hjson, require_eq_ok.mp hbinds⟩
    exact ⟨hsurvives, hbound, hsurvives.kept bundle hb hbound, fun _ _ => rfl⟩
  | false =>
    refine Triple.bind ((writeBundle_triple hapart hb hplaced).mono (fun t ht => ?_) fun _ _ h => h) fun _ =>
      Triple.look fun _ ht _ _ => ht
    obtain ⟨hstanding, rfl, hsurvives⟩ := ht
    have hfree := exists?_canonical (hcanonical t hsurvives) hstanding
    refine ⟨hsurvives, ?_, hfree, fun _ _ => rfl⟩
    exact (hsurvives.evidence bundle hb).resolve_right fun h => not_bound hfree _ h.1

end Bundling

section Removing

variable {root : Path} {plan : Plan} {before s t : Files} {action : Action} {policy : RetentionPolicy} {hashing : Hashing}
variable {temporaries : Temporaries} {done : List Path} {r path : Path}

/-- While the paths of an action are deleted from a tree, in their order. -/
structure Removing (root : Path) (plan : Plan) (before s : Files) (action : Action) (done : List Path) (t : Files) : Prop where
  survives : Survives root plan before t
  bundled : ∀ bundle, action.bundle? = some bundle → Bound root plan.digest bundle t ∧ Filled root bundle t
  frame : ∀ q, (∀ p ∈ action.places root, ¬Related q p) → t.node? q = s.node? q
  gone : ∀ path ∈ done, ∀ q, root ++ path <+: q → t.node? q = none

theorem Removing.remove (h : Removing root plan before s action done t) (hapart : Apart root plan)
    (haction : action ∈ plan.actions) (hr : action.removes root r) : Removing root plan before s action done (t.remove r) := by
  refine ⟨h.survives.remove hapart haction hr h.bundled, fun bundle hbundle => ?_, fun q hq => ?_, fun path hpath q hq => ?_⟩
  · have hb : bundle ∈ plan.basis.collected.bundles := mem_bundles.mpr (bundle?_eq_some hbundle ▸ haction)
    have hplace := @removes_place root plan t bundle action r hapart haction hr hb
    obtain ⟨hbound, hfilled⟩ := h.bundled bundle hbundle
    exact ⟨(bound_congr hplace).mpr hbound, (filled_congr hplace).mpr hfilled⟩
  · obtain ⟨path, hpath, hrpath⟩ := hr
    rw [FileTree.node?_remove, if_neg fun hgone => hq _ (mem_places_path hpath) (.inr (hrpath.trans hgone.2))]
    exact h.frame q hq
  · rw [FileTree.node?_remove]
    split
    · rfl
    · exact h.gone path hpath q hq

theorem Removing.concat (h : Removing root plan before s action done t) (hgone : ∀ q, root ++ path <+: q → t.node? q = none) :
    Removing root plan before s action (done ++ [path]) t :=
  ⟨h.survives, h.bundled, h.frame, List.forall_mem_append.mpr ⟨h.gone, List.forall_mem_singleton.mpr hgone⟩⟩

theorem removeRetentionTarget_triple (hapart : Apart root plan) (haction : action ∈ plan.actions)
    (hplaced : Placed before root action) (hroot : policy.root = root) (hpath : path ∈ action.paths) :
    Triple (Survives root plan before) (Removing root plan before s action done) (removeRetentionTarget policy path)
      fun _ => Removing root plan before s action (done ++ [path]) := by
  have hcanonical : ∀ t, Survives root plan before t → FileTree.Canonical t (root ++ path) := fun t ht =>
    (hplaced.paths path hpath).of_links ht.links
  have hstep : ∀ (t : Files) r, Removing root plan before s action done t → root ++ path <+: r →
      Removing root plan before s action done (t.remove r) := fun t r ht hr => ht.remove hapart haction ⟨path, hpath, hr⟩
  unfold removeRetentionTarget
  refine Triple.lookBind (fun place t => place = root ++ path ∧ Removing root plan before s action done t)
    (fun t ht place hinside => ⟨?_, ht⟩) fun place => ?_
  · have hresolve := (inside_eq_ok.mp hinside).1
    rw [hroot] at hresolve
    exact Option.some.inj (hresolve.symm.trans (FileTree.resolve_canonical (hcanonical t ht.survives)))
  refine Triple.given ?_
  rintro rfl
  refine Triple.lookBind (fun standing t => t.exists? (root ++ path) = standing ∧ Removing root plan before s action done t)
    (fun t ht standing hstanding => ⟨Except.ok.inj hstanding, ht⟩) fun standing => ?_
  cases standing with
  | true =>
    refine Triple.lookBind (fun _ => Removing root plan before s action done) (fun t ht _ _ => ht.2) fun stats => ?_
    refine Triple.lookBind (fun _ => Removing root plan before s action done) (fun t ht _ _ => ht) fun regular => ?_
    cases regular with
    | true =>
      refine Triple.bind (Triple.weaken (FileTree.unlink_triple (fun _ h => h) fun t ht => hstep t _ ht List.prefix_rfl)
        fun t ht => ht.survives) fun _ => Triple.pure _ fun t ht => ht.1.concat ht.2
    | false =>
      refine Triple.bind (Triple.weaken (FileTree.rmtree_triple (fun _ h => h) hstep)
        fun t ht => ht.survives) fun _ => Triple.pure _ fun t ht => ht.1.concat ht.2
  | false =>
    refine Triple.pure _ fun t ht => ht.2.concat fun q hq => ?_
    exact FileTree.node?_below_none (exists?_canonical (hcanonical t ht.2.survives) ht.1) hq

/-- What precedes the deletions of an action brings its bundle, and changes nothing elsewhere. -/
theorem prepare_triple (hapart : Apart root plan) (haction : action ∈ plan.actions) (hplaced : Placed before root action)
    (hroot : policy.root = root)
    (hplain : ∀ bundle, action.bundle? = some bundle →
      ∀ target, before.node? (evidencePath (destination root bundle)) ≠ some (.symlink target)) :
    Triple (Survives root plan before) (fun t => t = s ∧ Survives root plan before t)
      (prepare policy hashing temporaries plan.digest action) fun _ => Removing root plan before s action [] := by
  have hidle : action.bundle? = none → ∀ t, t = s ∧ Survives root plan before t → Removing root plan before s action [] t := by
    rintro hnone t ⟨rfl, ht⟩
    refine ⟨ht, fun bundle hbundle => ?_, fun _ _ => rfl, fun _ h => (List.not_mem_nil h).elim⟩
    rw [hnone] at hbundle
    cases hbundle
  cases action with
  | bundleFailedAttempts bundle =>
    refine (copyBundle_triple hapart (mem_bundles.mpr haction) hplaced hroot (hplain bundle rfl)).mono (fun _ h => h) ?_
    rintro _ t ht
    refine ⟨ht.survives, fun other hother => ?_, fun q hq => ht.frame q (hq _ (mem_places_home rfl)),
      fun _ h => (List.not_mem_nil h).elim⟩
    obtain rfl := Option.some.inj hother
    exact ⟨ht.bound, ht.filled⟩
  | pruneSuccessScratch jobId target receiptVerified stats =>
    exact Triple.bind (Triple.look fun t ht _ _ => hidle rfl t ht) fun _ => Triple.pure 0 fun _ h => h
  | pruneValidationScratch record paths stats => exact Triple.pure 0 (hidle rfl)
  | pruneValidationComposites record paths stats => exact Triple.pure 0 (hidle rfl)

theorem applyAction_triple (hapart : Apart root plan) (haction : action ∈ plan.actions) (hplaced : Placed before root action)
    (hroot : policy.root = root)
    (hplain : ∀ bundle, action.bundle? = some bundle →
      ∀ target, before.node? (evidencePath (destination root bundle)) ≠ some (.symlink target)) (applied : Applied) :
    Triple (Survives root plan before) (fun t => t = s ∧ Survives root plan before t)
      (applyAction policy hashing temporaries plan.digest applied action)
      fun _ => Removing root plan before s action action.paths := by
  unfold applyAction
  refine Triple.bind (prepare_triple hapart haction hplaced hroot hplain) fun bytes => ?_
  refine Triple.bind (Triple.foldlM fun removed done path rest hrows => ?_) fun removed => Triple.pure _ fun _ h => h
  have hpath : path ∈ action.paths := hrows ▸ List.mem_append_right _ List.mem_cons_self
  exact Triple.bind (removeRetentionTarget_triple hapart haction hplaced hroot hpath) fun stats => Triple.pure _ fun _ h => h

end Removing

section Histories

variable {root : Path} {plan : Plan} {before t : Files} {w : World} {hashing : Hashing} {temporaries : Temporaries}
variable {request : Request}

/-- What stands at the places of a plan's bundles before it is applied: no links for their evidence, and whole bundles. -/
structure SoundPlaces (root : Path) (plan : Plan) (before : Files) : Prop where
  plain : ∀ bundle ∈ plan.basis.collected.bundles,
    ∀ target, before.node? (evidencePath (destination root bundle)) ≠ some (.symlink target)
  filled : ∀ bundle ∈ plan.basis.collected.bundles, Bound root plan.digest bundle before → Filled root bundle before

theorem survives_refl (h : SoundPlaces root plan before) : Survives root plan before before where
  same _ := .inl rfl
  links _ _ hq := hq
  kept := h.filled
  evidence _ _ := .inl fun _ _ _ _ => rfl

/-- What an action has done outlasts those that work elsewhere. -/
theorem done_frame {s : Files} {action other : Action} (h : Done root plan other s)
    (hapart : Action.ApartFrom root other action)
    (hframe : ∀ q, (∀ p ∈ action.places root, ¬Related q p) → t.node? q = s.node? q) : Done root plan other t := by
  refine ⟨fun q hq => ?_, fun bundle hbundle => ?_⟩
  · rw [hframe q fun p hp hrelated => ?_]
    · exact h.1 q hq
    · obtain ⟨path, hpath, hbelow⟩ := hq
      exact hapart _ (mem_places_path hpath) p hp (hrelated.above hbelow)
  · have hplace : ∀ rest, t.node? (destination root bundle ++ rest) = s.node? (destination root bundle ++ rest) := fun rest =>
      hframe _ fun p hp hrelated => hapart _ (mem_places_home hbundle) p hp (hrelated.above (home_above rest))
    obtain ⟨hbound, hfilled⟩ := h.2 bundle hbundle
    exact ⟨(bound_congr hplace).mpr hbound, (filled_congr hplace).mpr hfilled⟩

theorem checkApply_root {policy : RetentionPolicy} {planDigest : Sha256} (hroot : FileTree.Canonical t w.projectRoot)
    (h : checkApply hashing planDigest w plan t = .ok policy) : policy.root = w.projectRoot := by
  unfold checkApply at h
  obtain ⟨loaded, hloaded, h⟩ := bind_eq_ok.mp h
  obtain ⟨-, -, h⟩ := bind_eq_ok.mp h
  obtain ⟨-, -, h⟩ := bind_eq_ok.mp h
  obtain ⟨-, -, h⟩ := bind_eq_ok.mp h
  have hpolicy : loaded = policy := by
    split at h
    · simp only [bind_eq_ok, pure_eq_ok] at h
      obtain ⟨-, -, -, -, -, -, h⟩ := h
      exact h
    · simp only [bind_eq_ok, pure_eq_ok] at h
      obtain ⟨-, -, -, -, h⟩ := h
      exact h
  subst hpolicy
  obtain ⟨-, hresolve, -⟩ := loadRetentionPolicy_eq_ok hloaded
  exact Option.some.inj (hresolve.symm.trans (FileTree.resolve_canonical hroot))

/-- Applying a plan, whether it ends, raises or is cut off. -/
theorem applyRetentionPlan_triple (hapart : Apart w.projectRoot plan)
    (hplaced : ∀ action ∈ plan.actions, Placed before w.projectRoot action)
    (hroot : FileTree.Canonical before w.projectRoot) (hbundled : SoundPlaces w.projectRoot plan before) :
    Triple (Survives w.projectRoot plan before) (Survives w.projectRoot plan before)
      (applyRetentionPlan hashing temporaries plan.digest w plan)
      fun _ t => Survives w.projectRoot plan before t ∧ ∀ action ∈ plan.actions, Done w.projectRoot plan action t := by
  unfold applyRetentionPlan
  refine Triple.lookBind (fun policy t => policy.root = w.projectRoot ∧ Survives w.projectRoot plan before t)
    (fun t ht policy hpolicy => ⟨checkApply_root (hroot.of_links ht.links) hpolicy, ht⟩) fun policy => ?_
  refine Triple.given fun hpolicy => ?_
  have hloop := @Triple.foldlM Fault Files Action Applied (Survives w.projectRoot plan before) plan.actions
    (applyAction policy hashing temporaries plan.digest)
    (fun done t => Survives w.projectRoot plan before t ∧ ∀ action ∈ done, Done w.projectRoot plan action t)
    ⟨0, Stats.zero, []⟩ fun applied done action rest hrows => Triple.start fun s hs => by
      have haction : action ∈ plan.actions := hrows ▸ List.mem_append_right _ List.mem_cons_self
      have hplain : ∀ bundle, action.bundle? = some bundle →
          ∀ target, before.node? (evidencePath (destination w.projectRoot bundle)) ≠ some (.symlink target) :=
        fun bundle hbundle => hbundled.plain bundle (mem_bundles.mpr (bundle?_eq_some hbundle ▸ haction))
      refine (applyAction_triple hapart haction (hplaced action haction) hpolicy hplain applied).mono
        (fun t (ht : t = s) => ⟨ht, ht ▸ hs.1⟩) fun _ t ht => ⟨ht.survives, fun other hother => ?_⟩
      rcases List.mem_append.mp hother with hother | hother
      · have hpairs := hapart.actions
        rw [hrows] at hpairs
        exact done_frame (hs.2 other hother)
          ((List.pairwise_append.mp hpairs).2.2 other hother action List.mem_cons_self) ht.frame
      · obtain rfl := List.mem_singleton.mp hother
        exact ⟨fun q ⟨path, hpath, hq⟩ => ht.gone path hpath q hq, ht.bundled⟩
  exact hloop.mono (fun t ht => ⟨ht, fun _ h => (List.not_mem_nil h).elim⟩) fun _ _ h => h

/-- A tree that applying a plan to another one leaves if it is cut off there. -/
def Cut (w : World) (hashing : Hashing) (plan : Plan) (t u : Files) : Prop :=
  ∃ temporaries, u ∈ (applyRetentionPlan hashing temporaries plan.digest w plan t).1

end Histories

section Sample

def logData : FileData := ⟨1, 1, zeroSha256, none⟩

/-- The latest of the failed attempts has a log. -/
def loggedFiles : Files :=
  { entries := [(["runs"], .directory), (["runs", "staging"], .directory), (plainStaging 1, .directory),
      (plainStaging 2, .directory), (plainStaging 2 ++ ["a.log"], .file logData)]
    nodup := by decide
    named := by decide
    grounded := List.forall_mem_cons.mpr ⟨rfl, List.forall_mem_cons.mpr ⟨rfl, List.forall_mem_cons.mpr ⟨rfl,
      List.forall_mem_cons.mpr ⟨rfl, List.forall_mem_cons.mpr ⟨rfl, fun _ h => (List.not_mem_nil h).elim⟩⟩⟩⟩⟩ }

def loggedWorld : World := { plainWorld with files := loggedFiles }

/-- More than the length of any name in a tree. -/
def padding (t : Files) : Nat := (t.entries.map fun e => (e.1.getLast?.getD "").length).sum + 1

def longName (t : Files) (stem : String) : String := stem ++ String.ofList (List.replicate (padding t) 'x')

theorem longName_free (t : Files) (directory : Path) (stem : String) : t.node? (directory ++ [longName t stem]) = none := by
  rw [Option.eq_none_iff_forall_ne_some]
  intro node hnode
  have hentry := (FileTree.node?_eq_some (by simp)).mp hnode
  have hlast := List.single_le_sum (fun _ _ => Nat.zero_le _) _
    (List.mem_map_of_mem (f := fun e : Path × Node FileData => (e.1.getLast?.getD "").length) hentry)
  have hlength : (longName t stem).length = stem.length + padding t := by simp [longName]
  simp only [List.getLast?_concat, Option.getD_some, hlength, padding] at hlast
  omega

/-- Names longer than any other. -/
def longNames : Temporaries where
  pick t _ stem := longName t stem
  free := longName_free
  marked t _ stem := by simp [longName]

/-- What is asked of a plan before it is applied, for bundles whose places are free. -/
def Ready (plan : Plan) (t : Files) : Prop :=
  plan.actions.Pairwise (Action.ApartFrom []) ∧
    (∀ bundle ∈ plan.basis.collected.bundles, ∀ path ∈ bundle.sourcePaths, ¬Related ([] ++ path) (home [] bundle)) ∧
      ∀ bundle ∈ plan.basis.collected.bundles, t.node? (destination [] bundle) = none

instance decidableReady (plan : Plan) (t : Files) : Decidable (Ready plan t) := by unfold Ready; infer_instance

theorem logged_compiled : ∃ plan, compileRetentionPlan loggedWorld plainHashing plainRequest = .ok plan ∧
    Ready plan loggedFiles ∧ plan.basis.collected.bundles.map (·.evidenceFiles.map (·.relativePath)) = [[["a.log"]]] := by
  have h : (compileRetentionPlan loggedWorld plainHashing plainRequest).toOption.any fun plan => decide (Ready plan loggedFiles ∧
    plan.basis.collected.bundles.map (·.evidenceFiles.map (·.relativePath)) = [[["a.log"]]]) := by decide
  cases hcompiled : compileRetentionPlan loggedWorld plainHashing plainRequest with
  | error fault =>
    rw [hcompiled] at h
    cases h
  | ok plan =>
    rw [hcompiled] at h
    exact ⟨plan, rfl, of_decide_eq_true h⟩

end Sample

end FidbPoc.Retention
