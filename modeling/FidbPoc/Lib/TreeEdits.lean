import FidbPoc.Lib.Crash
import FidbPoc.Lib.Dict
import FidbPoc.Lib.FileTree
import Mathlib.Data.List.Infix

namespace FidbPoc.Lib.FileTree

open FidbPoc.Lib.Crash

variable {φ : Type} {t u : FileTree φ} {p q : Path} {node : Node φ}

theorem lookup_eq_some {entries : List (Path × Node φ)} (hnodup : (entries.map Prod.fst).Nodup) (hp : p ≠ []) :
    lookup entries p = some node ↔ (p, node) ∈ entries := by
  rw [lookup, if_neg hp]
  constructor
  · intro h
    obtain ⟨e, he, rfl⟩ := Option.map_eq_some_iff.mp h
    have hkey : e.1 = p := by simpa using List.find?_some he
    exact hkey ▸ List.mem_of_find?_eq_some he
  · intro h
    rw [Table.find?_key hnodup h]
    rfl

theorem lookup_congr {entries entries' : List (Path × Node φ)} (hnodup : (entries.map Prod.fst).Nodup)
    (hnodup' : (entries'.map Prod.fst).Nodup) (h : p ≠ [] → ∀ node, (p, node) ∈ entries ↔ (q, node) ∈ entries')
    (hroot : p = [] ↔ q = []) : lookup entries p = lookup entries' q := by
  by_cases hp : p = []
  · rw [hp, hroot.mp hp]
    rfl
  · have hq : q ≠ [] := fun hq => hp (hroot.mpr hq)
    refine Option.ext fun node => ?_
    rw [lookup_eq_some hnodup hp, lookup_eq_some hnodup' hq]
    exact h hp node

/-- Whether a place is a directory itself. -/
def holdsDirectory (t : FileTree φ) (p : Path) : Bool := (t.node? p).any Node.isDirectory

theorem holdsDirectory_iff : t.holdsDirectory p = true ↔ t.node? p = some .directory := by
  unfold holdsDirectory
  cases t.node? p with
  | none => simp
  | some node => cases node <;> simp [Node.isDirectory]

theorem node?_below_none (h : t.node? p = none) (hq : p <+: q) : t.node? q = none := by
  cases hnode : t.node? q with
  | none => rfl
  | some node =>
    by_cases hpq : p = q
    · rw [← hpq, h] at hnode
      cases hnode
    · rw [node?_above hnode hq hpq] at h
      cases h

section Removing

/-- A tree without a place and what is below it. -/
def remove (t : FileTree φ) (p : Path) : FileTree φ where
  entries := t.entries.filter fun e => ¬p <+: e.1
  nodup := t.nodup.sublist (List.filter_sublist.map _)
  named e he := t.named e (List.mem_of_mem_filter he)
  grounded e he := by
    obtain ⟨hmem, hapart⟩ := List.mem_filter.mp he
    have hparent := t.grounded e hmem
    by_cases hroot : e.1.dropLast = []
    · rw [hroot]
      rfl
    · rw [lookup_eq_some t.nodup hroot] at hparent
      rw [lookup_eq_some (t.nodup.sublist (List.filter_sublist.map _)) hroot, List.mem_filter]
      refine ⟨hparent, decide_eq_true fun h => ?_⟩
      exact of_decide_eq_true hapart (h.trans (List.dropLast_prefix e.1))

theorem node?_remove (q : Path) : (t.remove p).node? q = if q ≠ [] ∧ p <+: q then none else t.node? q := by
  by_cases hq : q = []
  · rw [if_neg fun h => h.1 hq, hq]
    rfl
  · refine Option.ext fun node => ?_
    rw [node?_eq_some hq]
    by_cases hp : p <+: q
    · rw [if_pos ⟨hq, hp⟩]
      refine iff_of_false (fun h => ?_) (by simp)
      exact of_decide_eq_true (List.mem_filter.mp h).2 hp
    · rw [if_neg fun h => hp h.2, node?_eq_some hq]
      exact ⟨List.mem_of_mem_filter, fun h => List.mem_filter.mpr ⟨h, decide_eq_true hp⟩⟩

/-- Remove a file, a link or an empty directory. -/
def removeLeaf (t : FileTree φ) (p : Path) : Option (FileTree φ) :=
  if p ≠ [] ∧ (t.node? p).isSome ∧ t.names p = [] then some (t.remove p) else none

theorem removeLeaf_eq_some (h : t.removeLeaf p = some u) : p ≠ [] ∧ u = t.remove p := by
  unfold removeLeaf at h
  split at h
  · rename_i hleaf
    exact ⟨hleaf.1, (Option.some.inj h).symm⟩
  · cases h

/-- What is at a place and below it, every place after those below it. -/
def postorder (t : FileTree φ) : Nat → Path → List Path
  | 0, p => [p]
  | depth + 1, p => ((t.names p).flatMap fun name => postorder t depth (p ++ [name])) ++ [p]

theorem postorder_below {depth : Nat} : ∀ r ∈ t.postorder depth p, p <+: r := by
  induction depth generalizing p with
  | zero => exact fun r hr => List.mem_singleton.mp hr ▸ List.prefix_rfl
  | succ depth ih =>
    intro r hr
    rcases List.mem_append.mp hr with hr | hr
    · obtain ⟨name, -, hr⟩ := List.mem_flatMap.mp hr
      exact (List.prefix_append p [name]).trans (ih r hr)
    · exact List.mem_singleton.mp hr ▸ List.prefix_rfl

theorem postorder_last (depth : Nat) : ∃ front, t.postorder depth p = front ++ [p] := by
  cases depth with
  | zero => exact ⟨[], rfl⟩
  | succ depth => exact ⟨_, rfl⟩

variable {ε : Type} (fault : Path → ε)

def unlink (p : Path) : Program ε (FileTree φ) Unit := edit fun t => (t.removeLeaf p).elim (.error (fault p)) .ok

/-- `shutil.rmtree`. -/
def rmtree (p : Path) : Program ε (FileTree φ) Unit := do
  let places ← look fun t : FileTree φ => .ok (t.postorder t.entries.length p)
  places.forM (unlink fault)

variable {fault} {inv : FileTree φ → Prop}

theorem unlink_triple {before : FileTree φ → Prop} (hbefore : ∀ t, before t → inv t)
    (hstep : ∀ t, inv t → inv (t.remove p)) :
    Triple inv before (unlink fault p) fun _ t => inv t ∧ ∀ q, p <+: q → t.node? q = none := by
  refine Triple.edit fun t ht u hu => ?_
  cases hremoved : t.removeLeaf p with
  | none =>
    rw [hremoved] at hu
    cases hu
  | some removed =>
    rw [hremoved] at hu
    obtain rfl := Except.ok.inj hu
    obtain ⟨hp, rfl⟩ := removeLeaf_eq_some hremoved
    have hinv := hstep t (hbefore t ht)
    refine ⟨hinv, hinv, fun q hq => ?_⟩
    rw [node?_remove, if_pos ⟨fun hnil => hp (List.prefix_nil.mp (hnil ▸ hq)), hq⟩]

/-- Removing a directory keeps what removing any place of it keeps, and leaves nothing there. -/
theorem rmtree_triple {before : FileTree φ → Prop} (hbefore : ∀ t, before t → inv t)
    (hstep : ∀ t r, inv t → p <+: r → inv (t.remove r)) :
    Triple inv before (rmtree fault p) fun _ t => inv t ∧ ∀ q, p <+: q → t.node? q = none := by
  refine Triple.lookBind (fun places t => inv t ∧ (∀ r ∈ places, p <+: r) ∧ ∃ front, places = front ++ [p])
    (fun t ht places hplaces => ?_) fun places => ?_
  · obtain rfl := Except.ok.inj hplaces
    exact ⟨hbefore t ht, postorder_below, postorder_last _⟩
  · by_cases hplaces : (∀ r ∈ places, p <+: r) ∧ ∃ front, places = front ++ [p]
    · obtain ⟨hbelow, front, hfront⟩ := hplaces
      have hloop := @Triple.forM ε (FileTree φ) Path inv places (unlink fault)
        (fun done t => inv t ∧ ∀ r, done.getLast? = some r → ∀ q, r <+: q → t.node? q = none) fun done r rest hrest => by
          refine (unlink_triple (fun t (ht : inv t ∧ _) => ht.1) fun t ht => hstep t r ht ?_).mono (fun _ h => h) ?_
          · exact hbelow r (hrest ▸ List.mem_append_right _ List.mem_cons_self)
          · rintro _ t ⟨ht, hgone⟩
            refine ⟨ht, fun r' hr' => ?_⟩
            rw [List.getLast?_concat] at hr'
            exact Option.some.inj hr' ▸ hgone
      refine hloop.mono (fun t ht => ⟨ht.1, fun r hr => by cases hr⟩) ?_
      rintro _ t ⟨ht, hgone⟩
      exact ⟨ht, hgone p (by rw [hfront, List.getLast?_concat])⟩
    · exact ⟨fun t ht => absurd ht.2 hplaces, fun t ht => absurd ht.2 hplaces⟩

end Removing

section Placing

/-- Whether a node can be put at a place: not over a directory, and in one. -/
def Placeable (t : FileTree φ) (p : Path) : Prop :=
  p ≠ [] ∧ (∀ part ∈ p, IsName part) ∧ t.holdsDirectory p.dropLast = true ∧ t.holdsDirectory p = false

instance decidablePlaceable (t : FileTree φ) (p : Path) : Decidable (t.Placeable p) := inferInstanceAs (Decidable (_ ∧ _ ∧ _ ∧ _))

theorem lookup_assign (hp : p ≠ []) (entries : List (Path × Node φ)) (q : Path) :
    lookup (Dict.assign p node entries) q = if q = p then some node else lookup entries q := by
  by_cases hq : q = []
  · rw [if_neg fun h => hp (h.symm.trans hq), hq]
    rfl
  · rw [lookup, if_neg hq, Dict.find?_assign, lookup, if_neg hq]

theorem mem_assign {entries : List (Path × Node φ)} {e : Path × Node φ} (h : e ∈ Dict.assign p node entries) :
    e = (p, node) ∨ e ∈ entries := by
  induction entries with
  | nil => exact .inl (List.mem_singleton.mp h)
  | cons other entries ih =>
    unfold Dict.assign at h
    split at h
    · rcases List.mem_cons.mp h with h | h
      · exact .inl h
      · exact .inr (List.mem_cons_of_mem _ h)
    · rcases List.mem_cons.mp h with h | h
      · exact .inr (h ▸ List.mem_cons_self)
      · exact (ih h).imp_right (List.mem_cons_of_mem _)

/-- Put a node at a place. -/
def put (t : FileTree φ) (p : Path) (node : Node φ) : Option (FileTree φ) :=
  if h : t.Placeable p then
    some
      { entries := Dict.assign p node t.entries
        nodup := Dict.nodup_assign p node t.nodup
        named := fun e he => (mem_assign he).elim (fun he => he ▸ ⟨h.1, h.2.1⟩) (t.named e)
        grounded := fun e he => by
          have hparent : t.node? e.1.dropLast = some .directory := (mem_assign he).elim
            (fun he => he ▸ holdsDirectory_iff.mp h.2.2.1) (t.grounded e)
          rw [lookup_assign h.1, if_neg]
          · exact hparent
          · intro heq
            rw [heq, ← holdsDirectory_iff, h.2.2.2] at hparent
            cases hparent }
  else none

theorem put_eq_some (h : t.put p node = some u) : t.Placeable p ∧ ∀ q, u.node? q = if q = p then some node else t.node? q := by
  unfold put at h
  split at h
  · rename_i hplaceable
    obtain rfl := Option.some.inj h
    exact ⟨hplaceable, lookup_assign hplaceable.1 t.entries⟩
  · cases h

/-- `mkdir` of one place, where a directory may stand already. -/
def makeDirectory (t : FileTree φ) (p : Path) : Option (FileTree φ) :=
  match t.node? p with
  | none => t.put p .directory
  | some .directory => some t
  | some _ => none

theorem makeDirectory_eq_some (h : t.makeDirectory p = some u) (q : Path) :
    u.node? q = if q = p ∧ t.node? q = none then some .directory else t.node? q := by
  unfold makeDirectory at h
  split at h
  · rename_i hnone
    rw [(put_eq_some h).2 q]
    by_cases hq : q = p
    · rw [if_pos hq, if_pos ⟨hq, hq ▸ hnone⟩]
    · rw [if_neg hq, if_neg fun h => hq h.1]
  · rename_i hdirectory
    obtain rfl := Option.some.inj h
    rw [if_neg]
    rintro ⟨rfl, hnone⟩
    rw [hdirectory] at hnone
    cases hnone
  · cases h

variable {ε : Type} (fault : Path → ε)

def mkdir (p : Path) : Program ε (FileTree φ) Unit := edit fun t => (t.makeDirectory p).elim (.error (fault p)) .ok

/-- `mkdir(parents=True, exist_ok=True)`, one place after the other. -/
def mkdirs (p : Path) : Program ε (FileTree φ) Unit := p.inits.forM (mkdir fault)

variable {fault} {inv : FileTree φ → Prop}

/-- Making directories keeps what making a missing one keeps. -/
theorem mkdirs_triple (hstep : ∀ t u r, inv t → r <+: p → t.makeDirectory r = some u → inv u) :
    Triple inv inv (mkdirs fault p) fun _ t => inv t := by
  refine @Triple.forM ε (FileTree φ) Path inv p.inits (mkdir fault) (fun _ t => inv t) fun done r rest hrest =>
    Triple.edit fun t ht u hu => ?_
  have hr : r <+: p := (List.mem_inits r p).mp (hrest ▸ List.mem_append_right _ List.mem_cons_self)
  cases hmade : t.makeDirectory r with
  | none =>
    rw [hmade] at hu
    cases hu
  | some made =>
    rw [hmade] at hu
    obtain rfl := Except.ok.inj hu
    have hinv := hstep t made r ht hr hmade
    exact ⟨hinv, hinv⟩

end Placing

section Moving

/-- Where a place stands after one directory took another name. -/
def rebase (source target p : Path) : Path := if source <+: p then target ++ p.drop source.length else p

/-- Whether a directory can take a free name. -/
def Movable (t : FileTree φ) (source target : Path) : Prop :=
  source ≠ [] ∧ target ≠ [] ∧ (∀ part ∈ target, IsName part) ∧ (t.node? target).isNone = true ∧
    t.holdsDirectory target.dropLast = true ∧ ¬source <+: target

instance decidableMovable (t : FileTree φ) (source target : Path) : Decidable (t.Movable source target) :=
  inferInstanceAs (Decidable (_ ∧ _ ∧ _ ∧ _ ∧ _ ∧ _))

variable {source target : Path}

theorem rebase_source (rest : Path) : rebase source target (source ++ rest) = target ++ rest := by
  rw [rebase, if_pos (List.prefix_append source rest), List.drop_left]

theorem rebase_apart (h : ¬source <+: p) : rebase source target p = p := if_neg h

theorem Movable.free (h : t.Movable source target) (hp : target <+: p) : t.node? p = none :=
  node?_below_none (Option.isNone_iff_eq_none.mp h.2.2.2.1) hp

theorem Movable.entry_apart (h : t.Movable source target) {e : Path × Node φ} (he : e ∈ t.entries) : ¬target <+: e.1 := by
  intro hbelow
  have hnone := h.free hbelow
  rw [node?_of_mem he] at hnone
  cases hnone

theorem rebase_inj (h : t.Movable source target) {e e' : Path × Node φ} (he : e ∈ t.entries) (he' : e' ∈ t.entries)
    (heq : rebase source target e.1 = rebase source target e'.1) : e.1 = e'.1 := by
  by_cases hs : source <+: e.1
  · by_cases hs' : source <+: e'.1
    · obtain ⟨rest, hrest⟩ := hs
      obtain ⟨rest', hrest'⟩ := hs'
      rw [← hrest, ← hrest', rebase_source, rebase_source] at heq
      rw [← hrest, ← hrest', List.append_cancel_left heq]
    · rw [rebase, if_pos hs, rebase_apart hs'] at heq
      exact absurd ⟨_, heq⟩ (h.entry_apart he')
  · by_cases hs' : source <+: e'.1
    · rw [rebase_apart hs, rebase, if_pos hs'] at heq
      exact absurd ⟨_, heq.symm⟩ (h.entry_apart he)
    · rwa [rebase_apart hs, rebase_apart hs'] at heq

def rebased (t : FileTree φ) (source target : Path) : List (Path × Node φ) :=
  t.entries.map fun e => (rebase source target e.1, e.2)

theorem rebased_nodup (h : t.Movable source target) : ((t.rebased source target).map Prod.fst).Nodup := by
  have hkeys : (t.rebased source target).map Prod.fst = (t.entries.map Prod.fst).map (rebase source target) := by
    rw [rebased, List.map_map, List.map_map]
    rfl
  rw [hkeys]
  refine List.Nodup.map_on (fun a ha b hb heq => ?_) t.nodup
  obtain ⟨e, he, rfl⟩ := List.mem_map.mp ha
  obtain ⟨e', he', rfl⟩ := List.mem_map.mp hb
  exact rebase_inj h he he' heq

theorem mem_rebased_target (h : t.Movable source target) (rest : Path) :
    (target ++ rest, node) ∈ t.rebased source target ↔ (source ++ rest, node) ∈ t.entries := by
  constructor
  · intro hmem
    obtain ⟨e, he, heq⟩ := List.mem_map.mp hmem
    obtain ⟨hplace, hnode⟩ := Prod.mk.inj heq
    by_cases hs : source <+: e.1
    · obtain ⟨rest', hrest'⟩ := hs
      rw [← hrest', rebase_source] at hplace
      have hentry : e = (source ++ rest, node) := Prod.ext (by rw [← hrest', List.append_cancel_left hplace]) hnode
      exact hentry ▸ he
    · rw [rebase_apart hs] at hplace
      exact absurd ⟨rest, hplace.symm⟩ (h.entry_apart he)
  · intro hmem
    refine List.mem_map.mpr ⟨_, hmem, ?_⟩
    rw [rebase_source]

theorem mem_rebased_apart (hsource : ¬source <+: p) (htarget : ¬target <+: p) :
    (p, node) ∈ t.rebased source target ↔ (p, node) ∈ t.entries := by
  constructor
  · intro hmem
    obtain ⟨e, he, heq⟩ := List.mem_map.mp hmem
    obtain ⟨hplace, hnode⟩ := Prod.mk.inj heq
    by_cases hs : source <+: e.1
    · rw [rebase, if_pos hs] at hplace
      exact absurd ⟨_, hplace⟩ htarget
    · rw [rebase_apart hs] at hplace
      exact hplace ▸ hnode ▸ he
  · intro hmem
    refine List.mem_map.mpr ⟨_, hmem, ?_⟩
    rw [rebase_apart hsource]

theorem lookup_rebased_target (h : t.Movable source target) (rest : Path) :
    lookup (t.rebased source target) (target ++ rest) = t.node? (source ++ rest) := by
  refine lookup_congr (rebased_nodup h) t.nodup (fun _ _ => mem_rebased_target h rest) ?_
  simp [h.1, h.2.1]

theorem lookup_rebased_source (h : t.Movable source target) (hsource : source <+: p) (htarget : ¬target <+: p) :
    lookup (t.rebased source target) p = none := by
  have hp : p ≠ [] := fun hnil => h.1 (List.prefix_nil.mp (hnil ▸ hsource))
  cases hnode : lookup (t.rebased source target) p with
  | none => rfl
  | some node =>
    obtain ⟨e, -, heq⟩ := List.mem_map.mp ((lookup_eq_some (rebased_nodup h) hp).mp hnode)
    obtain ⟨hplace, -⟩ := Prod.mk.inj heq
    by_cases hs : source <+: e.1
    · rw [rebase, if_pos hs] at hplace
      exact absurd ⟨_, hplace⟩ htarget
    · rw [rebase_apart hs] at hplace
      exact absurd (hplace ▸ hsource) hs

theorem lookup_rebased_apart (h : t.Movable source target) (hsource : ¬source <+: p) (htarget : ¬target <+: p) :
    lookup (t.rebased source target) p = t.node? p :=
  lookup_congr (rebased_nodup h) t.nodup (fun _ _ => mem_rebased_apart hsource htarget) Iff.rfl

/-- `os.replace` of a directory to a free name. -/
def move (t : FileTree φ) (source target : Path) : Option (FileTree φ) :=
  if h : t.Movable source target then
    some
      { entries := t.rebased source target
        nodup := rebased_nodup h
        named := fun e he => by
          obtain ⟨e', he', rfl⟩ := List.mem_map.mp he
          by_cases hs : source <+: e'.1
          · obtain ⟨rest, hrest⟩ := hs
            rw [← hrest, rebase_source]
            refine ⟨by simp [h.2.1], fun part hpart => ?_⟩
            rcases List.mem_append.mp hpart with hpart | hpart
            · exact h.2.2.1 part hpart
            · exact (t.named e' he').2 part (hrest ▸ List.mem_append_right _ hpart)
          · rw [rebase_apart hs]
            exact t.named e' he'
        grounded := fun e he => by
          obtain ⟨e', he', rfl⟩ := List.mem_map.mp he
          have hparent := t.grounded e' he'
          by_cases hs : source <+: e'.1
          · obtain ⟨rest, hrest⟩ := hs
            rw [← hrest, rebase_source]
            by_cases hempty : rest = []
            · rw [hempty, List.append_nil, lookup_rebased_apart h]
              · exact holdsDirectory_iff.mp h.2.2.2.2.1
              · exact fun hbelow => h.2.2.2.2.2 (hbelow.trans (List.dropLast_prefix target))
              · intro hbelow
                have hlength : target.length ≤ target.dropLast.length := hbelow.length_le
                rw [List.length_dropLast] at hlength
                have hpos := List.length_pos_iff.mpr h.2.1
                omega
            · rw [← hrest, List.dropLast_append_of_ne_nil hempty] at hparent
              rw [List.dropLast_append_of_ne_nil hempty, lookup_rebased_target h]
              exact hparent
          · rw [rebase_apart hs, lookup_rebased_apart h]
            · exact hparent
            · exact fun hbelow => hs (hbelow.trans (List.dropLast_prefix e'.1))
            · exact fun hbelow => h.entry_apart he' (hbelow.trans (List.dropLast_prefix e'.1)) }
  else none

/-- What is at a place after a directory took another name. -/
theorem move_eq_some (h : t.move source target = some u) : t.Movable source target ∧
    (∀ rest, u.node? (target ++ rest) = t.node? (source ++ rest)) ∧
    (∀ p, source <+: p → ¬target <+: p → u.node? p = none) ∧
    ∀ p, ¬source <+: p → ¬target <+: p → u.node? p = t.node? p := by
  unfold move at h
  split at h
  · rename_i hmovable
    obtain rfl := Option.some.inj h
    exact ⟨hmovable, lookup_rebased_target hmovable, fun _ => lookup_rebased_source hmovable,
      fun _ => lookup_rebased_apart hmovable⟩
  · cases h

end Moving

section Following

/-- A path is followed as before where no link is new. -/
theorem Canonical.of_links (h : Canonical t p)
    (hlinks : ∀ q target, u.node? q = some (.symlink target) → t.node? q = some (.symlink target)) : Canonical u p := by
  refine ⟨h.named, fun q hq => link?_eq_none.mpr fun target hmem => ?_⟩
  have hlink := hlinks q target (node?_of_mem hmem)
  have hroot : q ≠ [] := (u.named _ hmem).1
  exact link?_eq_none.mp (h.linkFree q hq) target ((node?_eq_some hroot).mp hlink)

theorem Canonical.concat (h : Canonical t p) {part : String} (hpart : IsName part)
    (hlink : ∀ target, t.node? (p ++ [part]) ≠ some (.symlink target)) : Canonical t (p ++ [part]) := by
  refine ⟨List.forall_mem_append.mpr ⟨h.named, List.forall_mem_singleton.mpr hpart⟩, fun q hq => ?_⟩
  rcases List.prefix_concat_iff.mp hq with rfl | hq
  · exact link?_eq_none.mpr fun target hmem => hlink target (node?_of_mem hmem)
  · exact h.linkFree q hq

theorem Canonical.not_link (h : Canonical t p) (hq : q <+: p) (target : Target) : t.node? q ≠ some (.symlink target) := by
  intro hnode
  by_cases hroot : q = []
  · rw [hroot, node?_nil] at hnode
    cases hnode
  · exact link?_eq_none.mp (h.linkFree q hq) target ((node?_eq_some hroot).mp hnode)

/-- A path of proper names on whose way stands no link. -/
theorem canonical_of_names (hnamed : ∀ part ∈ p, IsName part)
    (hlinks : ∀ q, q <+: p → ∀ target, t.node? q ≠ some (.symlink target)) : Canonical t p :=
  ⟨hnamed, fun q hq => link?_eq_none.mpr fun target hmem => hlinks q hq target (node?_of_mem hmem)⟩

end Following

end FidbPoc.Lib.FileTree
