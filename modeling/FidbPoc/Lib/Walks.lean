import FidbPoc.Lib.Files

namespace FidbPoc.Lib.Walks

open FileTree

variable {φ : Type}

/-- The way that the names of a text lead from a place in a tree: every place on it is there, and
no step back leaves the tree. -/
inductive Leads (node? : Path → Option (Node φ)) : Path → List String → Path → Prop
  | here (p : Path) : Leads node? p [] p
  | stay {p q : Path} {part : String} {rest : List String} (hpart : part = "" ∨ part = ".") :
      Leads node? p rest q → Leads node? p (part :: rest) q
  | back {p q : Path} {name : String} {rest : List String} :
      Leads node? p rest q → Leads node? (p ++ [name]) (".." :: rest) q
  | enter {p q : Path} {part : String} {rest : List String} {node : Node φ} (hpart : IsName part)
      (hnode : node? (p ++ [part]) = some node) (hplain : node.target? = none) :
      Leads node? (p ++ [part]) rest q → Leads node? p (part :: rest) q
  | follow {p mid q : Path} {part : String} {rest : List String} {target : Target} (hpart : IsName part)
      (hnode : node? (p ++ [part]) = some (.symlink target)) (hrelative : target.absolute = false) :
      Leads node? p target.parts mid → Leads node? mid rest q → Leads node? p (part :: rest) q

theorem Leads.mono {node? node?' : Path → Option (Node φ)} {p q : Path} {parts : List String} (h : Leads node? p parts q)
    (hmore : ∀ p node, node? p = some node → node?' p = some node) : Leads node?' p parts q := by
  induction h with
  | here p => exact .here p
  | stay hpart _ ih => exact .stay hpart ih
  | back _ ih => exact .back ih
  | enter hpart hnode hplain _ ih => exact .enter hpart (hmore _ _ hnode) hplain ih
  | follow hpart hnode hrelative _ _ ih ih' => exact .follow hpart (hmore _ _ hnode) hrelative ih ih'

/-- Whether a text steps back only at its beginning, and not farther than so many levels. -/
def staysWithin : Nat → List String → Bool
  | _, [] => true
  | depth, part :: rest =>
    if part = "" ∨ part = "." then staysWithin depth rest
    else if part = ".." then
      match depth with
      | 0 => false
      | depth + 1 => staysWithin depth rest
    else decide (".." ∉ rest)

variable {files : Files φ} {top : Path}

/-- A tree below a place: entries stand in directories, and links are relative and stay within it. -/
structure Steady (files : Files φ) (top : Path) : Prop where
  grounded : ∀ rel, rel ≠ [] → (files.get? (top ++ rel)).isSome → files.get? (top ++ rel.dropLast) = some .directory
  links : ∀ rel target, files.get? (top ++ rel) = some (.symlink target) →
    rel ≠ [] ∧ target.absolute = false ∧ staysWithin rel.dropLast.length target.parts = true

variable {visit : Path → List String → Option Path} {base r : Path} {parts : List String}

theorem follow_name {part : String} (hpart : IsName part) (current : Path) : follow files.links visit current part =
    match (files.get? (current ++ [part])).bind Node.target? with
    | none => some (current ++ [part])
    | some target => visit (if target.absolute then [] else current) target.parts := by
  have hchoice := congrArg (fun found : Option Target => match found with
    | none => some (current ++ [part])
    | some target => visit (if target.absolute then [] else current) target.parts)
    (Files.link?_links : link? files.links (current ++ [part]) = _)
  exact (if_neg (not_or.mpr ⟨hpart.1, hpart.2.1⟩)).trans ((if_neg hpart.2.2).trans hchoice)

theorem follow_stay {part : String} (hpart : part = "" ∨ part = ".") (current : Path) :
    follow files.links visit current part = some current := by
  rw [follow, if_pos hpart]

theorem isName_of {part : String} (hstay : ¬(part = "" ∨ part = ".")) (hback : part ≠ "..") : IsName part :=
  ⟨fun h => hstay (.inl h), fun h => hstay (.inr h), hback⟩

/-- Below a place that is missing nothing is there. -/
theorem foldlM_missing (hsteady : Steady files top) (hmissing : files.get? (top ++ base) = none) (hparts : ".." ∉ parts)
    (h : parts.foldlM (follow files.links visit) (top ++ base) = some r) :
    ∃ rel, r = top ++ rel ∧ files.get? r = none := by
  induction parts generalizing base with
  | nil =>
    obtain rfl := Option.some.inj h
    exact ⟨base, rfl, hmissing⟩
  | cons part parts ih =>
    obtain ⟨hback, hparts⟩ := not_or.mp (List.mem_cons.not.mp hparts)
    rw [List.foldlM_cons] at h
    by_cases hstay : part = "" ∨ part = "."
    · rw [follow_stay hstay] at h
      exact ih hmissing hparts h
    · have hbelow : files.get? (top ++ (base ++ [part])) = none := by
        by_contra hsome
        have hdirectory := hsteady.grounded (base ++ [part]) (by simp) (Option.isSome_iff_ne_none.mpr hsome)
        rw [List.dropLast_concat, hmissing] at hdirectory
        cases hdirectory
      rw [follow_name (isName_of hstay (Ne.symm hback)), List.append_assoc, hbelow] at h
      exact ih hbelow hparts h

/-- What resolving has found lies below the place, and the way to it leads there. -/
def Found (files : Files φ) (top base : Path) (parts : List String) (r : Path) : Prop :=
  ∃ rel, r = top ++ rel ∧ ((files.get? r).isSome → Leads (fun p => files.get? (top ++ p)) base parts rel)

theorem foldlM_onward (hsteady : Steady files top)
    (hvisit : ∀ base parts r, staysWithin base.length parts = true → visit (top ++ base) parts = some r →
      Found files top base parts r) (hparts : ".." ∉ parts)
    (h : parts.foldlM (follow files.links visit) (top ++ base) = some r) : Found files top base parts r := by
  induction parts generalizing base with
  | nil =>
    obtain rfl := Option.some.inj h
    exact ⟨base, rfl, fun _ => .here base⟩
  | cons part parts ih =>
    obtain ⟨hback, hparts⟩ := not_or.mp (List.mem_cons.not.mp hparts)
    rw [List.foldlM_cons] at h
    by_cases hstay : part = "" ∨ part = "."
    · rw [follow_stay hstay] at h
      obtain ⟨rel, hrel, hleads⟩ := ih hparts h
      exact ⟨rel, hrel, fun hsome => .stay hstay (hleads hsome)⟩
    · have hname := isName_of hstay (Ne.symm hback)
      rw [follow_name hname, List.append_assoc] at h
      cases hnode : files.get? (top ++ (base ++ [part])) with
      | none =>
        rw [hnode] at h
        obtain ⟨rel, hrel, hnone⟩ := foldlM_missing hsteady hnode hparts h
        exact ⟨rel, hrel, fun hsome => by rw [hnone] at hsome; cases hsome⟩
      | some node =>
        cases htarget : node.target? with
        | none =>
          rw [hnode, Option.bind_some, htarget] at h
          obtain ⟨rel, hrel, hleads⟩ := ih hparts h
          exact ⟨rel, hrel, fun hsome => .enter hname hnode htarget (hleads hsome)⟩
        | some target =>
          have hlink : node = .symlink target := by
            cases node with
            | symlink found => exact congrArg Node.symlink (Option.some.inj htarget)
            | file content => cases htarget
            | directory => cases htarget
            | special => cases htarget
          subst hlink
          obtain ⟨-, hrelative, hwithin⟩ := hsteady.links (base ++ [part]) target hnode
          rw [List.dropLast_concat] at hwithin
          rw [hnode, Option.bind_some, htarget] at h
          simp only [hrelative, Bool.false_eq_true, if_false] at h
          obtain ⟨mid, hmid, h⟩ := Option.bind_eq_some_iff.mp h
          obtain ⟨m, rfl, hled⟩ := hvisit base target.parts mid hwithin hmid
          cases hmidNode : files.get? (top ++ m) with
          | none =>
            obtain ⟨rel, hrel, hnone⟩ := foldlM_missing hsteady hmidNode hparts h
            exact ⟨rel, hrel, fun hsome => by rw [hnone] at hsome; cases hsome⟩
          | some found =>
            obtain ⟨rel, hrel, hleads⟩ := ih hparts h
            refine ⟨rel, hrel, fun hsome => ?_⟩
            exact .follow hname hnode hrelative (hled (by rw [hmidNode]; rfl)) (hleads hsome)

theorem foldlM_within (hsteady : Steady files top)
    (hvisit : ∀ base parts r, staysWithin base.length parts = true → visit (top ++ base) parts = some r →
      Found files top base parts r) (hparts : staysWithin base.length parts = true)
    (h : parts.foldlM (follow files.links visit) (top ++ base) = some r) : Found files top base parts r := by
  induction parts generalizing base with
  | nil => exact foldlM_onward hsteady hvisit (List.not_mem_nil) h
  | cons part parts ih =>
    unfold staysWithin at hparts
    by_cases hstay : part = "" ∨ part = "."
    · rw [if_pos hstay] at hparts
      rw [List.foldlM_cons, follow_stay hstay] at h
      obtain ⟨rel, hrel, hleads⟩ := ih hparts h
      exact ⟨rel, hrel, fun hsome => .stay hstay (hleads hsome)⟩
    · rw [if_neg hstay] at hparts
      by_cases hback : part = ".."
      · subst hback
        rw [if_pos rfl] at hparts
        rcases List.eq_nil_or_concat' base with rfl | ⟨parent, name, rfl⟩
        · cases hparts
        · rw [List.length_append, List.length_singleton] at hparts
          rw [List.foldlM_cons, follow, if_neg hstay, if_pos rfl, ← List.append_assoc, List.dropLast_concat] at h
          obtain ⟨rel, hrel, hleads⟩ := ih hparts h
          exact ⟨rel, hrel, fun hsome => .back (hleads hsome)⟩
      · rw [if_neg hback] at hparts
        refine foldlM_onward hsteady hvisit ?_ h
        rw [List.mem_cons, not_or]
        exact ⟨Ne.symm hback, of_decide_eq_true hparts⟩

/-- In a steady tree a text that stays within it is resolved to a place in the tree, and when that is
there the way leads to it. -/
theorem found_resolveFrom (hsteady : Steady files top) {depth : Nat} (hparts : staysWithin base.length parts = true)
    (h : resolveFrom files.links depth (top ++ base) parts = some r) : Found files top base parts r := by
  induction depth generalizing base parts r with
  | zero => exact foldlM_within hsteady (fun _ _ _ _ h => by cases h) hparts h
  | succ depth ih => exact foldlM_within hsteady (fun _ _ _ hparts h => ih hparts h) hparts h

end FidbPoc.Lib.Walks
