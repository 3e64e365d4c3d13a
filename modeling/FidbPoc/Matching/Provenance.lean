import FidbPoc.Matching.Engines
import Mathlib.Algebra.Order.Ring.Nat
import Mathlib.Data.Finset.Card

namespace FidbPoc.Matching

open FidbPoc.Lib FidbPoc.Lib.Checked

variable {κ : Type} [LinearOrder κ]

section components

theorem mem_sortedUnion {left right : List Nat} {c : Nat} : c ∈ sortedUnion left right ↔ c ∈ left ∨ c ∈ right := by
  rw [sortedUnion, (List.perm_insertionSort _ _).mem_iff, List.mem_dedup, List.mem_union_iff]

theorem sortedUnion_ascending (left right : List Nat) : (sortedUnion left right).Pairwise (· < ·) := by
  have hsorted := List.pairwise_insertionSort (· ≤ ·) (left ∪ right).dedup
  have hnodup : (sortedUnion left right).Nodup :=
    (List.perm_insertionSort _ _).nodup_iff.mpr (List.nodup_dedup _)
  exact hsorted.imp₂ (fun _ _ hle hne => lt_of_le_of_ne hle hne) hnodup

end components

section award

/-- What is listed of one candidate id: nothing if no component reached the top score with it, else the
sorted components that did. -/
def Entry (reached : Nat → Prop) (top : κ) (id : String) : Option (PopulationMatch κ) → Prop
  | none => ∀ c, ¬reached c
  | some found => found.candidateId = id ∧ found.score = top ∧ (∃ c, reached c) ∧
      ∃ components, found.referenceComponents = some components ∧ components.Pairwise (· < ·) ∧
        ∀ c, c ∈ components ↔ reached c

/-- The top score and the matches of one function, where `reached id s c` says that a row of component `c`
has scored `s` with the candidate id `id`. -/
structure Holds (reached : String → κ → Nat → Prop) (top : κ) (found : Dict String (PopulationMatch κ)) :
    Prop where
  attained : ∃ id c, reached id top c
  highest : ∀ id s c, reached id s c → s ≤ top
  entry : ∀ id, Entry (reached id top) top id (found.get? id)

def Tracks (reached : String → κ → Nat → Prop) : Option (κ × Dict String (PopulationMatch κ)) → Prop
  | none => ∀ id s c, ¬reached id s c
  | some (top, found) => Holds reached top found

variable {reached reached' : String → κ → Nat → Prop} {top : κ} {found : Dict String (PopulationMatch κ)}
  {winner : Option (κ × Dict String (PopulationMatch κ))} {id : String}

theorem Tracks.congr (h : Tracks reached winner) (hiff : ∀ id s c, reached' id s c ↔ reached id s c) :
    Tracks reached' winner := by
  have heq : reached' = reached := by
    funext id s c
    exact propext (hiff id s c)
  exact heq ▸ h

/-- One entry is written anew, the others say what they said. -/
theorem holds_set {listed : PopulationMatch κ} (hhighest : ∀ id s c, reached id s c → s ≤ top)
    (hlisted : Entry (reached id top) top id (some listed))
    (hothers : ∀ id', id' ≠ id → Entry (reached id' top) top id' (found.get? id')) :
    Holds reached top (found.set id listed) := by
  refine ⟨⟨id, hlisted.2.2.1⟩, hhighest, fun id' => ?_⟩
  rw [Dict.get?_set]
  split
  · rename_i hid
    exact hid ▸ hlisted
  · rename_i hid
    exact hothers id' hid

/-- The relation after a batch entry has been scored. -/
def scoredBy (candidate : StreamCandidate) (score : κ) (id : String) (s : κ) (c : Nat) : Prop :=
  candidate.candidate.candidateId = id ∧ score = s ∧ c ∈ candidate.referenceComponents

omit [LinearOrder κ] in
theorem scoredBy_self {candidate : StreamCandidate} {score : κ} {c : Nat} :
    scoredBy candidate score candidate.candidate.candidateId score c ↔ c ∈ candidate.referenceComponents := by
  simp [scoredBy]

/-- The match that a batch entry enters with. -/
def entering (candidate : StreamCandidate) (score : κ) : PopulationMatch κ :=
  ⟨candidateMatch candidate.candidate score, some (sortedUnion candidate.referenceComponents [])⟩

/-- An entry alone at the top. -/
theorem holds_entering {candidate : StreamCandidate} {score : κ} (hne : ∃ c, c ∈ candidate.referenceComponents)
    (hbelow : ∀ id s c, reached id s c → s < score) :
    Holds (fun id s c => reached id s c ∨ scoredBy candidate score id s c) score
      (Dict.empty.set candidate.candidate.candidateId (entering candidate score)) := by
  have hold : ∀ id c, ¬reached id score c := fun id c h => lt_irrefl _ (hbelow id score c h)
  refine holds_set ?_ ⟨rfl, rfl, ?_, _, rfl, sortedUnion_ascending _ _, fun c => ?_⟩ ?_
  · rintro id s c (h | ⟨-, rfl, -⟩)
    · exact (hbelow id s c h).le
    · exact le_rfl
  · obtain ⟨c, hc⟩ := hne
    exact ⟨c, .inr (scoredBy_self.mpr hc)⟩
  · simp [mem_sortedUnion, scoredBy, hold]
  · rintro id hid c (h | ⟨h, -, -⟩)
    · exact hold id c h
    · exact hid h.symm

/-- An entry that scores less than the top changes nothing. -/
theorem Holds.lower {candidate : StreamCandidate} {score : κ} (h : Holds reached top found) (hlt : score < top) :
    Holds (fun id s c => reached id s c ∨ scoredBy candidate score id s c) top found := by
  have htop : ∀ id, (fun c => reached id top c ∨ scoredBy candidate score id top c) = reached id top := by
    intro id
    funext c
    have hnot : ¬scoredBy candidate score id top c := fun hs => hlt.ne hs.2.1
    simp [hnot]
  obtain ⟨id, c, hreached⟩ := h.attained
  refine ⟨⟨id, c, .inl hreached⟩, ?_, fun id => ?_⟩
  · rintro id s c (hs | ⟨-, rfl, -⟩)
    · exact h.highest id s c hs
    · exact hlt.le
  · exact (htop id).symm ▸ h.entry id

/-- An entry that scores as much as the top joins it. -/
theorem Holds.join {candidate : StreamCandidate} (h : Holds reached top found)
    (hne : ∃ c, c ∈ candidate.referenceComponents) {listed : PopulationMatch κ} {components : List Nat}
    (hid : listed.candidateId = candidate.candidate.candidateId) (hscore : listed.score = top)
    (hcomponents : listed.referenceComponents = some components) (hsorted : components.Pairwise (· < ·))
    (hmem : ∀ c, c ∈ components ↔ reached candidate.candidate.candidateId top c ∨ c ∈ candidate.referenceComponents) :
    Holds (fun id s c => reached id s c ∨ scoredBy candidate top id s c) top
      (found.set candidate.candidate.candidateId listed) := by
  refine holds_set ?_ ⟨hid, hscore, ?_, components, hcomponents, hsorted, fun c => ?_⟩ ?_
  · rintro id s c (hs | ⟨-, rfl, -⟩)
    · exact h.highest id s c hs
    · exact le_rfl
  · obtain ⟨c, hc⟩ := hne
    exact ⟨c, .inr (scoredBy_self.mpr hc)⟩
  · exact (hmem c).trans (or_congr_right scoredBy_self.symm)
  · intro id' hne'
    have hsame : (fun c => reached id' top c ∨ scoredBy candidate top id' top c) = reached id' top := by
      funext c
      have hnot : ¬scoredBy candidate top id' top c := fun hs => hne' hs.1.symm
      simp [hnot]
    exact hsame.symm ▸ h.entry id'

theorem get?_awardPopulation_ne {winners : Dict Nat (κ × Dict String (PopulationMatch κ))} {i j : Nat}
    (hij : j ≠ i) (candidate : StreamCandidate) (score : Option κ) :
    (awardPopulation winners ((i, candidate), score)).get? j = winners.get? j := by
  cases score with
  | none => rfl
  | some score =>
    simp only [awardPopulation]
    cases winners.get? i with
    | none => simp [Dict.get?_set, hij]
    | some current =>
      simp only
      split
      · simp [Dict.get?_set, hij]
      · split
        · split <;> simp [Dict.get?_set, hij]
        · rfl

theorem tracks_awardPopulation {winners : Dict Nat (κ × Dict String (PopulationMatch κ))} {i : Nat}
    {candidate : StreamCandidate} (h : Tracks reached (winners.get? i))
    (hne : ∃ c, c ∈ candidate.referenceComponents) (score : κ) :
    Tracks (fun id s c => reached id s c ∨ scoredBy candidate score id s c)
      ((awardPopulation winners ((i, candidate), some score)).get? i) := by
  simp only [awardPopulation]
  cases hw : winners.get? i with
  | none =>
    rw [hw] at h
    simp only [Dict.get?_set_self]
    exact holds_entering hne fun id s c hs => (h id s c hs).elim
  | some current =>
    obtain ⟨top, found⟩ := current
    rw [hw] at h
    simp only
    rcases lt_trichotomy top score with hlt | rfl | hgt
    · rw [if_pos hlt, Dict.get?_set_self]
      exact holds_entering hne fun id s c hs => (h.highest id s c hs).trans_lt hlt
    · rw [if_neg (lt_irrefl _), if_pos rfl]
      have hentry := h.entry candidate.candidate.candidateId
      cases hid : found.get? candidate.candidate.candidateId with
      | none =>
        rw [hid] at hentry
        simp only [Dict.get?_set_self]
        refine h.join hne rfl rfl rfl (sortedUnion_ascending _ _) fun c => ?_
        simp [mem_sortedUnion, hentry c]
      | some previous =>
        rw [hid] at hentry
        obtain ⟨hname, hscore, -, components, hcomponents, -, hmem⟩ := hentry
        simp only [Dict.get?_set_self]
        refine h.join hne hname hscore rfl (sortedUnion_ascending _ _) fun c => ?_
        simp [mem_sortedUnion, hcomponents, hmem]
    · rw [if_neg hgt.not_gt, if_neg hgt.ne, hw]
      exact h.lower hgt

/-- What a scored batch adds for the function `i`. -/
def batchReached (scored : List ((Nat × StreamCandidate) × Option κ)) (i : Nat) (id : String) (s : κ) (c : Nat) :
    Prop :=
  ∃ e ∈ scored, e.1.1 = i ∧ e.2 = some s ∧ e.1.2.candidate.candidateId = id ∧ c ∈ e.1.2.referenceComponents

theorem tracks_foldl_awardPopulation (scored : List ((Nat × StreamCandidate) × Option κ))
    {winners : Dict Nat (κ × Dict String (PopulationMatch κ))} {reached : Nat → String → κ → Nat → Prop}
    (hne : ∀ e ∈ scored, ∃ c, c ∈ e.1.2.referenceComponents) (h : ∀ i, Tracks (reached i) (winners.get? i)) (i : Nat) :
    Tracks (fun id s c => reached i id s c ∨ batchReached scored i id s c)
      ((scored.foldl awardPopulation winners).get? i) := by
  induction scored generalizing winners reached with
  | nil => exact (h i).congr fun id s c => by simp [batchReached]
  | cons e scored ih =>
    obtain ⟨hfirst, hrest⟩ := List.forall_mem_cons.mp hne
    obtain ⟨⟨j, candidate⟩, score⟩ := e
    have hstep : ∀ i, Tracks (fun id s c => reached i id s c ∨ batchReached [((j, candidate), score)] i id s c)
        ((awardPopulation winners ((j, candidate), score)).get? i) := by
      intro i
      by_cases hij : i = j
      · subst hij
        cases score with
        | none => exact (h i).congr fun id s c => by simp [batchReached]
        | some score =>
          refine (tracks_awardPopulation (h i) hfirst score).congr fun id s c => ?_
          simp only [batchReached, scoredBy, List.mem_singleton, exists_eq_left, true_and, Option.some.injEq]
          tauto
      · rw [get?_awardPopulation_ne hij]
        refine (h i).congr fun id s c => ?_
        simp [batchReached, Ne.symm hij]
    refine (ih hrest hstep).congr fun id s c => ?_
    simp only [batchReached, List.mem_cons, List.not_mem_nil, or_false, exists_eq_left, exists_eq_or_imp]
    tauto

end award

section interning

/-- A row of the shared stream: the function and its index, then the index file, the component and the row. -/
abbrev PopulationRow := QueryFunction × Nat × CandidateIndex × Nat × CandidateRow

def PopulationRow.component (r : PopulationRow) : Nat := r.2.2.2.1

/-- The identity under which the row is interned. -/
def rowKey (semantics : Semantics κ) (r : PopulationRow) : Result PackedKey :=
  itemKey <$> prepareRow semantics r.2.2.1 r.1 r.2.1 r.2.2.2.2

/-- A row with this identity comes from the component `c`. -/
def Supplies (semantics : Semantics κ) (rows : List PopulationRow) (key : PackedKey) (c : Nat) : Prop :=
  ∃ r ∈ rows, rowKey semantics r = .ok key ∧ r.component = c

/-- A row of the function `i` and the component `c` has the candidate id `id` and scores `s`. -/
def Reached (score : RowScorer κ) (semantics : Semantics κ) (rows : List PopulationRow) (i : Nat) (id : String)
    (s : κ) (c : Nat) : Prop :=
  ∃ key, Supplies semantics rows key c ∧ key.functionIndex = i ∧ key.candidateId = id ∧
    score key.input = .ok (some s)

/-- The chunk that is being filled: its entries have different identities, and each lists the components of
the rows that were interned in it. -/
structure Interned (semantics : Semantics κ) (pending : List PopulationRow) (packed : List ScoreInput)
    (metadata : List (Nat × StreamCandidate)) (packedKeys : Dict PackedKey Nat) : Prop where
  lengths : packed.length = metadata.length
  position : ∀ key k, packedKeys.get? key = some k ↔ ∃ entry input, metadata[k]? = some entry ∧
    packed[k]? = some input ∧ itemKey (stripComponents entry, input) = key
  components : ∀ (k : Nat) entry input, metadata[k]? = some entry → packed[k]? = some input →
    ∀ c, c ∈ entry.2.referenceComponents ↔ Supplies semantics pending (itemKey (stripComponents entry, input)) c
  held : ∀ key c, Supplies semantics pending key c → ∃ k, packedKeys.get? key = some k
  supplied : ∀ entry ∈ metadata, ∃ c, c ∈ entry.2.referenceComponents

variable {score : RowScorer κ} {semantics : Semantics κ} {rows pending : List PopulationRow} {r : PopulationRow}
  {key : PackedKey} {packed : List ScoreInput} {metadata : List (Nat × StreamCandidate)}
  {packedKeys : Dict PackedKey Nat}

omit [LinearOrder κ] in
theorem supplies_append {others : List PopulationRow} {c : Nat} :
    Supplies semantics (rows ++ others) key c ↔ Supplies semantics rows key c ∨ Supplies semantics others key c := by
  simp only [Supplies, List.mem_append, or_and_right, exists_or]

omit [LinearOrder κ] in
theorem supplies_concat (hkey : rowKey semantics r = .ok key) {key' : PackedKey} {c : Nat} :
    Supplies semantics (rows ++ [r]) key' c ↔ Supplies semantics rows key' c ∨ key' = key ∧ c = r.component := by
  rw [supplies_append]
  refine or_congr_right ?_
  simp only [Supplies, List.mem_singleton, exists_eq_left, hkey, Except.ok.injEq]
  exact and_congr eq_comm eq_comm

omit [LinearOrder κ] in
theorem reached_append {others : List PopulationRow} {i : Nat} {id : String} {s : κ} {c : Nat} :
    Reached score semantics (rows ++ others) i id s c ↔
      Reached score semantics rows i id s c ∨ Reached score semantics others i id s c := by
  simp only [Reached, supplies_append, or_and_right, exists_or]

omit [LinearOrder κ] in
theorem interned_empty : Interned semantics [] [] [] Dict.empty where
  lengths := rfl
  position key k := by simp
  components k entry input hentry := by simp at hentry
  held key c h := by
    obtain ⟨r, hr, -⟩ := h
    cases hr
  supplied entry hentry := by cases hentry

omit [LinearOrder κ] in
/-- A row with a known identity only adds its component to the entry. -/
theorem Interned.known (h : Interned semantics pending packed metadata packedKeys)
    (hkey : rowKey semantics r = .ok key) {k : Nat} (hk : packedKeys.get? key = some k) :
    Interned semantics (pending ++ [r]) packed (metadata.modify k (addComponent r.component)) packedKeys := by
  have hat : ∀ (j : Nat) entry', (metadata.modify k (addComponent r.component))[j]? = some entry' ↔
      ∃ entry, metadata[j]? = some entry ∧ entry' = if k = j then addComponent r.component entry else entry := by
    intro j entry'
    rw [List.getElem?_modify, Option.map_eq_map, Option.map_eq_some_iff]
    exact exists_congr fun entry => and_congr_right fun _ => eq_comm
  have hstrip : ∀ (j : Nat) (entry : Nat × StreamCandidate),
      stripComponents (if k = j then addComponent r.component entry else entry) = stripComponents entry := by
    intro j entry
    split <;> rfl
  refine ⟨by simp [h.lengths], fun key' j => ?_, fun j entry' input hentry' hinput c => ?_, fun key' c hs => ?_,
    fun entry' hentry' => ?_⟩
  · rw [h.position]
    constructor
    · rintro ⟨entry, input, hentry, hinput, hitem⟩
      exact ⟨_, input, (hat j _).mpr ⟨entry, hentry, rfl⟩, hinput, by rw [hstrip, hitem]⟩
    · rintro ⟨entry', input, hentry', hinput, hitem⟩
      obtain ⟨entry, hentry, rfl⟩ := (hat j _).mp hentry'
      exact ⟨entry, input, hentry, hinput, by rw [← hitem, hstrip]⟩
  · obtain ⟨entry, hentry, rfl⟩ := (hat j _).mp hentry'
    rw [hstrip, supplies_concat hkey, ← h.components j entry input hentry hinput c]
    have hposition := (h.position (itemKey (stripComponents entry, input)) j).mpr ⟨entry, input, hentry, hinput, rfl⟩
    by_cases hj : k = j
    · subst hj
      obtain ⟨entry', input', hentry', hinput', hitem⟩ := (h.position key k).mp hk
      obtain rfl := Option.some.inj (hentry.symm.trans hentry')
      obtain rfl := Option.some.inj (hinput.symm.trans hinput')
      simp only [if_true, addComponent, List.mem_insert_iff, hitem, true_and]
      exact or_comm
    · have hne : itemKey (stripComponents entry, input) ≠ key := by
        intro he
        rw [he, hk] at hposition
        exact hj (Option.some.inj hposition)
      simp [hj, hne]
  · rcases (supplies_concat hkey).mp hs with hs | ⟨rfl, -⟩
    · exact h.held key' c hs
    · exact ⟨k, hk⟩
  · obtain ⟨j, hj⟩ := List.mem_iff_getElem?.mp hentry'
    obtain ⟨entry, hentry, rfl⟩ := (hat j _).mp hj
    obtain ⟨c, hc⟩ := h.supplied entry (List.mem_of_getElem? hentry)
    refine ⟨c, ?_⟩
    split
    · exact List.mem_insert_of_mem hc
    · exact hc

omit [LinearOrder κ] in
/-- A row with a new identity gets an entry of its own. -/
theorem Interned.fresh (h : Interned semantics pending packed metadata packedKeys) {item : Item}
    (hkey : rowKey semantics r = .ok (itemKey item)) (hk : packedKeys.get? (itemKey item) = none) :
    Interned semantics (pending ++ [r]) (packed ++ [item.2])
      (metadata ++ [(item.1.1, ⟨item.1.2, [r.component]⟩)]) (packedKeys.set (itemKey item) packed.length) := by
  have hnone : ∀ c, ¬Supplies semantics pending (itemKey item) c := by
    intro c hs
    obtain ⟨k, hk'⟩ := h.held _ c hs
    rw [hk] at hk'
    cases hk'
  -- an entry of the longer chunk is an old one, or the new one at the end
  have hat : ∀ (k : Nat) entry input, (metadata ++ [(item.1.1, (⟨item.1.2, [r.component]⟩ : StreamCandidate))])[k]? = some entry →
      (packed ++ [item.2])[k]? = some input →
      metadata[k]? = some entry ∧ packed[k]? = some input ∨
        k = packed.length ∧ entry = (item.1.1, ⟨item.1.2, [r.component]⟩) ∧ input = item.2 := by
    intro k entry input hentry hinput
    rcases lt_trichotomy k packed.length with hlt | rfl | hgt
    · rw [List.getElem?_append_left (h.lengths ▸ hlt)] at hentry
      rw [List.getElem?_append_left hlt] at hinput
      exact .inl ⟨hentry, hinput⟩
    · rw [List.getElem?_concat_length] at hinput
      rw [h.lengths, List.getElem?_concat_length] at hentry
      exact .inr ⟨rfl, (Option.some.inj hentry).symm, (Option.some.inj hinput).symm⟩
    · have hout : (packed ++ [item.2])[k]? = none := List.getElem?_eq_none (by simp; omega)
      rw [hout] at hinput
      cases hinput
  have hold : ∀ (k : Nat) entry input, metadata[k]? = some entry → packed[k]? = some input →
      itemKey (stripComponents entry, input) ≠ itemKey item := by
    intro k entry input hentry hinput he
    have hposition := (h.position (itemKey item) k).mpr ⟨entry, input, hentry, hinput, he⟩
    rw [hk] at hposition
    cases hposition
  refine ⟨by simp [h.lengths], fun key' k => ?_, fun k entry input hentry hinput c => ?_, fun key' c hs => ?_,
    fun entry hentry => ?_⟩
  · rw [Dict.get?_set]
    split
    · rename_i hkey'
      subst hkey'
      constructor
      · rintro ⟨⟩
        refine ⟨(item.1.1, ⟨item.1.2, [r.component]⟩), item.2, ?_, List.getElem?_concat_length, rfl⟩
        rw [h.lengths]
        exact List.getElem?_concat_length
      · rintro ⟨entry, input, hentry, hinput, hitem⟩
        rcases hat k entry input hentry hinput with ⟨hentry, hinput⟩ | ⟨rfl, -, -⟩
        · exact (hold k entry input hentry hinput hitem).elim
        · rfl
    · rename_i hkey'
      rw [h.position]
      constructor
      · rintro ⟨entry, input, hentry, hinput, hitem⟩
        refine ⟨entry, input, ?_, ?_, hitem⟩
        · rw [List.getElem?_append_left (List.getElem?_eq_some_iff.mp hentry).1, hentry]
        · rw [List.getElem?_append_left (List.getElem?_eq_some_iff.mp hinput).1, hinput]
      · rintro ⟨entry, input, hentry, hinput, hitem⟩
        rcases hat k entry input hentry hinput with ⟨hentry, hinput⟩ | ⟨-, rfl, rfl⟩
        · exact ⟨entry, input, hentry, hinput, hitem⟩
        · exact (hkey' hitem.symm).elim
  · rw [supplies_concat hkey]
    rcases hat k entry input hentry hinput with ⟨hentry, hinput⟩ | ⟨-, rfl, rfl⟩
    · simp [h.components k entry input hentry hinput c, hold k entry input hentry hinput]
    · have hitem : itemKey (stripComponents (item.1.1, (⟨item.1.2, [r.component]⟩ : StreamCandidate)), item.2) =
          itemKey item := rfl
      simp [hitem, hnone]
  · rw [Dict.get?_set]
    split
    · exact ⟨_, rfl⟩
    · rename_i hkey'
      rcases (supplies_concat hkey).mp hs with hs | ⟨rfl, -⟩
      · exact h.held key' c hs
      · exact (hkey' rfl).elim
  · rcases List.mem_append.mp hentry with hentry | hentry
    · exact h.supplied entry hentry
    · obtain rfl := List.mem_singleton.mp hentry
      exact ⟨r.component, List.mem_singleton_self _⟩

omit [LinearOrder κ] in
/-- A scored chunk adds what its rows reach, each on its own. -/
theorem Interned.batchReached_iff (h : Interned semantics pending packed metadata packedKeys)
    {scores : List (Option κ)} (hscores : List.Forall₂ (fun input s => score input = .ok s) packed scores)
    {i : Nat} {id : String} {s : κ} {c : Nat} :
    batchReached (metadata.zip scores) i id s c ↔ Reached score semantics pending i id s c := by
  obtain ⟨hlength, hscored⟩ := List.forall₂_iff_get.mp hscores
  have hscored : ∀ (k : Nat) input s, packed[k]? = some input → scores[k]? = some s → score input = .ok s := by
    intro k input s hinput hs
    obtain ⟨hk, rfl⟩ := List.getElem?_eq_some_iff.mp hinput
    obtain ⟨hk', rfl⟩ := List.getElem?_eq_some_iff.mp hs
    exact hscored k hk hk'
  constructor
  · rintro ⟨⟨entry, found⟩, he, hi, hfound, hid, hc⟩
    obtain ⟨k, hk⟩ := List.mem_iff_getElem?.mp he
    obtain ⟨hentry, hs⟩ := List.getElem?_zip_eq_some.mp hk
    have hklt : k < packed.length := h.lengths ▸ (List.getElem?_eq_some_iff.mp hentry).1
    have hinput : packed[k]? = some packed[k] := List.getElem?_eq_getElem hklt
    refine ⟨itemKey (stripComponents entry, packed[k]), ?_, hi, hid, ?_⟩
    · exact (h.components k entry _ hentry hinput c).mp hc
    · have hok := hscored k _ _ hinput hs
      simp only at hfound
      exact hfound ▸ hok
  · rintro ⟨key, hs, rfl, rfl, hscore⟩
    obtain ⟨k, hk⟩ := h.held key c hs
    obtain ⟨entry, input, hentry, hinput, rfl⟩ := (h.position key k).mp hk
    have hklt : k < scores.length := hlength ▸ (List.getElem?_eq_some_iff.mp hinput).1
    have hat : scores[k]? = some scores[k] := List.getElem?_eq_getElem hklt
    have hfound : scores[k] = some s := Except.ok.inj ((hscored k input _ hinput hat).symm.trans hscore)
    refine ⟨(entry, scores[k]), ?_, rfl, hfound, rfl, (h.components k entry input hentry hinput c).mpr hs⟩
    exact List.mem_of_getElem? (List.getElem?_zip_eq_some.mpr ⟨hentry, hat⟩)

end interning

section runs

/-- The scorer of the device that a backend stands for. -/
def runScorer (authority : Authority κ) (scorers : Scorers κ) (gpu : ScoreInput → Option κ) (backendId : String) :
    RowScorer κ :=
  if authority.device? backendId = some .gpu then fun input => pure (gpu input) else scorers.cpu

variable {scorers : Scorers κ} {authority : Authority κ} {gpu : ScoreInput → Option κ} {fallbackToCpu : Bool}

omit [LinearOrder κ] in
theorem device?_of_cpu (hids : (authority.backend.map Backend.id).Nodup) {row : Backend}
    (h : authority.backend.find? (fun row => row.device = .cpu) = some row) :
    authority.device? row.id = some .cpu := by
  have hdevice : row.device = .cpu := by simpa using List.find?_some h
  unfold Authority.device?
  rw [Table.find?_key hids (List.mem_of_find?_eq_some h), Option.map_some, hdevice]

omit [LinearOrder κ] in
/-- A batch is scored row by row, by the scorer of the backend that the run is on afterwards; the backend changes
only before the first batch on the GPU. -/
theorem scoreBatch_eq_ok (hids : (authority.backend.map Backend.id).Nodup)
    (hgpu : ∀ rows scores device, scorers.gpu rows = .ok (scores, device) → scores = rows.map gpu)
    {run run' : Execution} {packed : List ScoreInput} {scores : List (Option κ)}
    (h : scoreBatch scorers authority fallbackToCpu run packed = .ok (scores, run')) :
    List.Forall₂ (fun input s => runScorer authority scorers gpu run'.effectiveBackend input = .ok s) packed scores ∧
      (run'.effectiveBackend = run.effectiveBackend ∨
        authority.device? run.effectiveBackend = some .gpu ∧ run.gpuBatches = 0) ∧
      (authority.device? run'.effectiveBackend = some .gpu → run'.gpuBatches ≠ 0) := by
  unfold scoreBatch at h
  split at h
  · rename_i hdevice
    cases hbatch : scorers.gpu packed with
    | ok result =>
      obtain ⟨scores', device⟩ := result
      simp only [hbatch, pure_eq_ok, Prod.mk.injEq] at h
      obtain ⟨rfl, rfl⟩ := h
      refine ⟨?_, .inl rfl, fun _ => Nat.succ_ne_zero _⟩
      rw [hgpu packed scores' device hbatch, List.forall₂_map_right_iff, List.forall₂_same]
      intro input _
      simp [runScorer, hdevice, pure, Except.pure]
    | error e =>
      simp only [hbatch] at h
      split at h
      · cases h
      · rename_i hbatches
        cases hrow : authority.backend.find? (fun row => row.device = .cpu) with
        | none =>
          simp only [hrow] at h
          cases h
        | some row =>
          simp only [hrow, bind_eq_ok, pure_eq_ok, Prod.mk.injEq] at h
          obtain ⟨scores', hscores, rfl, rfl⟩ := h
          have hcpu := device?_of_cpu hids hrow
          refine ⟨?_, .inr ⟨hdevice, by simpa using (not_or.mp (mt (Bool.or_eq_true _ _).mpr hbatches)).2⟩, fun hgpu' => ?_⟩
          · simp only [runScorer, hcpu, Option.some.injEq, reduceCtorEq, if_false]
            exact mapM_eq_ok hscores
          · rw [hcpu] at hgpu'
            cases hgpu'
  · rename_i hdevice
    simp only [bind_eq_ok, pure_eq_ok, Prod.mk.injEq] at h
    obtain ⟨scores', hscores, rfl, rfl⟩ := h
    refine ⟨?_, .inl rfl, fun hgpu' => (hdevice hgpu').elim⟩
    simp only [runScorer, hdevice, if_false]
    exact mapM_eq_ok hscores

/-- What the stream knows: of the rows flushed so far the winners, of the others the chunk. -/
structure Provenance (scorers : Scorers κ) (authority : Authority κ) (gpu : ScoreInput → Option κ)
    (flushed pending : List PopulationRow) (st : PopulationStream κ) : Prop where
  interned : Interned authority.semantics pending st.packed st.metadata st.packedKeys
  tracks : ∀ i, Tracks (Reached (runScorer authority scorers gpu st.run.effectiveBackend) authority.semantics
    flushed i) (st.winners.get? i)
  fresh : authority.device? st.run.effectiveBackend = some .gpu → st.run.gpuBatches = 0 → flushed = []

variable {flushed pending : List PopulationRow} {st st' : PopulationStream κ}

theorem provenance_initial (components : Nat) (backendId : String) :
    Provenance scorers authority gpu [] [] (.initial components backendId) := by
  refine ⟨interned_empty, fun i id s c h => ?_, fun _ _ => rfl⟩
  obtain ⟨key, ⟨r, hr, -⟩, -⟩ := h
  cases hr

theorem flushPopulation_provenance (hids : (authority.backend.map Backend.id).Nodup)
    (hgpu : ∀ rows scores device, scorers.gpu rows = .ok (scores, device) → scores = rows.map gpu)
    (h : Provenance scorers authority gpu flushed pending st)
    (hflush : flushPopulation scorers authority fallbackToCpu st = .ok st') :
    ∃ flushed' pending', flushed' ++ pending' = flushed ++ pending ∧ st'.packed = [] ∧
      Provenance scorers authority gpu flushed' pending' st' := by
  unfold flushPopulation at hflush
  split at hflush
  · rename_i hpacked
    rw [pure_eq_ok] at hflush
    subst hflush
    exact ⟨flushed, pending, rfl, hpacked, h⟩
  · obtain ⟨⟨scores, run⟩, hbatch, hflush⟩ := bind_eq_ok.mp hflush
    obtain ⟨scored, hzip, hflush⟩ := bind_eq_ok.mp hflush
    rw [pure_eq_ok] at hflush
    subst hflush
    obtain ⟨hscores, hbackend, hbatches⟩ := scoreBatch_eq_ok hids hgpu hbatch
    have hlength : scores.length = st.metadata.length := hscores.length_eq ▸ h.interned.lengths
    obtain rfl := Except.ok.inj ((zipStrict_of_length hlength).symm.trans hzip)
    refine ⟨flushed ++ pending, [], List.append_nil _, rfl, interned_empty, fun i => ?_, fun hdevice hzero => ?_⟩
    · -- the flushed rows count by the scorer of the new backend: it is the old one, or nothing was flushed
      have hflushed : ∀ i, Tracks (Reached (runScorer authority scorers gpu run.effectiveBackend) authority.semantics
          flushed i) (st.winners.get? i) := by
        rcases hbackend with hsame | ⟨hdevice, hzero⟩
        · rw [hsame]
          exact h.tracks
        · obtain rfl := h.fresh hdevice hzero
          intro i
          refine (h.tracks i).congr fun id s c => ?_
          simp [Reached, Supplies]
      have hne : ∀ e ∈ st.metadata.zip scores, ∃ c, c ∈ e.1.2.referenceComponents := fun e he =>
        h.interned.supplied e.1 (List.of_mem_zip he).1
      refine (tracks_foldl_awardPopulation _ hne hflushed i).congr fun id s c => ?_
      rw [reached_append, h.interned.batchReached_iff hscores]
    · exact (hbatches hdevice hzero).elim

/-- The function and the candidate id of a row. -/
def PopulationRow.pair (r : PopulationRow) : Nat × String := (r.2.1, r.2.2.2.2.candidateId)

/-- The counters of the stream after `rows`. -/
structure Counted (components : Nat) (rows : List PopulationRow) (st : PopulationStream κ) : Prop where
  raw : st.rawCandidateCount = rows.length
  components : st.componentCounts.length = components
  sum : st.componentCounts.sum = rows.length
  scored : st.scoredCandidateCount ≤ rows.length
  pairs : (rows.map PopulationRow.pair).toFinset.card ≤ st.scoredCandidateCount

omit [LinearOrder κ] in
theorem prepareRow_eq_ok {semantics : Semantics κ} {index : CandidateIndex} {function : QueryFunction} {i : Nat}
    {row : CandidateRow} {item : Item} (h : prepareRow semantics index function i row = .ok item) :
    item.1.1 = i ∧ item.1.2.candidateId = row.candidateId := by
  simp only [prepareRow, rowCandidate, bind_eq_ok, pure_eq_ok] at h
  obtain ⟨candidate, ⟨child, -, parent, -, rfl⟩, input, -, rfl⟩ := h
  exact ⟨rfl, rfl⟩

omit [LinearOrder κ] in
theorem rowKey_pair {semantics : Semantics κ} {r : PopulationRow} {key : PackedKey}
    (h : rowKey semantics r = .ok key) : (key.functionIndex, key.candidateId) = r.pair := by
  obtain ⟨item, hitem, rfl⟩ := map_eq_ok.mp h
  obtain ⟨hi, hid⟩ := prepareRow_eq_ok hitem
  simp only [itemKey, hi, hid, PopulationRow.pair]

theorem sum_modify_succ {counts : List Nat} {c : Nat} (h : c < counts.length) :
    (counts.modify c (· + 1)).sum = counts.sum + 1 := by
  induction counts generalizing c with
  | nil => simp at h
  | cons n counts ih =>
    cases c with
    | zero =>
      simp only [List.modify_zero_cons, List.sum_cons]
      omega
    | succ c =>
      simp only [List.modify_succ_cons, List.sum_cons, ih (Nat.lt_of_succ_lt_succ h)]
      omega

theorem flushPopulation_counts (hflush : flushPopulation scorers authority fallbackToCpu st = .ok st') :
    st'.rawCandidateCount = st.rawCandidateCount ∧ st'.componentCounts = st.componentCounts ∧
      st'.scoredCandidateCount = st.scoredCandidateCount := by
  unfold flushPopulation at hflush
  split at hflush
  · rw [pure_eq_ok] at hflush
    subst hflush
    exact ⟨rfl, rfl, rfl⟩
  · obtain ⟨_, -, hflush⟩ := bind_eq_ok.mp hflush
    obtain ⟨_, -, hflush⟩ := bind_eq_ok.mp hflush
    rw [pure_eq_ok] at hflush
    subst hflush
    exact ⟨rfl, rfl, rfl⟩

omit [LinearOrder κ] in
theorem counted_initial (components : Nat) (backendId : String) :
    Counted components [] (.initial components backendId : PopulationStream κ) where
  raw := rfl
  components := List.length_replicate
  sum := by simp [PopulationStream.initial]
  scored := le_rfl
  pairs := by simp

theorem Counted.flush {components : Nat} {rows : List PopulationRow} (h : Counted components rows st)
    (hflush : flushPopulation scorers authority fallbackToCpu st = .ok st') : Counted components rows st' := by
  obtain ⟨hraw, hcounts, hscored⟩ := flushPopulation_counts hflush
  exact ⟨hraw ▸ h.raw, hcounts ▸ h.components, hcounts ▸ h.sum, hscored ▸ h.scored, hscored ▸ h.pairs⟩

omit [LinearOrder κ] in
/-- One more row is counted as raw and for its component, and as scored unless it is a duplicate. -/
theorem Counted.step {components : Nat} {rows : List PopulationRow} {r : PopulationRow}
    (h : Counted components rows st) (hc : r.component < components)
    (hraw : st'.rawCandidateCount = st.rawCandidateCount + 1)
    (hcounts : st'.componentCounts = st.componentCounts.modify r.component (· + 1))
    (hscored : st'.scoredCandidateCount = st.scoredCandidateCount + 1 ∨
      st'.scoredCandidateCount = st.scoredCandidateCount ∧ ∃ r' ∈ rows, r'.pair = r.pair) :
    Counted components (rows ++ [r]) st' := by
  have hlength := h.components
  have hle := h.scored
  have hpairs := h.pairs
  have hinsert : ((rows ++ [r]).map PopulationRow.pair).toFinset =
      insert r.pair (rows.map PopulationRow.pair).toFinset := by
    ext pair
    simp
  refine ⟨by rw [hraw, h.raw]; simp, by rw [hcounts, List.length_modify, hlength], ?_, ?_, ?_⟩
  · rw [hcounts, sum_modify_succ (hlength ▸ hc), h.sum]
    simp
  · rw [List.length_append, List.length_singleton]
    omega
  · rw [hinsert]
    rcases hscored with hscored | ⟨hscored, r', hr', hpair⟩
    · have hcard := Finset.card_insert_le r.pair (rows.map PopulationRow.pair).toFinset
      omega
    · rw [Finset.insert_eq_of_mem (List.mem_toFinset.mpr (List.mem_map.mpr ⟨r', hr', hpair⟩))]
      omega

/-- The loop body on one row. -/
theorem streamPopulation_provenance (hids : (authority.backend.map Backend.id).Nodup)
    (hgpu : ∀ rows scores device, scorers.gpu rows = .ok (scores, device) → scores = rows.map gpu) {components : Nat}
    {chunkRows : Int} {r : PopulationRow} (hc : r.component < components)
    (h : Provenance scorers authority gpu flushed pending st) (hcounted : Counted components (flushed ++ pending) st)
    (hstream : streamPopulation scorers authority fallbackToCpu r.2.2.1 chunkRows r.1 r.2.1 r.component st
      r.2.2.2.2 = .ok st') :
    ∃ flushed' pending', flushed' ++ pending' = flushed ++ pending ++ [r] ∧
      Provenance scorers authority gpu flushed' pending' st' ∧ Counted components (flushed' ++ pending') st' := by
  unfold streamPopulation at hstream
  obtain ⟨candidate, hcandidate, hstream⟩ := bind_eq_ok.mp hstream
  obtain ⟨input, hinput, hstream⟩ := bind_eq_ok.mp hstream
  have hprepare : prepareRow authority.semantics r.2.2.1 r.1 r.2.1 r.2.2.2.2 = .ok ((r.2.1, candidate), input) := by
    simp only [prepareRow, hcandidate, hinput, ok_bind, pure_eq_ok]
  have hkey : rowKey authority.semantics r = .ok (itemKey ((r.2.1, candidate), input)) := by
    rw [rowKey, hprepare]
    rfl
  have hidentity : (⟨r.2.1, candidate.candidateId, candidate.owner, candidate.name, input⟩ : PackedKey) =
      itemKey ((r.2.1, candidate), input) := rfl
  simp only [hidentity] at hstream
  have happend : flushed ++ (pending ++ [r]) = flushed ++ pending ++ [r] := (List.append_assoc _ _ _).symm
  cases hk : st.packedKeys.get? (itemKey ((r.2.1, candidate), input)) with
  | some k =>
    simp only [hk, pure_eq_ok] at hstream
    subst hstream
    refine ⟨flushed, pending ++ [r], happend, ⟨h.interned.known hkey hk, h.tracks, h.fresh⟩, ?_⟩
    rw [happend]
    refine hcounted.step hc rfl rfl (.inr ⟨rfl, ?_⟩)
    -- some row of the chunk has brought the entry in
    obtain ⟨entry, input', hentry, hinput', hitem⟩ := (h.interned.position _ k).mp hk
    obtain ⟨c, hmem⟩ := h.interned.supplied entry (List.mem_of_getElem? hentry)
    obtain ⟨r', hr', hkey', -⟩ := (h.interned.components k entry input' hentry hinput' c).mp hmem
    refine ⟨r', List.mem_append_right _ hr', ?_⟩
    rw [← rowKey_pair hkey', ← rowKey_pair hkey, hitem]
  | none =>
    simp only [hk] at hstream
    obtain ⟨next, hnext, hnew, hcount⟩ : ∃ next : PopulationStream κ, next = { st with
          rawCandidateCount := st.rawCandidateCount + 1
          componentCounts := st.componentCounts.modify r.component (· + 1)
          packedKeys := st.packedKeys.set (itemKey ((r.2.1, candidate), input)) st.packed.length
          packed := st.packed ++ [input]
          metadata := st.metadata ++ [(r.2.1, ⟨candidate, [r.component]⟩)]
          scoredCandidateCount := st.scoredCandidateCount + 1 } ∧
        Provenance scorers authority gpu flushed (pending ++ [r]) next ∧
        Counted components (flushed ++ (pending ++ [r])) next :=
      ⟨_, rfl, ⟨h.interned.fresh hkey hk, h.tracks, h.fresh⟩,
        happend.symm ▸ hcounted.step hc rfl rfl (.inl rfl)⟩
    rw [← hnext] at hstream
    split at hstream
    · obtain ⟨flushed', pending', hrows, -, hprovenance⟩ := flushPopulation_provenance hids hgpu hnew hstream
      exact ⟨flushed', pending', hrows.trans happend, hprovenance, hrows ▸ hcount.flush hstream⟩
    · rw [pure_eq_ok] at hstream
      exact ⟨flushed, pending ++ [r], happend, hstream ▸ hnew, hstream ▸ hcount⟩

theorem foldlM_streamPopulation (hids : (authority.backend.map Backend.id).Nodup)
    (hgpu : ∀ rows scores device, scorers.gpu rows = .ok (scores, device) → scores = rows.map gpu) {components : Nat}
    {chunkRows : Int} {rows : List PopulationRow} (hc : ∀ r ∈ rows, r.component < components)
    (h : Provenance scorers authority gpu flushed pending st) (hcounted : Counted components (flushed ++ pending) st)
    (hstream : rows.foldlM (fun st (r : PopulationRow) => streamPopulation scorers authority fallbackToCpu r.2.2.1 chunkRows
      r.1 r.2.1 r.component st r.2.2.2.2) st = .ok st') :
    ∃ flushed' pending', flushed' ++ pending' = flushed ++ pending ++ rows ∧
      Provenance scorers authority gpu flushed' pending' st' ∧ Counted components (flushed' ++ pending') st' := by
  induction rows generalizing flushed pending st with
  | nil =>
    rw [List.foldlM_nil, pure_eq_ok] at hstream
    exact ⟨flushed, pending, (List.append_nil _).symm, hstream ▸ h, hstream ▸ hcounted⟩
  | cons r rows ih =>
    obtain ⟨hr, hrest⟩ := List.forall_mem_cons.mp hc
    rw [List.foldlM_cons] at hstream
    obtain ⟨next, hnext, hstream⟩ := bind_eq_ok.mp hstream
    obtain ⟨flushed', pending', hrows, h', hcounted'⟩ := streamPopulation_provenance hids hgpu hr h hcounted hnext
    obtain ⟨flushed'', pending'', hrows', h'', hcounted''⟩ := ih hrest h' hcounted' hstream
    refine ⟨flushed'', pending'', ?_, h'', hcounted''⟩
    rw [hrows', hrows, List.append_assoc _ [r] rows, List.singleton_append]

end runs

section decisions

/-- A candidate row of the component `c` has this id, and scores `s` for the function. -/
def RowScores (score : RowScorer κ) (semantics : Semantics κ) (connections : List IndexFile)
    (routeId treatmentId : String) (function : QueryFunction) (id : String) (s : κ) (c : Nat) : Prop :=
  ∃ file, connections[c]? = some file ∧ ∃ row ∈ file.index.cursor routeId treatmentId function.fullHash,
    row.candidateId = id ∧ ∃ found, rowMatch score semantics file.index function row = .ok (some found) ∧
      found.score = s

/-- The matches are the candidate ids with the winning score, in order, each with the sorted components that
hold a row of that id and score. -/
structure Supplied (rowScores : String → κ → Nat → Prop) (found : List (PopulationMatch κ)) : Prop where
  ordered : (found.map fun m => m.candidateId).Pairwise (· < ·)
  wins : ∀ m ∈ found, (∃ c, rowScores m.candidateId m.score c) ∧ ∀ id s c, rowScores id s c → s ≤ m.score
  complete : ∀ id s c, rowScores id s c → (∀ id' s' c', rowScores id' s' c' → s' ≤ s) →
    ∃ m ∈ found, m.candidateId = id ∧ m.score = s
  components : ∀ m ∈ found, ∃ components, m.referenceComponents = some components ∧
    components.Pairwise (· < ·) ∧ ∀ c, c ∈ components ↔ rowScores m.candidateId m.score c

variable {reached : String → κ → Nat → Prop}

theorem supplied_of_tracks {winners : Dict Nat (κ × Dict String (PopulationMatch κ))} {i : Nat}
    (h : Tracks reached (winners.get? i)) (function : QueryFunction) :
    Supplied reached (populationDecision winners function i).found := by
  unfold populationDecision
  cases hw : winners.get? i with
  | none =>
    rw [hw] at h
    exact ⟨.nil, fun m hm => (List.not_mem_nil hm).elim, fun id s c hs => (h id s c hs).elim,
      fun m hm => (List.not_mem_nil hm).elim⟩
  | some winner =>
    obtain ⟨top, found⟩ := winner
    rw [hw] at h
    simp only [Option.map_some, Option.getD_some]
    have hkeyed : found.KeyedBy fun m => m.candidateId := by
      intro id m hm
      have hentry := h.entry id
      rw [hm] at hentry
      exact hentry.1
    have hmem : ∀ m, m ∈ found.values.insertionSort (matchOrder fun m => m.candidateId) ↔
        found.get? m.candidateId = some m := fun m => by
      rw [(List.perm_insertionSort _ _).mem_iff, hkeyed.mem_values]
    have hentry : ∀ m, found.get? m.candidateId = some m → m.score = top ∧ (∃ c, reached m.candidateId top c) ∧
        ∃ components, m.referenceComponents = some components ∧ components.Pairwise (· < ·) ∧
          ∀ c, c ∈ components ↔ reached m.candidateId top c := by
      intro m hm
      have hentry := h.entry m.candidateId
      rw [hm] at hentry
      exact hentry.2
    refine ⟨?_, fun m hm => ?_, fun id s c hs hmax => ?_, fun m hm => ?_⟩
    · have hsorted := List.pairwise_insertionSort (matchOrder fun m : PopulationMatch κ => m.candidateId) found.values
      have hnodup : ((found.values.insertionSort (matchOrder fun m => m.candidateId)).map
          fun m => m.candidateId).Nodup :=
        ((List.perm_insertionSort _ _).map _).nodup_iff.mpr hkeyed.nodup_values
      rw [List.pairwise_map]
      exact hsorted.imp₂ (fun _ _ hle hne => lt_of_le_of_ne hle hne) (List.pairwise_map.mp hnodup)
    · obtain ⟨hscore, hreached, -⟩ := hentry m ((hmem m).mp hm)
      exact ⟨hscore.symm ▸ hreached, fun id s c hs => hscore.symm ▸ h.highest id s c hs⟩
    · obtain ⟨id', c', htop⟩ := h.attained
      have hs' : s = top := le_antisymm (h.highest id s c hs) (hmax id' top c' htop)
      have hid := h.entry id
      cases hm : found.get? id with
      | none =>
        rw [hm] at hid
        exact (hid c (hs' ▸ hs)).elim
      | some m =>
        rw [hm] at hid
        exact ⟨m, (hmem m).mpr (hid.1.symm ▸ hm), hid.1, hid.2.1.trans hs'.symm⟩
    · obtain ⟨hscore, -, hcomponents⟩ := hentry m ((hmem m).mp hm)
      exact hscore.symm ▸ hcomponents

/-- What a decision says of provenance: the ids, the scores and the components of its matches. -/
def suppliers (found : List (PopulationMatch κ)) : List (String × κ × Option (List Nat)) :=
  found.map fun m => (m.candidateId, m.score, m.referenceComponents)

/-- The provenance of the matches is determined by what the rows score. -/
theorem Supplied.suppliers_eq {found found' : List (PopulationMatch κ)} (h : Supplied reached found)
    (h' : Supplied reached found') : suppliers found = suppliers found' := by
  have hhalf : ∀ {l l' : List (PopulationMatch κ)}, Supplied reached l → Supplied reached l' →
      ∀ x ∈ suppliers l, x ∈ suppliers l' := by
    intro l l' hl hl' x hx
    obtain ⟨m, hm, rfl⟩ := List.mem_map.mp hx
    obtain ⟨⟨c, hc⟩, hmax⟩ := hl.wins m hm
    obtain ⟨m', hm', hid, hscore⟩ := hl'.complete _ _ c hc hmax
    obtain ⟨components, hcomponents, hsorted, hmem⟩ := hl.components m hm
    obtain ⟨components', hcomponents', hsorted', hmem'⟩ := hl'.components m' hm'
    have heq : components' = components := by
      refine hsorted'.eq_of_mem_iff hsorted fun c => ?_
      rw [hmem, hmem', hid, hscore]
    exact List.mem_map.mpr ⟨m', hm', by rw [hid, hscore, hcomponents, hcomponents', heq]⟩
  have hordered : ∀ {l : List (PopulationMatch κ)}, Supplied reached l →
      (suppliers l).Pairwise fun a b => a.1 < b.1 := fun hl =>
    List.pairwise_map.mpr (List.pairwise_map.mp hl.ordered)
  have hirrefl : Std.Irrefl fun a b : String × κ × Option (List Nat) => a.1 < b.1 := ⟨fun a => lt_irrefl a.1⟩
  have hantisymm : Std.Antisymm fun a b : String × κ × Option (List Nat) => a.1 < b.1 :=
    ⟨fun _ _ hab hba => (lt_asymm hab hba).elim⟩
  exact (hordered h).eq_of_mem_iff (hordered h') fun x => ⟨hhalf h h' x, hhalf h' h x⟩

end decisions

section claim

variable {score : RowScorer κ} {semantics : Semantics κ} {connections : List IndexFile} {routeId treatmentId : String}
  {functions : List QueryFunction}

omit [LinearOrder κ] in
/-- The rows of a function in the whole stream are its rows in the components. -/
theorem reached_streamRows {i : Nat} {function : QueryFunction} (hi : functions[i]? = some function) {id : String}
    {s : κ} {c : Nat} :
    Reached score semantics (streamRows (componentRows connections routeId treatmentId) functions) i id s c ↔
      RowScores score semantics connections routeId treatmentId function id s c := by
  constructor
  · rintro ⟨key, ⟨⟨f, j, index, c', row⟩, hr, hkey, rfl⟩, hj', rfl, hscore⟩
    obtain ⟨hf, hcomponent⟩ := mem_streamRows.mp hr
    obtain ⟨file, hfile, hindex, hrow⟩ := mem_componentRows.mp hcomponent
    obtain ⟨item, hitem, rfl⟩ := map_eq_ok.mp hkey
    obtain ⟨hj, hid⟩ := prepareRow_eq_ok hitem
    obtain rfl : j = i := hj.symm.trans hj'
    obtain rfl : index = file.index := hindex
    obtain rfl : function = f := Option.some.inj (hi.symm.trans hf)
    refine ⟨file, hfile, row, hrow, hid.symm, candidateMatch item.1.2 s, ?_, rfl⟩
    have hmatch := prepareRow_scoreItem score semantics file.index function j row
    have hscored : score item.2 = .ok (some s) := hscore
    rw [hitem, ok_bind, scoreItem, hscored, ok_bind] at hmatch
    obtain ⟨m, hm, hpair⟩ := bind_eq_ok.mp hmatch.symm
    simp only [pure_eq_ok, Prod.mk.injEq] at hpair
    rw [hm, hpair.2]
    rfl
  · rintro ⟨file, hfile, row, hrow, rfl, found, hmatch, rfl⟩
    have hprepare := prepareRow_scoreItem score semantics file.index function i row
    rw [hmatch, ok_bind] at hprepare
    obtain ⟨item, hitem, hscored⟩ := bind_eq_ok.mp hprepare
    obtain ⟨hj, hid⟩ := prepareRow_eq_ok hitem
    obtain ⟨s, hs, hpair⟩ := bind_eq_ok.mp hscored
    simp only [pure_eq_ok, Prod.mk.injEq, Option.map_eq_some_iff] at hpair
    obtain ⟨-, s, rfl, rfl⟩ := hpair
    refine ⟨itemKey item, ⟨(function, i, file.index, c, row), ?_, ?_, rfl⟩, hj, hid, hs⟩
    · exact mem_streamRows.mpr ⟨hi, mem_componentRows.mpr ⟨file, hfile, rfl, hrow⟩⟩
    · rw [rowKey, hitem]
      rfl

variable {scorers : Scorers κ} {authority : Authority κ} {gpu : ScoreInput → Option κ} {fallbackToCpu : Bool}
  {files : IndexFiles} {paths : List String} {backendId : String} {chunkRows : Int}

/-- A chunk without entries holds no row that could score. -/
theorem reached_of_drained {flushed pending : List PopulationRow} {st : PopulationStream κ}
    (h : Provenance scorers authority gpu flushed pending st) (hpacked : st.packed = []) {i : Nat} {id : String} {s : κ}
    {c : Nat} :
    Reached score authority.semantics (flushed ++ pending) i id s c ↔
      Reached score authority.semantics flushed i id s c := by
  rw [reached_append]
  refine or_iff_left ?_
  rintro ⟨key, hs, -⟩
  obtain ⟨k, hk⟩ := h.interned.held key c hs
  obtain ⟨entry, input, -, hinput, -⟩ := (h.interned.position key k).mp hk
  rw [hpacked] at hinput
  cases hinput

/-- What a run of the second engine has streamed. -/
theorem populationAlphaEngine2_streamed (hids : (authority.backend.map Backend.id).Nodup)
    (hgpu : ∀ rows scores device, scorers.gpu rows = .ok (scores, device) → scores = rows.map gpu)
    {report : PopulationReport κ}
    (h : populationAlphaEngine2 scorers authority fallbackToCpu files paths functions routeId treatmentId backendId
      chunkRows = .ok report) :
    ∃ connections, paths.mapM (openIndex files) = .ok connections ∧ ∃ st : PopulationStream κ,
      (∀ i, Tracks (Reached (runScorer authority scorers gpu report.backend) authority.semantics
        (streamRows (componentRows connections routeId treatmentId) functions) i) (st.winners.get? i)) ∧
      Counted paths.length (streamRows (componentRows connections routeId treatmentId) functions) st ∧
      report.functions = (functions.zipIdx.map fun p => populationDecision st.winners p.1 p.2) ∧
      report.candidateCount = st.rawCandidateCount ∧ report.scoredCandidateCount = st.scoredCandidateCount ∧
      report.deduplicatedCandidateCount = st.rawCandidateCount - st.scoredCandidateCount ∧
      report.componentIndexes.map (·.candidateCount) = st.componentCounts := by
  unfold populationAlphaEngine2 at h
  simp only [bind_eq_ok, pure_eq_ok] at h
  obtain ⟨_, -, _, -, _, -, connections, hopen, st, hst, last, hflush, rfl⟩ := h
  have hlength : connections.length = paths.length := (mapM_eq_ok hopen).length_eq.symm
  have hflat : (streamRows (componentRows connections routeId treatmentId) functions).foldlM
      (fun st (r : PopulationRow) => streamPopulation scorers authority fallbackToCpu r.2.2.1 chunkRows r.1 r.2.1
        r.component st r.2.2.2.2) (.initial paths.length backendId) = .ok st := by
    rw [← hst]
    simp only [streamRows, componentRows, foldlM_flatMap, List.foldlM_map, PopulationRow.component]
  have hcomponents : ∀ r ∈ streamRows (componentRows connections routeId treatmentId) functions,
      PopulationRow.component r < paths.length := by
    intro r hr
    obtain ⟨file, hfile, -⟩ := mem_componentRows.mp (mem_streamRows.mp hr).2
    exact hlength ▸ (List.getElem?_eq_some_iff.mp hfile).1
  obtain ⟨flushed, pending, hrows, hprovenance, hcounted⟩ := foldlM_streamPopulation hids hgpu hcomponents
    (provenance_initial paths.length backendId) (counted_initial paths.length backendId) hflat
  obtain ⟨flushed', pending', hrows', hpacked, hlast⟩ := flushPopulation_provenance hids hgpu hprovenance hflush
  have hall : flushed' ++ pending' = streamRows (componentRows connections routeId treatmentId) functions := by
    rw [hrows', hrows]
    rfl
  have hcounted' := hcounted.flush hflush
  rw [← hrows', hall] at hcounted'
  refine ⟨connections, hopen, last, fun i => ?_, hcounted', rfl, rfl, rfl, rfl, ?_⟩
  · refine (hlast.tracks i).congr fun id s c => ?_
    rw [← hall, reached_of_drained hlast hpacked]
  · have hzip : connections.length = last.componentCounts.length := hlength.trans hcounted'.components.symm
    have hcounts : ((paths.zip (connections.zip last.componentCounts)).map fun p => p.2.2) = last.componentCounts := by
      have houter := @List.map_snd_zip _ _ paths (connections.zip last.componentCounts)
        (by rw [List.length_zip]; omega)
      have hinner := @List.map_snd_zip _ _ connections last.componentCounts hzip.ge
      calc
        _ = ((paths.zip (connections.zip last.componentCounts)).map Prod.snd).map Prod.snd := by rw [List.map_map]; rfl
        _ = last.componentCounts := by rw [houter, hinner]
    rw [List.map_map]
    exact hcounts

theorem forall₂_zipIdx {α β : Type} {R : α → β → Prop} {xs : List α} {g : α → Nat → β}
    (h : ∀ i x, xs[i]? = some x → R x (g x i)) : List.Forall₂ R xs (xs.zipIdx.map fun p => g p.1 p.2) := by
  have hfst : xs = xs.zipIdx.map Prod.fst := by simp
  conv_lhs => rw [hfst]
  rw [List.forall₂_map_left_iff, List.forall₂_map_right_iff, List.forall₂_same]
  exact fun p hp => h p.2 p.1 (List.mem_zipIdx_iff_getElem?.mp hp)

/-- The decisions of a run: every match lists the components with a row of its id and score. -/
theorem populationAlphaEngine2_supplied (hids : (authority.backend.map Backend.id).Nodup)
    (hgpu : ∀ rows scores device, scorers.gpu rows = .ok (scores, device) → scores = rows.map gpu)
    {report : PopulationReport κ}
    (h : populationAlphaEngine2 scorers authority fallbackToCpu files paths functions routeId treatmentId backendId
      chunkRows = .ok report) (hopen : paths.mapM (openIndex files) = .ok connections) :
    List.Forall₂ (fun function decision => decision.toFunctionIdentity = function.toFunctionIdentity ∧
      Supplied (RowScores (runScorer authority scorers gpu report.backend) authority.semantics connections routeId
        treatmentId function) decision.found) functions report.functions := by
  obtain ⟨connections', hopen', st, htracks, -, hfunctions, -⟩ := populationAlphaEngine2_streamed hids hgpu h
  obtain rfl := Except.ok.inj (hopen.symm.trans hopen')
  rw [hfunctions]
  refine forall₂_zipIdx fun i function hi => ⟨rfl, supplied_of_tracks ?_ function⟩
  exact (htracks i).congr fun id s c => (reached_streamRows hi).symm

/-- Decisions that are supplied by the same rows say the same of provenance. -/
theorem suppliers_of_supplied {rowScores : QueryFunction → String → κ → Nat → Prop}
    {decisions decisions' : List (Decision (PopulationMatch κ))}
    (h : List.Forall₂ (fun function decision => Supplied (rowScores function) decision.found) functions decisions)
    (h' : List.Forall₂ (fun function decision => Supplied (rowScores function) decision.found) functions decisions') :
    (decisions.map fun decision => suppliers decision.found) = decisions'.map fun decision => suppliers decision.found := by
  induction h generalizing decisions' with
  | nil =>
    cases h'
    rfl
  | cons hd _ ih =>
    cases h' with
    | cons hd' hrest' => rw [List.map_cons, List.map_cons, hd.suppliers_eq hd', ih hrest']

/-- On the CPU a run stays on its backend, and does not depend on the chunk size for its success. -/
theorem populationAlphaEngine2_cpu (hcpu : authority.device? backendId = some .cpu) {report : PopulationReport κ}
    (h : populationAlphaEngine2 scorers authority fallbackToCpu files paths functions routeId treatmentId backendId
      chunkRows = .ok report) :
    report.backend = backendId ∧ ∀ chunkRows', 1 ≤ chunkRows' → ∃ report', populationAlphaEngine2 scorers authority
      fallbackToCpu files paths functions routeId treatmentId backendId chunkRows' = .ok report' := by
  obtain ⟨connections, hopen, hscored, -⟩ := populationAlphaEngine2_of_ok hcpu h
  unfold populationAlphaEngine2 at h
  simp only [bind_eq_ok, pure_eq_ok, require_eq_ok, exists_const] at h
  obtain ⟨hne, hnodup, _, -, connections', hopen', st, hst, last, hflush, rfl⟩ := h
  constructor
  · obtain ⟨b, -, hview⟩ :=
      (loopPopulation_view fallbackToCpu hcpu connections' routeId treatmentId functions chunkRows paths.length).of_ok hst
    obtain ⟨c, -, hview⟩ := (flushPopulation_view hcpu hview).of_ok hflush
    rw [hview.run]
    rfl
  · exact fun chunkRows' hchunk' => populationAlphaEngine2_total fallbackToCpu hcpu hchunk' hne hnodup hopen hscored

/-- The matches of the second engine carry their provenance. Whatever the chunk size, the winners of a function are
the candidate ids with the highest score, each with the sorted components that hold a row of that id and score; every
row is counted once for its component, and is either scored or a duplicate. -/
theorem winners_keep_components (scorers : Scorers κ) (authority : Authority κ)
    (hids : (authority.backend.map Backend.id).Nodup) (gpu : ScoreInput → Option κ)
    (hgpu : ∀ rows scores device, scorers.gpu rows = .ok (scores, device) → scores = rows.map gpu)
    (fallbackToCpu : Bool) (files : IndexFiles) (paths : List String) (functions : List QueryFunction)
    (routeId treatmentId backendId : String) :
    let run := populationAlphaEngine2 scorers authority fallbackToCpu files paths functions routeId treatmentId backendId
    let provenance := fun report : PopulationReport κ => report.functions.map fun decision => suppliers decision.found
    (∀ chunkRows report, run chunkRows = .ok report →
      ∃ connections, paths.mapM (openIndex files) = .ok connections ∧
        List.Forall₂ (fun function decision => decision.toFunctionIdentity = function.toFunctionIdentity ∧
          Supplied (RowScores (runScorer authority scorers gpu report.backend) authority.semantics connections routeId
            treatmentId function) decision.found) functions report.functions ∧
        report.candidateCount = (report.componentIndexes.map (·.candidateCount)).sum ∧
        report.candidateCount = report.scoredCandidateCount + report.deduplicatedCandidateCount ∧
        ((streamRows (componentRows connections routeId treatmentId) functions).map PopulationRow.pair).toFinset.card ≤
          report.scoredCandidateCount) ∧
    (∀ chunkRows chunkRows' report report', run chunkRows = .ok report → run chunkRows' = .ok report' →
      authority.device? report.backend = authority.device? report'.backend → provenance report = provenance report') ∧
    (authority.device? backendId = some .cpu → ∀ chunkRows chunkRows', 1 ≤ chunkRows → 1 ≤ chunkRows' →
      Agree (provenance <$> run chunkRows) (provenance <$> run chunkRows')) := by
  intro run provenance
  have hsame : ∀ chunkRows chunkRows' report report', run chunkRows = .ok report → run chunkRows' = .ok report' →
      authority.device? report.backend = authority.device? report'.backend → provenance report = provenance report' := by
    intro chunkRows chunkRows' report report' h h' hdevice
    obtain ⟨connections, hopen, -⟩ := populationAlphaEngine2_streamed hids hgpu h
    have hsupplied := populationAlphaEngine2_supplied hids hgpu h hopen
    have hsupplied' := populationAlphaEngine2_supplied hids hgpu h' hopen
    have hscorer : runScorer authority scorers gpu report'.backend = runScorer authority scorers gpu report.backend := by
      rw [runScorer, runScorer, hdevice]
    rw [hscorer] at hsupplied'
    exact suppliers_of_supplied (hsupplied.imp fun _ _ h => h.2) (hsupplied'.imp fun _ _ h => h.2)
  refine ⟨fun chunkRows report h => ?_, hsame, fun hcpu chunkRows chunkRows' hchunk hchunk' => ?_⟩
  · obtain ⟨connections, hopen, st, -, hcounted, -, hraw, hscored, hdeduplicated, hcounts⟩ :=
      populationAlphaEngine2_streamed hids hgpu h
    have hle := hcounted.scored
    have htotal := hcounted.raw
    refine ⟨connections, hopen, populationAlphaEngine2_supplied hids hgpu h hopen, ?_, by omega, ?_⟩
    · rw [hcounts, hcounted.sum, hraw, hcounted.raw]
    · exact hscored ▸ hcounted.pairs
  · have hhalf : ∀ {m n : Int}, 1 ≤ n → ∀ {result}, provenance <$> run m = .ok result → provenance <$> run n = .ok result := by
      intro m n hn result hresult
      obtain ⟨report, hreport, rfl⟩ := map_eq_ok.mp hresult
      obtain ⟨hbackend, htotal⟩ := populationAlphaEngine2_cpu hcpu hreport
      obtain ⟨report', hreport'⟩ := htotal n hn
      refine map_eq_ok.mpr ⟨report', hreport', hsame n m report' report hreport' hreport ?_⟩
      rw [hbackend, (populationAlphaEngine2_cpu hcpu hreport').1]
    exact fun result => ⟨hhalf hchunk', hhalf hchunk⟩

/-- The GPU of the sample scores as its CPU does. -/
def Sample.rowGpu (input : ScoreInput) : Option ℚ := (Sample.scorers.cpu input).toOption.join

def Sample.bothScorers : Scorers ℚ where
  cpu := Sample.scorers.cpu
  gpu rows := pure (rows.map Sample.rowGpu, some "adapter")

/-- One row a chunk says of provenance what three rows a chunk do. -/
theorem winners_keep_components_chunked :
    Agree
      ((fun report => report.functions.map fun decision => suppliers decision.found) <$>
        populationAlphaEngine2 Sample.bothScorers Sample.authority true Sample.twoFiles ["a.sqlite", "b.sqlite"]
          [Sample.function] "r" "t" "cpu" 1)
      ((fun report => report.functions.map fun decision => suppliers decision.found) <$>
        populationAlphaEngine2 Sample.bothScorers Sample.authority true Sample.twoFiles ["a.sqlite", "b.sqlite"]
          [Sample.function] "r" "t" "cpu" 3) :=
  (winners_keep_components Sample.bothScorers Sample.authority (by decide) Sample.rowGpu
    (fun rows scores device h => (congrArg Prod.fst (Except.ok.inj h)).symm) true Sample.twoFiles
    ["a.sqlite", "b.sqlite"] [Sample.function] "r" "t" "cpu").2.2 (by decide) 1 3 (by decide) (by decide)

example : (populationAlphaEngine2 Sample.bothScorers Sample.authority true Sample.twoFiles ["a.sqlite", "b.sqlite"]
    [Sample.function] "r" "t" "gpu" 2).toOption.map (·.functions.flatMap fun decision => suppliers decision.found) =
    some [("c0", 30, some [1]), ("c2", 30, some [0, 1]), ("c3", 30, some [0])] := by
  decide +kernel

end claim

end FidbPoc.Matching
