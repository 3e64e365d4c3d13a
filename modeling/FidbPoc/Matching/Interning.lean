import FidbPoc.Matching.Population
import FidbPoc.Matching.Streaming

namespace FidbPoc.Matching

open FidbPoc.Lib FidbPoc.Lib.Checked FidbPoc.Lib.Leaders

variable {κ : Type} [LinearOrder κ]

/-- The identity under which the shared stream interns an item. -/
def itemKey (item : Item) : PackedKey :=
  ⟨item.1.1, item.1.2.candidateId, item.1.2.owner, item.1.2.name, item.2⟩

def knownItem (pending : List Item) (item : Item) : Bool := itemKey item ∈ pending.map itemKey

/-- Hold the first match of each candidate id. -/
abbrev holdFirst : List (Match κ) → Match κ → List (Match κ) := keepFirst Match.candidateId

section settled

variable {score : RowScorer κ} {winners winners' : Winners κ}

omit [LinearOrder κ] in
theorem scoreItem_congr {x y : Item} (h : itemKey x = itemKey y) : scoreItem score x = scoreItem score y := by
  simp only [itemKey, PackedKey.mk.injEq] at h
  obtain ⟨hi, hid, howner, hname, hinput⟩ := h
  have hmatch : candidateMatch (κ := κ) x.1.2 = candidateMatch y.1.2 := by
    funext s
    simp only [candidateMatch, hid, howner, hname]
  simp only [scoreItem, hi, hinput, hmatch]

theorem settled_award {i : Nat} {found : Match κ} (h : Settled Match.candidateId Match.score (winners i) found)
    (scored : Nat × Option (Match κ)) :
    Settled Match.candidateId Match.score (award holdFirst winners scored i) found := by
  rw [award_eq]
  split
  · cases scored.2 with
    | none => exact h
    | some other => exact h.challenge
  · exact h

theorem settled_foldlM {i : Nat} {found : Match κ} {xs : List Item}
    (h : xs.foldlM (eat holdFirst score) winners = .ok winners')
    (hs : Settled Match.candidateId Match.score (winners i) found) :
    Settled Match.candidateId Match.score (winners' i) found := by
  induction xs generalizing winners with
  | nil =>
    rw [List.foldlM_nil, pure_eq_ok] at h
    exact h ▸ hs
  | cons x xs ih =>
    rw [List.foldlM_cons, bind_eq_ok] at h
    obtain ⟨next, hnext, h⟩ := h
    obtain ⟨scored, -, hnext⟩ := bind_eq_ok.mp hnext
    rw [pure_eq_ok] at hnext
    exact ih h (hnext ▸ settled_award hs scored)

/-- An interned item has been eaten: eating it again changes no winner. -/
theorem knownItem_eaten (score : RowScorer κ) (xs : List Item) (x : Item) (s t : Winners κ)
    (hknown : knownItem xs x = true) (h : xs.foldlM (eat holdFirst score) s = .ok t) :
    eat holdFirst score t x = .ok t := by
  obtain ⟨y, hy, hxy⟩ := List.mem_map.mp (of_decide_eq_true hknown)
  obtain ⟨before, after, rfl⟩ := List.append_of_mem hy
  simp only [List.foldlM_append, List.foldlM_cons, bind_eq_ok] at h
  obtain ⟨u, -, v, hv, h⟩ := h
  obtain ⟨scored, hscored, hv⟩ := bind_eq_ok.mp hv
  rw [pure_eq_ok] at hv
  unfold eat
  rw [← scoreItem_congr hxy, hscored, ok_bind]
  refine congrArg Except.ok (funext fun i => ?_)
  obtain ⟨j, found⟩ := scored
  rw [award_eq]
  split
  · rename_i hj
    cases found with
    | none => rfl
    | some found =>
      have hsettled : Settled Match.candidateId Match.score (v i) found := by
        rw [← hv, award_eq, if_pos hj]
        exact settled_challenge
      exact (settled_foldlM h hsettled).challenge_eq
  · rfl

end settled

section population

variable {scorers : Scorers κ} {authority : Authority κ} {fallbackToCpu : Bool} {backendId : String}

def stripComponents (entry : Nat × StreamCandidate) : Nat × Candidate := (entry.1, entry.2.candidate)

/-- The winners without the components that supplied them. -/
def plainWinners (winners : Dict Nat (κ × Dict String (PopulationMatch κ))) : Winners κ :=
  fun i => (winners.get? i).map fun w => (w.1, w.2.values.map PopulationMatch.toMatch)

omit [LinearOrder κ] in
theorem plainWinners_set (winners : Dict Nat (κ × Dict String (PopulationMatch κ))) (i : Nat)
    (w : κ × Dict String (PopulationMatch κ)) :
    plainWinners (winners.set i w) =
      Function.update (plainWinners winners) i (some (w.1, w.2.values.map PopulationMatch.toMatch)) := by
  funext j
  by_cases h : j = i
  · subst h
    simp [plainWinners]
  · simp [plainWinners, Dict.get?_set, h]

omit [LinearOrder κ] in
theorem values_singleton (id : String) (found : PopulationMatch κ) :
    (Dict.empty.set id found).values = [found] := rfl

/-- Every match is listed under its candidate id. -/
def Keyed (winners : Dict Nat (κ × Dict String (PopulationMatch κ))) : Prop :=
  ∀ i w, winners.get? i = some w → w.2.KeyedBy fun found => found.candidateId

omit [LinearOrder κ] in
theorem Keyed.set {winners : Dict Nat (κ × Dict String (PopulationMatch κ))} (h : Keyed winners) (i : Nat)
    {w : κ × Dict String (PopulationMatch κ)} (hw : w.2.KeyedBy fun found => found.candidateId) :
    Keyed (winners.set i w) := by
  intro j v hv
  rw [Dict.get?_set] at hv
  split at hv
  · exact Option.some.inj hv ▸ hw
  · exact h j v hv

omit [LinearOrder κ] in
theorem keyed_singleton {id : String} {found : PopulationMatch κ} (h : found.candidateId = id) :
    (Dict.empty.set id found).KeyedBy fun found => found.candidateId :=
  (Dict.keyedBy_empty _).set h

theorem keyed_awardPopulation {winners : Dict Nat (κ × Dict String (PopulationMatch κ))} (h : Keyed winners)
    (scored : (Nat × StreamCandidate) × Option κ) : Keyed (awardPopulation winners scored) := by
  obtain ⟨⟨i, candidate⟩, score⟩ := scored
  unfold awardPopulation
  cases score with
  | none => exact h
  | some score =>
    simp only
    split
    · exact h.set i (keyed_singleton rfl)
    · rename_i current hcurrent
      have hkeyed := h i current hcurrent
      split
      · exact h.set i (keyed_singleton rfl)
      · split
        · split
          · exact h.set i (hkeyed.set rfl)
          · rename_i previous hprevious
            exact h.set i (hkeyed.set (hkeyed _ previous hprevious))
        · exact h

theorem awardPopulation_view {winners : Dict Nat (κ × Dict String (PopulationMatch κ))} (h : Keyed winners)
    (scored : (Nat × StreamCandidate) × Option κ) :
    plainWinners (awardPopulation winners scored) =
      awardScored holdFirst (plainWinners winners) (stripComponents scored.1, scored.2) := by
  obtain ⟨⟨i, candidate⟩, score⟩ := scored
  cases score with
  | none => rfl
  | some score =>
    simp only [awardPopulation, awardScored, award, stripComponents, Option.map_some]
    cases hw : winners.get? i with
    | none =>
      have hnone : plainWinners winners i = none := by simp [plainWinners, hw]
      rw [plainWinners_set, hnone]
      rfl
    | some current =>
      have hsome : plainWinners winners i = some (current.1, current.2.values.map PopulationMatch.toMatch) := by
        simp [plainWinners, hw]
      simp only [hsome, challenge, candidateMatch]
      by_cases hlt : current.1 < score
      · simp only [hlt, if_true]
        rw [plainWinners_set]
        rfl
      · by_cases heq : score = current.1
        · have hheld : (current.2.values.map PopulationMatch.toMatch).any
              (fun y => y.candidateId = candidate.candidate.candidateId) = true ↔
              (current.2.get? candidate.candidate.candidateId).isSome := by
            simp only [List.any_map, List.any_eq_true, Function.comp_apply, decide_eq_true_eq, Option.isSome_iff_exists]
            constructor
            · rintro ⟨y, hy, hid⟩
              exact ⟨y, hid ▸ (h i current hw).mem_values.mp hy⟩
            · rintro ⟨y, hy⟩
              exact ⟨y, Dict.mem_values.mpr ⟨_, hy⟩, h i current hw _ y hy⟩
          simp only [heq, if_true, if_false, lt_irrefl]
          cases hid : current.2.get? candidate.candidate.candidateId with
          | none =>
            rw [hid] at hheld
            simp only [plainWinners_set, Dict.values_set_of_none hid, holdFirst, keepFirst]
            rw [if_neg (by simpa using hheld)]
            simp
          | some previous =>
            rw [hid] at hheld
            simp only [plainWinners_set, holdFirst, keepFirst]
            rw [if_pos (by simpa using hheld), Dict.map_values_set PopulationMatch.toMatch hid]
            rfl
        · simp only [hlt, heq, if_false, ← hsome, Function.update_eq_self]

theorem foldl_awardPopulation_view (scored : List ((Nat × StreamCandidate) × Option κ))
    {winners : Dict Nat (κ × Dict String (PopulationMatch κ))} (h : Keyed winners) :
    plainWinners (scored.foldl awardPopulation winners) =
        (scored.map fun s => (stripComponents s.1, s.2)).foldl (awardScored holdFirst) (plainWinners winners) ∧
      Keyed (scored.foldl awardPopulation winners) := by
  induction scored generalizing winners with
  | nil => exact ⟨rfl, h⟩
  | cons s scored ih =>
    rw [List.foldl_cons, List.map_cons, List.foldl_cons, ← awardPopulation_view h s]
    exact ih (keyed_awardPopulation h s)

/-- The shared stream as a consumer behind a buffer that interns. -/
structure PopulationView (backendId : String) (st : PopulationStream κ) (b : Buffer Item (Winners κ)) : Prop where
  packed : st.packed = b.pending.map Prod.snd
  metadata : st.metadata.map stripComponents = b.pending.map Prod.fst
  packedKeys : ∀ key, (st.packedKeys.get? key).isSome ↔ key ∈ b.pending.map itemKey
  winners : plainWinners st.winners = b.sink
  keyed : Keyed st.winners
  run : st.run = .initial backendId

theorem flushPopulation_view (hcpu : authority.device? backendId = some .cpu) {st : PopulationStream κ}
    {b : Buffer Item (Winners κ)} (h : PopulationView backendId st b) :
    Simulates (PopulationView backendId) (flushPopulation scorers authority fallbackToCpu st)
      (b.flush (eat holdFirst scorers.cpu)) := by
  have hdevice : authority.device? st.run.effectiveBackend = some .cpu := by rw [h.run]; exact hcpu
  have hlength : st.metadata.length = b.pending.length := by
    simpa only [List.length_map] using congrArg List.length h.metadata
  unfold flushPopulation Buffer.flush
  rw [foldlM_eat]
  by_cases hp : st.packed = []
  · have hpending : b.pending = [] := List.map_eq_nil_iff.mp (h.packed ▸ hp)
    rw [if_pos hp, hpending]
    have hmetadata := h.metadata
    have hkeys := h.packedKeys
    rw [hpending] at hmetadata hkeys
    exact .ok ⟨hp, hmetadata, hkeys, h.winners, h.keyed, h.run⟩
  · rw [if_neg hp, scoreBatch_cpu hdevice, h.packed]
    cases hs : scoreRowsCpu scorers.cpu (b.pending.map Prod.snd) with
    | error e => exact .error e
    | ok scores =>
      have hlen : scores.length = st.metadata.length := by
        rw [length_scoreRowsCpu hs, List.length_map, hlength]
      simp only [ok_bind, pure_bind, zipStrict_of_length hlen]
      obtain ⟨hwinners, hkeyed⟩ := foldl_awardPopulation_view (st.metadata.zip scores) h.keyed
      refine .ok ⟨rfl, rfl, fun key => by simp, ?_, hkeyed, h.run⟩
      have hzip : ((st.metadata.zip scores).map fun s => (stripComponents s.1, s.2)) =
          (b.pending.map Prod.fst).zip scores := by
        rw [← h.metadata, List.zip_map_left]
        rfl
      rw [hwinners, hzip, h.winners]

theorem map_strip_modify (metadata : List (Nat × StreamCandidate)) (position componentIndex : Nat) :
    (metadata.modify position (addComponent componentIndex)).map stripComponents = metadata.map stripComponents := by
  induction metadata generalizing position with
  | nil => simp
  | cons entry metadata ih =>
    cases position with
    | zero => rfl
    | succ position => simpa using ih position

theorem streamPopulation_view (hcpu : authority.device? backendId = some .cpu) {index : CandidateIndex}
    {chunkRows : Int} {function : QueryFunction} {functionIndex componentIndex : Nat} {st : PopulationStream κ}
    {b : Buffer Item (Winners κ)} {row : CandidateRow} (h : PopulationView backendId st b) :
    Simulates (PopulationView backendId)
      (streamPopulation scorers authority fallbackToCpu index chunkRows function functionIndex componentIndex st row)
      (do
        let item ← prepareRow authority.semantics index function functionIndex row
        b.offer (eat holdFirst scorers.cpu) knownItem (fun xs => chunkRows ≤ xs.length) item) := by
  unfold streamPopulation prepareRow
  cases rowCandidate authority.semantics index function row with
  | error e => exact .error e
  | ok candidate =>
    simp only [ok_bind]
    cases scoreInputs function.toFunctionIdentity candidate authority.semantics with
    | error e => exact .error e
    | ok input =>
      simp only [ok_bind, pure_bind, Buffer.offer, decide_eq_true_eq]
      have hknown : (st.packedKeys.get? (itemKey ((functionIndex, candidate), input))).isSome ↔
          knownItem b.pending ((functionIndex, candidate), input) = true := by
        rw [h.packedKeys, knownItem, decide_eq_true_eq]
      have hidentity : (⟨functionIndex, candidate.candidateId, candidate.owner, candidate.name, input⟩ : PackedKey) =
          itemKey ((functionIndex, candidate), input) := rfl
      rw [hidentity]
      cases hkey : st.packedKeys.get? (itemKey ((functionIndex, candidate), input)) with
      | some duplicate =>
        rw [if_pos (hknown.mp (by rw [hkey]; rfl))]
        refine .ok ⟨h.packed, ?_, h.packedKeys, h.winners, h.keyed, h.run⟩
        rw [map_strip_modify, h.metadata]
      | none =>
        have hfresh : ¬knownItem b.pending ((functionIndex, candidate), input) = true := fun hk => by
          simpa [hkey] using hknown.mpr hk
        have hnew : PopulationView backendId
            { st with
              rawCandidateCount := st.rawCandidateCount + 1
              componentCounts := st.componentCounts.modify componentIndex (· + 1)
              packedKeys := st.packedKeys.set (itemKey ((functionIndex, candidate), input)) st.packed.length
              packed := st.packed ++ [input]
              metadata := st.metadata ++ [(functionIndex, ⟨candidate, [componentIndex]⟩)]
              scoredCandidateCount := st.scoredCandidateCount + 1 }
            ⟨b.pending ++ [((functionIndex, candidate), input)], b.sink⟩ := by
          refine ⟨by simp [h.packed], by simp [h.metadata, stripComponents], fun key => ?_, h.winners, h.keyed, h.run⟩
          rw [Dict.get?_set, List.map_append, List.mem_append, ← h.packedKeys]
          split
          · rename_i hk
            simp [hk]
          · rename_i hk
            simp [hk]
        have hlen : (st.packed ++ [input]).length = (b.pending ++ [((functionIndex, candidate), input)]).length := by
          simp [h.packed]
        simp only [if_neg hfresh, hlen]
        split
        · exact flushPopulation_view hcpu hnew
        · exact .ok hnew

end population

end FidbPoc.Matching
