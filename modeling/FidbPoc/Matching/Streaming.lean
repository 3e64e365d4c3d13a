import FidbPoc.Lib.Buffer
import FidbPoc.Matching.Compact
import Mathlib.Logic.Function.Basic

namespace FidbPoc.Matching

open FidbPoc.Lib FidbPoc.Lib.Checked FidbPoc.Lib.Leaders

variable {κ : Type} [LinearOrder κ]

section rows

variable (score : RowScorer κ) (semantics : Semantics κ) (index : CandidateIndex)

/-- A candidate row, ready to be scored for a function. -/
abbrev Item := (Nat × Candidate) × ScoreInput

def prepareRow (function : QueryFunction) (functionIndex : Nat) (row : CandidateRow) : Result Item := do
  let candidate ← rowCandidate semantics index function row
  let input ← scoreInputs function.toFunctionIdentity candidate semantics
  pure ((functionIndex, candidate), input)

/-- The match that one row scores, if it is accepted. -/
def rowMatch (function : QueryFunction) (row : CandidateRow) : Result (Option (Match κ)) := do
  let candidate ← rowCandidate semantics index function row
  let input ← scoreInputs function.toFunctionIdentity candidate semantics
  let score ← score input
  pure (score.map (candidateMatch candidate))

end rows

section view

/-- The winners of each function, whatever container holds them. -/
abbrev Winners (κ : Type) := Nat → Option (κ × List (Match κ))

def noWinners : Winners κ := fun _ => none

variable (join : List (Match κ) → Match κ → List (Match κ))

def award (winners : Winners κ) (scored : Nat × Option (Match κ)) : Winners κ :=
  match scored.2 with
  | none => winners
  | some found => Function.update winners scored.1 (challenge Match.score join (winners scored.1) found)

def scoreItem (score : RowScorer κ) (item : Item) : Result (Nat × Option (Match κ)) := do
  let score ← score item.2
  pure (item.1.1, score.map (candidateMatch item.1.2))

/-- The consumer of both streams: score one item and let it challenge. -/
def eat (score : RowScorer κ) (winners : Winners κ) (item : Item) : Result (Winners κ) := do
  let scored ← scoreItem score item
  pure (award join winners scored)

theorem award_eq (winners : Winners κ) (scored : Nat × Option (Match κ)) (i : Nat) :
    award join winners scored i =
      if scored.1 = i then scored.2.toList.foldl (challenge Match.score join) (winners i) else winners i := by
  obtain ⟨j, found⟩ := scored
  cases found with
  | none => simp [award]
  | some found =>
    by_cases h : j = i
    · subst h
      simp [award]
    · simp [award, Function.update_of_ne (Ne.symm h), h]

/-- A function sees the matches under its own index only. -/
theorem foldl_award (scored : List (Nat × Option (Match κ))) (winners : Winners κ) (i : Nat) :
    scored.foldl (award join) winners i =
      ((scored.filter fun s => s.1 = i).filterMap Prod.snd).foldl (challenge Match.score join) (winners i) := by
  induction scored generalizing winners with
  | nil => rfl
  | cons s scored ih =>
    rw [List.foldl_cons, ih, award_eq]
    by_cases h : s.1 = i
    · cases hs : s.2 with
      | none => simp [h, hs]
      | some found => simp [h, hs]
    · simp [h]

end view

section lists

variable {α β : Type}

theorem filter_flatMap_zipIdx {g : α → Nat → List (Nat × β)} (hg : ∀ x j, ∀ y ∈ g x j, y.1 = j) (xs : List α)
    (n i : Nat) :
    ((xs.zipIdx n).flatMap fun p => g p.1 p.2).filter (fun y => y.1 = n + i) =
      (xs[i]?.map fun x => g x (n + i)).getD [] := by
  induction xs generalizing n i with
  | nil => rfl
  | cons x xs ih =>
    simp only [List.zipIdx_cons, List.flatMap_cons, List.filter_append]
    cases i with
    | zero =>
      have hrest : ((xs.zipIdx (n + 1)).flatMap fun p => g p.1 p.2).filter (fun y => y.1 = n + 0) = [] := by
        refine List.filter_eq_nil_iff.mpr fun y hy => ?_
        obtain ⟨p, hp, hy⟩ := List.mem_flatMap.mp hy
        have hle := List.le_snd_of_mem_zipIdx hp
        have hj := hg _ _ y hy
        simp only [decide_eq_true_eq]
        omega
      have hfirst : (g x n).filter (fun y => y.1 = n + 0) = g x n :=
        List.filter_eq_self.mpr fun y hy => by simp [hg _ _ y hy]
      rw [hrest, hfirst]
      simp
    | succ i =>
      have hfirst : (g x n).filter (fun y => y.1 = n + (i + 1)) = [] :=
        List.filter_eq_nil_iff.mpr fun y hy => by simp [hg _ _ y hy]
      have harith : n + (i + 1) = n + 1 + i := by omega
      rw [hfirst, List.nil_append, harith, ih]
      simp

theorem map_zipIdx_eq {h : α → Nat → β} {g : α → β} {xs : List α}
    (heq : ∀ i x, xs[i]? = some x → h x i = g x) : (xs.zipIdx.map fun p => h p.1 p.2) = xs.map g := by
  have hfst : xs = xs.zipIdx.map Prod.fst := by simp
  conv_rhs => rw [hfst, List.map_map]
  refine List.map_congr_left fun p hp => ?_
  exact heq _ _ (List.mem_zipIdx_iff_getElem?.mp hp)

end lists

section batch

variable (join : List (Match κ) → Match κ → List (Match κ))

/-- The award of a candidate and its score, as `flush` zips them. -/
def awardScored (winners : Winners κ) (scored : (Nat × Candidate) × Option κ) : Winners κ :=
  award join winners (scored.1.1, scored.2.map (candidateMatch scored.1.2))

/-- Eating item by item is scoring the whole batch first. -/
theorem foldlM_eat (score : RowScorer κ) (pending : List Item) (winners : Winners κ) :
    pending.foldlM (eat join score) winners = (do
      let scores ← scoreRowsCpu score (pending.map Prod.snd)
      pure (((pending.map Prod.fst).zip scores).foldl (awardScored join) winners)) := by
  unfold scoreRowsCpu
  induction pending generalizing winners with
  | nil => rfl
  | cons item pending ih =>
    rw [List.foldlM_cons, List.map_cons, List.mapM_cons]
    unfold eat scoreItem at ih ⊢
    cases score item.2 with
    | error e => rfl
    | ok s =>
      simp only [ok_bind, pure_bind, ih]
      cases (pending.map Prod.snd).mapM score with
      | error e => rfl
      | ok scores => rfl

variable {scorers : Scorers κ} {authority : Authority κ} {fallbackToCpu : Bool} {run : Execution}

omit [LinearOrder κ] in
theorem scoreBatch_cpu (hcpu : authority.device? run.effectiveBackend = some .cpu) (packed : List ScoreInput) :
    scoreBatch scorers authority fallbackToCpu run packed =
      (do let scores ← scoreRowsCpu scorers.cpu packed; pure (scores, run)) := by
  simp [scoreBatch, hcpu]

omit [LinearOrder κ] in
theorem length_scoreRowsCpu {score : RowScorer κ} {rows : List ScoreInput} {scores : List (Option κ)}
    (h : scoreRowsCpu score rows = .ok scores) : scores.length = rows.length :=
  (mapM_eq_ok h).length_eq.symm

theorem zipStrict_of_length {α β : Type} {left : List α} {right : List β} (h : right.length = left.length) :
    zipStrict left right = .ok (left.zip right) := by
  simp [zipStrict, require, h, ok_bind]

end batch

section runs

variable {ρ : Type} {join : List (Match κ) → Match κ → List (Match κ)} {score : RowScorer κ}
  {known : List Item → Item → Bool} {cursorOf : QueryFunction → List ρ}
  {prepare : QueryFunction → Nat → ρ → Result Item} {matchOf : QueryFunction → ρ → Result (Option (Match κ))}

/-- The loop over the functions and their rows, on the consumer behind a buffer. -/
def streamFunctions (join : List (Match κ) → Match κ → List (Match κ)) (score : RowScorer κ)
    (known : List Item → Item → Bool) (full : List Item → Bool) (cursorOf : QueryFunction → List ρ)
    (prepare : QueryFunction → Nat → ρ → Result Item) (functions : List QueryFunction) :
    Result (Buffer Item (Winners κ)) :=
  functions.zipIdx.foldlM (fun b p => (cursorOf p.1).foldlM (fun b row => do
    let item ← prepare p.1 p.2 row
    b.offer (eat join score) known full item) b) ⟨[], noWinners⟩

/-- The rows of the whole run: function, its index, row. -/
def streamRows (cursorOf : QueryFunction → List ρ) (functions : List QueryFunction) :
    List (QueryFunction × Nat × ρ) :=
  functions.zipIdx.flatMap fun p => (cursorOf p.1).map fun row => (p.1, p.2, row)

def acceptedOf (cursorOf : QueryFunction → List ρ) (matchOf : QueryFunction → ρ → Result (Option (Match κ)))
    (function : QueryFunction) : Result (List (Match κ)) := do
  let found ← (cursorOf function).mapM (matchOf function)
  pure (found.filterMap id)

/-- Every accepted match of a function in an index, in the order of the cursor. -/
def acceptedMatches (score : RowScorer κ) (semantics : Semantics κ) (index : CandidateIndex)
    (routeId treatmentId : String) : QueryFunction → Result (List (Match κ)) :=
  acceptedOf (fun f => index.cursor routeId treatmentId f.fullHash) (rowMatch score semantics index)

theorem streamFunctions_eq (full : List Item → Bool) (functions : List QueryFunction) :
    streamFunctions join score known full cursorOf prepare functions =
      (streamRows cursorOf functions).foldlM (fun b r => do
        let item ← prepare r.1 r.2.1 r.2.2
        b.offer (eat join score) known full item) ⟨[], noWinners⟩ := by
  simp only [streamFunctions, streamRows, foldlM_flatMap, List.foldlM_map]

/-- The stream of `match_compact` interns nothing. -/
def neverKnown (_ : List Item) (_ : Item) : Bool := false

theorem neverKnown_eaten (join : List (Match κ) → Match κ → List (Match κ)) (score : RowScorer κ) (xs : List Item)
    (x : Item) (s t : Winners κ) (h : neverKnown xs x = true) (_ : xs.foldlM (eat join score) s = .ok t) :
    eat join score t x = .ok t := by
  cases h

/-- Through the buffer, a run returns what scoring every row in turn returns. -/
theorem streamFunctions_eq_ok
    (hknown : ∀ xs x s t, known xs x = true → xs.foldlM (eat join score) s = .ok t → eat join score t x = .ok t)
    (hmatch : ∀ f i row, (prepare f i row >>= scoreItem score) = (do let m ← matchOf f row; pure (i, m)))
    (full : List Item → Bool) (functions : List QueryFunction) {winners : Winners κ} :
    (∃ b, streamFunctions join score known full cursorOf prepare functions = .ok b ∧
        b.pending.foldlM (eat join score) b.sink = .ok winners) ↔
      ∃ scored, (streamRows cursorOf functions).mapM
          (fun r => do let m ← matchOf r.1 r.2.2; pure (r.2.1, m)) = .ok scored ∧
        scored.foldl (award join) noWinners = winners := by
  have hrow : ∀ (w : Winners κ) (r : QueryFunction × Nat × ρ),
      (do let item ← prepare r.1 r.2.1 r.2.2; eat join score w item) =
        (do let s ← (do let m ← matchOf r.1 r.2.2; pure (r.2.1, m)); pure (award join w s)) := by
    intro w r
    rw [← hmatch, bind_assoc]
    rfl
  rw [streamFunctions_eq]
  calc
    _ ↔ ∃ items, (streamRows cursorOf functions).mapM (fun r => prepare r.1 r.2.1 r.2.2) = .ok items ∧
          items.foldlM (eat join score) noWinners = .ok winners := by
      simp only [foldlM_prepare]
      constructor
      · rintro ⟨b, ⟨items, hi, hb⟩, hw⟩
        exact ⟨items, hi, (Buffer.foldlM_offer hknown items _).mp ⟨b, hb, hw⟩⟩
      · rintro ⟨items, hi, hw⟩
        obtain ⟨b, hb, hw⟩ := (Buffer.foldlM_offer hknown items ⟨[], noWinners⟩).mpr hw
        exact ⟨b, ⟨items, hi, hb⟩, hw⟩
    _ ↔ (streamRows cursorOf functions).foldlM (fun w r => do
          let item ← prepare r.1 r.2.1 r.2.2
          eat join score w item) noWinners = .ok winners := foldlM_prepare.symm
    _ ↔ _ := by
      simp only [hrow, foldlM_mapM, bind_eq_ok, pure_eq_ok]

omit [LinearOrder κ] in
theorem acceptedOf_eq_ok_iff {function : QueryFunction} {found : List (Match κ)} :
    acceptedOf cursorOf matchOf function = .ok found ↔
      (∀ row ∈ cursorOf function, ∃ m, matchOf function row = .ok m) ∧
        found = (cursorOf function).filterMap fun row => value (matchOf function row) := by
  unfold acceptedOf
  simp only [bind_eq_ok, pure_eq_ok, mapM_eq_ok_iff]
  constructor
  · rintro ⟨_, ⟨hall, rfl⟩, rfl⟩
    exact ⟨hall, by simp [List.filterMap_map]⟩
  · rintro ⟨hall, rfl⟩
    exact ⟨_, ⟨hall, rfl⟩, by simp [List.filterMap_map]⟩

theorem mem_streamRows {functions : List QueryFunction} {r : QueryFunction × Nat × ρ} :
    r ∈ streamRows cursorOf functions ↔ functions[r.2.1]? = some r.1 ∧ r.2.2 ∈ cursorOf r.1 := by
  obtain ⟨f, i, row⟩ := r
  simp only [streamRows, List.mem_flatMap, List.mem_map, Prod.mk.injEq, Prod.exists]
  constructor
  · rintro ⟨g, j, hg, row', hrow, rfl, rfl, rfl⟩
    exact ⟨List.mem_zipIdx_iff_getElem?.mp hg, hrow⟩
  · rintro ⟨hf, hrow⟩
    exact ⟨f, i, List.mem_zipIdx_iff_getElem?.mpr hf, row, hrow, rfl, rfl, rfl⟩

omit [LinearOrder κ] in
/-- A run returns exactly when every function can be scored. -/
theorem streamRows_scored_iff (functions : List QueryFunction) :
    (∃ scored, (streamRows cursorOf functions).mapM (fun r => do
        let m ← matchOf r.1 r.2.2
        pure (r.2.1, m)) = .ok scored) ↔
      ∀ f ∈ functions, ∃ found, acceptedOf cursorOf matchOf f = .ok found := by
  simp only [mapM_eq_ok_iff, acceptedOf_eq_ok_iff, exists_and_left, exists_eq, and_true, bind_eq_ok, pure_eq_ok]
  constructor
  · intro h f hf row hrow
    obtain ⟨i, hi⟩ := List.mem_iff_getElem?.mp hf
    obtain ⟨_, m, hm, -⟩ := h (f, i, row) (mem_streamRows.mpr ⟨hi, hrow⟩)
    exact ⟨m, hm⟩
  · intro h r hr
    obtain ⟨hf, hrow⟩ := mem_streamRows.mp hr
    obtain ⟨m, hm⟩ := h r.1 (List.mem_of_getElem? hf) r.2.2 hrow
    exact ⟨_, m, hm, rfl⟩

/-- The winners of a function are the running maximum of its accepted matches. -/
theorem winners_of_scored (join : List (Match κ) → Match κ → List (Match κ)) {functions : List QueryFunction} {scored : List (Nat × Option (Match κ))}
    (h : (streamRows cursorOf functions).mapM (fun r => do
        let m ← matchOf r.1 r.2.2
        pure (r.2.1, m)) = .ok scored) {i : Nat} {function : QueryFunction} (hi : functions[i]? = some function) :
    scored.foldl (award join) noWinners i =
      (value (acceptedOf cursorOf matchOf function)).foldl (challenge Match.score join) none := by
  obtain ⟨hall, rfl⟩ := mapM_eq_ok_iff.mp h
  have hvalue : (streamRows cursorOf functions).map (fun r => value (do
        let m ← matchOf r.1 r.2.2
        pure (r.2.1, m))) =
      functions.zipIdx.flatMap fun p => (cursorOf p.1).map fun row => (p.2, value (matchOf p.1 row)) := by
    simp only [streamRows, List.map_flatMap, List.map_map]
    refine List.flatMap_congr fun p hp => List.map_congr_left fun row hrow => ?_
    obtain ⟨_, hm⟩ := hall (p.1, p.2, row) (mem_streamRows.mpr ⟨List.mem_zipIdx_iff_getElem?.mp hp, hrow⟩)
    obtain ⟨m, hm, -⟩ := bind_eq_ok.mp hm
    simp only [Function.comp_apply, hm]
    rfl
  have hfilter := filter_flatMap_zipIdx
    (g := fun f j => (cursorOf f).map fun row => (j, value (matchOf f row)))
    (fun f j y hy => by obtain ⟨row, -, rfl⟩ := List.mem_map.mp hy; rfl) functions 0 i
  rw [Nat.zero_add] at hfilter
  have hf : ∃ found, acceptedOf cursorOf matchOf function = .ok found :=
    (streamRows_scored_iff functions).mp ⟨_, h⟩ function (List.mem_of_getElem? hi)
  obtain ⟨found, hf⟩ := hf
  rw [foldl_award, hvalue, hfilter, hi, hf, (acceptedOf_eq_ok_iff.mp hf).2]
  simp [value, List.filterMap_map, noWinners]

end runs

section compact

variable {scorers : Scorers κ} {authority : Authority κ} {fallbackToCpu : Bool} {backendId : String}

/-- The stream of `match_compact` as a consumer behind a buffer. -/
structure CompactView (backendId : String) (st : CompactStream κ) (b : Buffer Item (Winners κ)) : Prop where
  packed : st.packed = b.pending.map Prod.snd
  metadata : st.metadata = b.pending.map Prod.fst
  winners : ∀ i, st.winners.get? i = b.sink i
  run : st.run = .initial backendId

theorem awardCompact_view {winners : Dict Nat (κ × List (Match κ))} {view : Winners κ}
    (h : ∀ i, winners.get? i = view i) (scored : (Nat × Candidate) × Option κ) (i : Nat) :
    (awardCompact winners scored).get? i = awardScored holdAll view scored i := by
  obtain ⟨⟨j, candidate⟩, score⟩ := scored
  cases score with
  | none => simpa [awardCompact, awardScored, award] using h i
  | some score =>
    by_cases hi : i = j
    · subst hi
      simp only [awardCompact, awardScored, award, Option.map_some, Function.update_self, ← h, challenge]
      cases hw : winners.get? i with
      | none => simp [holdAll, candidateMatch]
      | some current =>
        simp only [candidateMatch]
        by_cases hlt : current.1 < score
        · simp [hlt, holdAll]
        · by_cases heq : score = current.1
          · simp [heq, holdAll]
          · simp [hlt, heq, hw]
    · simp only [awardCompact, awardScored, award, Option.map_some, Function.update_of_ne hi]
      cases winners.get? j with
      | none => simp [Dict.get?_set, hi, h]
      | some current =>
        simp only
        split
        · simp [Dict.get?_set, hi, h]
        · split <;> simp [Dict.get?_set, hi, h]

theorem foldl_awardCompact_view (scored : List ((Nat × Candidate) × Option κ))
    {winners : Dict Nat (κ × List (Match κ))} {view : Winners κ} (h : ∀ i, winners.get? i = view i) (i : Nat) :
    (scored.foldl awardCompact winners).get? i = scored.foldl (awardScored holdAll) view i := by
  induction scored generalizing winners view with
  | nil => exact h i
  | cons s scored ih => exact ih (awardCompact_view h s)

theorem flushCompact_view (hcpu : authority.device? backendId = some .cpu) {st : CompactStream κ}
    {b : Buffer Item (Winners κ)} (h : CompactView backendId st b) :
    Simulates (CompactView backendId) (flushCompact scorers authority fallbackToCpu st)
      (b.flush (eat holdAll scorers.cpu)) := by
  have hdevice : authority.device? st.run.effectiveBackend = some .cpu := by rw [h.run]; exact hcpu
  unfold flushCompact Buffer.flush
  rw [foldlM_eat]
  by_cases hp : st.packed = []
  · have hpending : b.pending = [] := List.map_eq_nil_iff.mp (h.packed ▸ hp)
    rw [if_pos hp, hpending]
    exact .ok ⟨hp, by simp [h.metadata, hpending], h.winners, h.run⟩
  · rw [if_neg hp, scoreBatch_cpu hdevice, h.packed]
    cases hs : scoreRowsCpu scorers.cpu (b.pending.map Prod.snd) with
    | error e => exact .error e
    | ok scores =>
      have hlen : scores.length = st.metadata.length := by
        rw [length_scoreRowsCpu hs, h.metadata, List.length_map, List.length_map]
      simp only [ok_bind, pure_bind, zipStrict_of_length hlen]
      refine .ok ⟨rfl, rfl, fun i => ?_, h.run⟩
      rw [← h.metadata]
      exact foldl_awardCompact_view _ h.winners i

theorem streamCompact_view (hcpu : authority.device? backendId = some .cpu) {index : CandidateIndex}
    {chunkRows : Int} {function : QueryFunction} {functionIndex : Nat} {st : CompactStream κ}
    {b : Buffer Item (Winners κ)} {row : CandidateRow} (h : CompactView backendId st b) :
    Simulates (CompactView backendId)
      (streamCompact scorers authority fallbackToCpu index chunkRows function functionIndex st row)
      (do
        let item ← prepareRow authority.semantics index function functionIndex row
        b.offer (eat holdAll scorers.cpu) neverKnown (fun xs => chunkRows ≤ xs.length) item) := by
  unfold streamCompact prepareRow
  cases rowCandidate authority.semantics index function row with
  | error e => exact .error e
  | ok candidate =>
    simp only [ok_bind]
    cases scoreInputs function.toFunctionIdentity candidate authority.semantics with
    | error e => exact .error e
    | ok input =>
      simp only [ok_bind, pure_bind, Buffer.offer, neverKnown, Bool.false_eq_true, if_false, decide_eq_true_eq]
      have hnew : CompactView backendId
          { st with
            packed := st.packed ++ [input]
            metadata := st.metadata ++ [(functionIndex, candidate)]
            candidateCount := st.candidateCount + 1 }
          ⟨b.pending ++ [((functionIndex, candidate), input)], b.sink⟩ :=
        ⟨by simp [h.packed], by simp [h.metadata], h.winners, h.run⟩
      have hlen : (st.packed ++ [input]).length = (b.pending ++ [((functionIndex, candidate), input)]).length := by
        simp [h.packed]
      rw [hlen]
      split
      · exact flushCompact_view hcpu hnew
      · exact .ok hnew

/-- The loop of `match_compact` is the run on a buffer that knows no item. -/
theorem loopCompact_view (fallbackToCpu : Bool) (hcpu : authority.device? backendId = some .cpu) {index : CandidateIndex}
    {chunkRows : Int} (routeId treatmentId : String) (functions : List QueryFunction) :
    Simulates (CompactView backendId)
      (functions.zipIdx.foldlM (fun st (function, functionIndex) =>
        (index.cursor routeId treatmentId function.fullHash).foldlM
          (streamCompact scorers authority fallbackToCpu index chunkRows function functionIndex) st)
        (CompactStream.initial backendId))
      (streamFunctions holdAll scorers.cpu neverKnown (fun xs => chunkRows ≤ xs.length)
        (fun f => index.cursor routeId treatmentId f.fullHash) (prepareRow authority.semantics index) functions) := by
  have hinitial : CompactView backendId (.initial backendId) (⟨[], noWinners⟩ : Buffer Item (Winners κ)) :=
    ⟨rfl, rfl, fun _ => rfl, rfl⟩
  unfold streamFunctions
  refine Simulates.foldlM (fun st b p h => ?_) _ hinitial
  obtain ⟨function, i⟩ := p
  apply Simulates.foldlM (r := CompactView backendId)
  · intro st b row h
    exact streamCompact_view hcpu h
  · exact h

omit [LinearOrder κ] in
theorem prepareRow_scoreItem (score : RowScorer κ) (semantics : Semantics κ) (index : CandidateIndex)
    (function : QueryFunction) (i : Nat) (row : CandidateRow) :
    (prepareRow semantics index function i row >>= scoreItem score) =
      (do let m ← rowMatch score semantics index function row; pure (i, m)) := by
  unfold prepareRow rowMatch scoreItem
  cases rowCandidate semantics index function row with
  | error e => rfl
  | ok candidate =>
    simp only [ok_bind]
    cases scoreInputs function.toFunctionIdentity candidate semantics with
    | error e => rfl
    | ok input =>
      simp only [ok_bind, pure_bind]
      cases score input with
      | error e => rfl
      | ok s => rfl

/-- The decision that streaming should reach for a function. -/
def leadingDecision (score : RowScorer κ) (semantics : Semantics κ) (index : CandidateIndex)
    (routeId treatmentId : String) (function : QueryFunction) : Decision (Match κ) :=
  ⟨function.toFunctionIdentity,
    (leaders Match.score (value (acceptedMatches score semantics index routeId treatmentId function))).insertionSort
      (matchOrder Match.candidateId)⟩

omit [LinearOrder κ] in
theorem requireBackend_eq_ok {chunkRows : Int} {u : Unit} :
    requireBackend authority chunkRows backendId = .ok u ↔ 1 ≤ chunkRows ∧ (authority.device? backendId).isSome := by
  simp only [requireBackend, bind_eq_ok, require_eq_ok, exists_const]

theorem openIndex_eq_ok {files : IndexFiles} {path : String} {file : IndexFile} :
    openIndex files path = .ok file ↔ files path = some file := by
  unfold openIndex
  split
  · rename_i hfile
    rw [pure_eq_ok, hfile, Option.some.injEq]
  · rename_i hfile
    simp [hfile]

variable {files : IndexFiles} {path : String} {functions : List QueryFunction} {routeId treatmentId : String}
  {chunkRows : Int}

/-- What `match_compact` returns on the CPU. -/
theorem matchCompact_of_ok (hcpu : authority.device? backendId = some .cpu) {report : CompactReport κ}
    (h : matchCompact scorers authority fallbackToCpu files path functions routeId treatmentId backendId chunkRows =
      .ok report) :
    1 ≤ chunkRows ∧ report.backend = backendId ∧ report.requestedBackend = backendId ∧
      ∃ file, files path = some file ∧
        (∀ f ∈ functions, ∃ found,
          acceptedMatches scorers.cpu authority.semantics file.index routeId treatmentId f = .ok found) ∧
        report.functions =
          functions.map (leadingDecision scorers.cpu authority.semantics file.index routeId treatmentId) := by
  unfold matchCompact at h
  simp only [bind_eq_ok, pure_eq_ok, requireBackend_eq_ok, openIndex_eq_ok, exists_const] at h
  obtain ⟨⟨hchunk, -⟩, file, hfile, st, hst, flushed, hflush, rfl⟩ := h
  obtain ⟨b, hb, hview⟩ := (loopCompact_view fallbackToCpu hcpu routeId treatmentId functions).of_ok hst
  obtain ⟨c, hc, hview⟩ := (flushCompact_view hcpu hview).of_ok hflush
  obtain ⟨-, hsink⟩ := Buffer.flush_eq_ok.mp hc
  obtain ⟨scored, hscored, hwinners⟩ :=
    (streamFunctions_eq_ok (neverKnown_eaten holdAll scorers.cpu)
      (prepareRow_scoreItem scorers.cpu authority.semantics file.index) _ functions).mp ⟨b, hb, hsink⟩
  refine ⟨hchunk, by rw [hview.run]; rfl, rfl, file, hfile, (streamRows_scored_iff functions).mp ⟨scored, hscored⟩, ?_⟩
  refine map_zipIdx_eq fun i f hi => ?_
  have hi := winners_of_scored holdAll hscored hi
  rw [hwinners, ← hview.winners] at hi
  unfold compactDecision leadingDecision
  rw [hi, held_holdAll]
  rfl

theorem matchCompact_total (hcpu : authority.device? backendId = some .cpu) (hchunk : 1 ≤ chunkRows)
    {file : IndexFile} (hfile : files path = some file)
    (hscored : ∀ f ∈ functions, ∃ found,
      acceptedMatches scorers.cpu authority.semantics file.index routeId treatmentId f = .ok found) :
    ∃ report, matchCompact scorers authority fallbackToCpu files path functions routeId treatmentId backendId
      chunkRows = .ok report := by
  obtain ⟨scored, hscored⟩ := (streamRows_scored_iff functions).mpr hscored
  obtain ⟨b, hb, hsink⟩ :=
    (streamFunctions_eq_ok (neverKnown_eaten holdAll scorers.cpu)
      (prepareRow_scoreItem scorers.cpu authority.semantics file.index) (fun xs => chunkRows ≤ xs.length)
      functions).mpr ⟨scored, hscored, rfl⟩
  obtain ⟨st, hst, hview⟩ := (loopCompact_view fallbackToCpu hcpu routeId treatmentId functions).to_ok hb
  have hc : b.flush (eat holdAll scorers.cpu) = .ok ⟨[], _⟩ := Buffer.flush_eq_ok.mpr ⟨rfl, hsink⟩
  obtain ⟨flushed, hflush, -⟩ := (flushCompact_view hcpu hview).to_ok hc
  have hbackend : requireBackend authority chunkRows backendId = .ok () :=
    requireBackend_eq_ok.mpr ⟨hchunk, by rw [hcpu]; rfl⟩
  unfold matchCompact
  rw [hbackend, ok_bind, openIndex_eq_ok.mpr hfile, ok_bind]
  exact ⟨_, by rw [hst, ok_bind, hflush, ok_bind]; rfl⟩

end compact

end FidbPoc.Matching
