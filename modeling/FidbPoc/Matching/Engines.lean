import FidbPoc.Matching.Culling
import FidbPoc.Matching.Interning
import Mathlib.Data.List.Dedup

namespace FidbPoc.Matching

open FidbPoc.Lib FidbPoc.Lib.Checked FidbPoc.Lib.Leaders

variable {κ : Type} [LinearOrder κ]

section merge

/-- The dictionary of the merge seen from one candidate id. -/
theorem get?_mergeMatch (candidates : Dict String (Match κ)) (found : Match κ) (id : String) :
    (mergeMatch candidates found).get? id =
      if found.candidateId = id then keepBest Match.score (candidates.get? id) found else candidates.get? id := by
  unfold mergeMatch
  by_cases hid : found.candidateId = id
  · subst hid
    rw [if_pos rfl]
    cases hp : candidates.get? found.candidateId with
    | none => simp [keepBest]
    | some previous =>
      simp only [keepBest]
      split
      · simp
      · exact hp
  · have hne : ¬id = found.candidateId := fun h => hid h.symm
    rw [if_neg hid]
    split
    · simp [Dict.get?_set, hne]
    · split
      · simp [Dict.get?_set, hne]
      · rfl

theorem get?_foldl_mergeMatch (found : List (Match κ)) (candidates : Dict String (Match κ)) (id : String) :
    (found.foldl mergeMatch candidates).get? id =
      (found.filter fun m => m.candidateId = id).foldl (keepBest Match.score) (candidates.get? id) := by
  induction found generalizing candidates with
  | nil => rfl
  | cons m found ih =>
    rw [List.foldl_cons, ih, get?_mergeMatch]
    by_cases hid : m.candidateId = id
    · simp [hid]
    · simp [hid]

theorem keyedBy_mergeMatch {candidates : Dict String (Match κ)} (h : candidates.KeyedBy Match.candidateId)
    (found : Match κ) : (mergeMatch candidates found).KeyedBy Match.candidateId := by
  unfold mergeMatch
  split
  · exact h.set rfl
  · split
    · exact h.set rfl
    · exact h

theorem keyedBy_foldl_mergeMatch (found : List (Match κ)) {candidates : Dict String (Match κ)}
    (h : candidates.KeyedBy Match.candidateId) : (found.foldl mergeMatch candidates).KeyedBy Match.candidateId := by
  induction found generalizing candidates with
  | nil => exact h
  | cons m found ih => exact ih (keyedBy_mergeMatch h m)

theorem bestMatches_eq (candidates : List (Match κ)) :
    bestMatches candidates = (leaders Match.score candidates).insertionSort (matchOrder Match.candidateId) := by
  unfold bestMatches leaders top
  cases (candidates.map (·.score)).max? with
  | none => rfl
  | some m => rfl

/-- The merged matches: of each id, the first with the highest score of all. -/
theorem mem_leaders_merged {found : List (Match κ)} {m : κ} (htop : top Match.score found = some m) {x : Match κ} :
    x ∈ leaders Match.score (found.foldl mergeMatch Dict.empty).values ↔
      found.find? (fun y => y.candidateId = x.candidateId && y.score = m) = some x := by
  have hkeyed := keyedBy_foldl_mergeMatch found (Dict.keyedBy_empty Match.candidateId)
  obtain ⟨⟨z, hz, hzm⟩, hle⟩ := top_eq_some_iff.mp htop
  have hget : ∀ id, (found.foldl mergeMatch Dict.empty).get? id =
      (leaders Match.score (found.filter fun y => y.candidateId = id)).head? := fun id => by
    rw [get?_foldl_mergeMatch, Dict.get?_empty, foldl_keepBest]
  have hfirst : ∀ y : Match κ, y ∈ (found.foldl mergeMatch Dict.empty).values ∧ y.score = m ↔
      found.find? (fun z => z.candidateId = y.candidateId && z.score = m) = some y := by
    intro y
    rw [hkeyed.mem_values, hget,
      head?_leaders_eq_some_iff fun w hw => hle w (List.mem_of_mem_filter hw), List.find?_filter]
    simp only [decide_eq_true_eq, Bool.decide_and]
  have hbound : ∀ y ∈ (found.foldl mergeMatch Dict.empty).values, y.score ≤ m := by
    intro y hy
    rw [hkeyed.mem_values, hget] at hy
    exact hle y (List.mem_of_mem_filter (mem_leaders.mp (List.mem_of_head? hy)).1)
  -- some merged match has the highest score
  have hreached : ∃ y ∈ (found.foldl mergeMatch Dict.empty).values, y.score = m := by
    cases hf : found.find? (fun y => y.candidateId = z.candidateId && y.score = m) with
    | none => exact absurd (List.find?_eq_none.mp hf z hz) (by simp [hzm])
    | some y =>
      have hy : y.candidateId = z.candidateId ∧ y.score = m := by simpa using List.find?_some hf
      rw [← hy.1] at hf
      exact ⟨y, (hfirst y).mpr hf⟩
  rw [← hfirst, mem_leaders]
  refine and_congr_right fun hx => ⟨fun h => ?_, fun h y hy => h ▸ hbound y hy⟩
  obtain ⟨y, hy, hym⟩ := hreached
  exact le_antisymm (hbound x hx) (hym ▸ h y hy)

/-- Within distinct ids, sorting and dropping lower scores keeps the match of an id
that has the highest score. -/
theorem find?_sorted_leaders {rows : List (Match κ)} (hids : (rows.map Match.candidateId).Nodup) {m : κ}
    (hle : ∀ x ∈ rows, x.score ≤ m) (id : String) :
    ((leaders Match.score rows).insertionSort (matchOrder Match.candidateId)).find?
        (fun y => y.candidateId = id && y.score = m) =
      rows.find? (fun y => y.candidateId = id && y.score = m) := by
  have hunique : ∀ {l : List (Match κ)}, (l.map Match.candidateId).Nodup → ∀ x,
      l.find? (fun y => y.candidateId = id && y.score = m) = some x ↔
        x ∈ l ∧ x.candidateId = id ∧ x.score = m := by
    intro l hl x
    constructor
    · intro hx
      exact ⟨List.mem_of_find?_eq_some hx, by simpa using List.find?_some hx⟩
    · rintro ⟨hx, hid, hm⟩
      cases hf : l.find? (fun y => y.candidateId = id && y.score = m) with
      | none => exact absurd (List.find?_eq_none.mp hf x hx) (by simp [hid, hm])
      | some y =>
        have hy : y.candidateId = id ∧ y.score = m := by simpa using List.find?_some hf
        rw [List.inj_on_of_nodup_map hl (List.mem_of_find?_eq_some hf) hx (hy.1.trans hid.symm)]
  have hsorted : (((leaders Match.score rows).insertionSort (matchOrder Match.candidateId)).map
      Match.candidateId).Nodup :=
    ((List.perm_insertionSort _ _).map _).nodup_iff.mpr (nodup_leaders hids)
  refine Option.ext fun x => ?_
  rw [hunique hsorted, hunique hids, (List.perm_insertionSort _ _).mem_iff, mem_leaders]
  constructor
  · rintro ⟨⟨hx, -⟩, h⟩
    exact ⟨hx, h⟩
  · rintro ⟨hx, hid, hm⟩
    exact ⟨⟨hx, fun y hy => hm ▸ hle y hy⟩, hid, hm⟩

theorem findSome?_congr {α β : Type} {f g : α → Option β} {l : List α} (h : ∀ x ∈ l, f x = g x) :
    l.findSome? f = l.findSome? g := by
  induction l with
  | nil => rfl
  | cons x l ih =>
    obtain ⟨hx, hl⟩ := List.forall_mem_cons.mp h
    rw [List.findSome?_cons, List.findSome?_cons, hx, ih hl]

/-- Culling each component before the merge decides as one cull that interns. -/
theorem bestMatches_merge {rows : List (List (Match κ))} (hids : ∀ r ∈ rows, (r.map Match.candidateId).Nodup) :
    bestMatches ((rows.flatMap fun r => (leaders Match.score r).insertionSort (matchOrder Match.candidateId)).foldl
        mergeMatch Dict.empty).values =
      (firstBy Match.candidateId (leaders Match.score rows.flatten)).insertionSort (matchOrder Match.candidateId) := by
  rw [bestMatches_eq]
  cases htop : top Match.score rows.flatten with
  | none =>
    have hempty : ∀ r ∈ rows, r = [] := by simpa using top_eq_none_iff.mp htop
    have hfound : (rows.flatMap fun r =>
        (leaders Match.score r).insertionSort (matchOrder Match.candidateId)) = [] :=
      List.flatMap_eq_nil_iff.mpr fun r hr => by rw [hempty r hr]; rfl
    rw [hfound, top_eq_none_iff.mp htop]
    rfl
  | some m =>
    obtain ⟨⟨x, hx, hxm⟩, hle⟩ := top_eq_some_iff.mp htop
    have hrow : ∀ r ∈ rows, ∀ y ∈ r, y.score ≤ m := fun r hr y hy => hle y (List.mem_flatten_of_mem hr hy)
    have hmem : ∀ {y}, (y ∈ rows.flatMap fun r =>
        (leaders Match.score r).insertionSort (matchOrder Match.candidateId)) ↔ ∃ r ∈ rows, y ∈ leaders Match.score r := by
      intro y
      simp only [List.mem_flatMap, (List.perm_insertionSort _ _).mem_iff]
    have hfound : top Match.score (rows.flatMap fun r =>
        (leaders Match.score r).insertionSort (matchOrder Match.candidateId)) = some m := by
      refine top_eq_some_iff.mpr ⟨⟨x, ?_, hxm⟩, fun y hy => ?_⟩
      · obtain ⟨r, hr, hx⟩ := List.mem_flatten.mp hx
        exact hmem.mpr ⟨r, hr, mem_leaders.mpr ⟨hx, fun y hy => hxm ▸ hrow r hr y hy⟩⟩
      · obtain ⟨r, hr, hy⟩ := hmem.mp hy
        exact hrow r hr y (mem_leaders.mp hy).1
    have hids' : ((leaders Match.score ((rows.flatMap fun r => (leaders Match.score r).insertionSort
        (matchOrder Match.candidateId)).foldl mergeMatch Dict.empty).values).map Match.candidateId).Nodup :=
      nodup_leaders (keyedBy_foldl_mergeMatch _ (Dict.keyedBy_empty Match.candidateId)).nodup_values
    refine insertionSort_congr ?_ hids'
    refine (List.perm_ext_iff_of_nodup hids'.of_map (nodup_firstBy _ _).of_map).mpr fun y => ?_
    rw [mem_leaders_merged hfound, mem_firstBy, find?_leaders htop, List.find?_flatMap, List.find?_flatten]
    refine Eq.congr_left ?_
    exact findSome?_congr fun r hr => find?_sorted_leaders (hids r hr) (hrow r hr) y.candidateId

end merge

section runs

variable {scorers : Scorers κ} {authority : Authority κ} {fallbackToCpu : Bool} {backendId : String}
  {files : IndexFiles} {paths : List String} {connections : List IndexFile} {functions : List QueryFunction}
  {routeId treatmentId : String} {chunkRows : Int}

/-- The rows of a function over all components, with the index each comes from. -/
def componentRows (connections : List IndexFile) (routeId treatmentId : String) (function : QueryFunction) :
    List (CandidateIndex × Nat × CandidateRow) :=
  connections.zipIdx.flatMap fun p =>
    (p.1.index.cursor routeId treatmentId function.fullHash).map fun row => (p.1.index, p.2, row)

/-- Every accepted match of a function over all components, in stream order. -/
def populationMatches (score : RowScorer κ) (semantics : Semantics κ) (connections : List IndexFile)
    (routeId treatmentId : String) : QueryFunction → Result (List (Match κ)) :=
  acceptedOf (componentRows connections routeId treatmentId) fun f r => rowMatch score semantics r.1 f r.2.2

omit [LinearOrder κ] in
theorem mem_componentRows {function : QueryFunction} {r : CandidateIndex × Nat × CandidateRow} :
    r ∈ componentRows connections routeId treatmentId function ↔
      ∃ file, connections[r.2.1]? = some file ∧ r.1 = file.index ∧
        r.2.2 ∈ file.index.cursor routeId treatmentId function.fullHash := by
  obtain ⟨index, c, row⟩ := r
  simp only [componentRows, List.mem_flatMap, List.mem_map, Prod.mk.injEq, Prod.exists]
  constructor
  · rintro ⟨file, _, hfile, _, hrow, rfl, rfl, rfl⟩
    exact ⟨file, List.mem_zipIdx_iff_getElem?.mp hfile, rfl, hrow⟩
  · rintro ⟨file, hfile, rfl, hrow⟩
    exact ⟨file, c, List.mem_zipIdx_iff_getElem?.mpr hfile, row, hrow, rfl, rfl, rfl⟩

omit [LinearOrder κ] in
theorem populationMatches_eq_ok_iff {score : RowScorer κ} {semantics : Semantics κ} {function : QueryFunction}
    {found : List (Match κ)} :
    populationMatches score semantics connections routeId treatmentId function = .ok found ↔
      (∀ file ∈ connections, ∃ found,
        acceptedMatches score semantics file.index routeId treatmentId function = .ok found) ∧
      found = connections.flatMap fun file =>
        value (acceptedMatches score semantics file.index routeId treatmentId function) := by
  have hall : (∀ r ∈ componentRows connections routeId treatmentId function,
        ∃ m, rowMatch score semantics r.1 function r.2.2 = .ok m) ↔
      ∀ file ∈ connections, ∃ found,
        acceptedMatches score semantics file.index routeId treatmentId function = .ok found := by
    simp only [acceptedMatches, acceptedOf_eq_ok_iff, exists_and_left, exists_eq, and_true]
    constructor
    · intro h file hfile row hrow
      obtain ⟨c, hc⟩ := List.mem_iff_getElem?.mp hfile
      exact h (file.index, c, row) (mem_componentRows.mpr ⟨file, hc, rfl, hrow⟩)
    · intro h r hr
      obtain ⟨file, hfile, hindex, hrow⟩ := mem_componentRows.mp hr
      rw [hindex]
      exact h file (List.mem_of_getElem? hfile) r.2.2 hrow
  unfold populationMatches
  rw [acceptedOf_eq_ok_iff, hall]
  refine and_congr_right fun h => Eq.congr_right ?_
  have hfst : connections = connections.zipIdx.map Prod.fst := by simp
  conv_rhs => rw [hfst, List.flatMap_map]
  unfold componentRows
  rw [List.filterMap_flatMap]
  refine List.flatMap_congr fun p hp => ?_
  obtain ⟨found, hfound⟩ := h p.1 (List.mem_of_getElem? (List.mem_zipIdx_iff_getElem?.mp hp))
  rw [hfound, List.filterMap_map]
  exact (acceptedOf_eq_ok_iff.mp hfound).2.symm

/-- The decision that interning should reach for a function. -/
def internedDecision (score : RowScorer κ) (semantics : Semantics κ) (connections : List IndexFile)
    (routeId treatmentId : String) (function : QueryFunction) : Decision (Match κ) :=
  ⟨function.toFunctionIdentity, (firstBy Match.candidateId (leaders Match.score
    (value (populationMatches score semantics connections routeId treatmentId function)))).insertionSort
      (matchOrder Match.candidateId)⟩

/-- A population decision without the components that supplied its matches. -/
def plainDecision (decision : Decision (PopulationMatch κ)) : Decision (Match κ) :=
  ⟨decision.toFunctionIdentity, decision.found.map PopulationMatch.toMatch⟩

theorem loopPopulation_view (fallbackToCpu : Bool) (hcpu : authority.device? backendId = some .cpu)
    (connections : List IndexFile) (routeId treatmentId : String) (functions : List QueryFunction)
    (chunkRows : Int) (components : Nat) :
    Simulates (PopulationView backendId)
      (functions.zipIdx.foldlM (fun st (function, functionIndex) =>
        connections.zipIdx.foldlM (fun st (file, componentIndex) =>
          (file.index.cursor routeId treatmentId function.fullHash).foldlM
            (streamPopulation scorers authority fallbackToCpu file.index chunkRows function functionIndex
              componentIndex) st) st)
        (PopulationStream.initial components backendId))
      (streamFunctions holdFirst scorers.cpu knownItem (fun xs => chunkRows ≤ xs.length)
        (componentRows connections routeId treatmentId)
        (fun f i r => prepareRow authority.semantics r.1 f i r.2.2) functions) := by
  have hinitial : PopulationView backendId (.initial components backendId) (⟨[], noWinners⟩ : Buffer Item (Winners κ)) :=
    ⟨rfl, rfl, fun _ => by simp [PopulationStream.initial], rfl, (fun _ _ h => by cases h), rfl⟩
  unfold streamFunctions
  refine Simulates.foldlM (fun st b p h => ?_) _ hinitial
  obtain ⟨function, i⟩ := p
  simp only [componentRows, foldlM_flatMap, List.foldlM_map]
  refine Simulates.foldlM (fun st b p h => ?_) _ h
  obtain ⟨file, c⟩ := p
  apply Simulates.foldlM (r := PopulationView backendId)
  · intro st b row h
    exact streamPopulation_view hcpu h
  · exact h

theorem found_populationDecision {winners : Dict Nat (κ × Dict String (PopulationMatch κ))} {i : Nat}
    {rows : List (Match κ)} (h : plainWinners winners i = rows.foldl (challenge Match.score holdFirst) none)
    (function : QueryFunction) :
    plainDecision (populationDecision winners function i) = ⟨function.toFunctionIdentity,
      (firstBy Match.candidateId (leaders Match.score rows)).insertionSort (matchOrder Match.candidateId)⟩ := by
  have hvalues : (((winners.get? i).map (·.2)).getD Dict.empty).values.map PopulationMatch.toMatch =
      firstBy Match.candidateId (leaders Match.score rows) := by
    rw [← held_keepFirst, ← h]
    unfold plainWinners
    cases winners.get? i with
    | none => rfl
    | some w => rfl
  rw [← hvalues]
  refine congrArg (Decision.mk _) (List.map_insertionSort _ _ _ _ ?_)
  exact fun a _ b _ => Iff.rfl

/-- What the second engine returns on the CPU. -/
theorem populationAlphaEngine2_of_ok (hcpu : authority.device? backendId = some .cpu) {report : PopulationReport κ}
    (h : populationAlphaEngine2 scorers authority fallbackToCpu files paths functions routeId treatmentId backendId
      chunkRows = .ok report) :
    ∃ connections, paths.mapM (openIndex files) = .ok connections ∧
      (∀ f ∈ functions, ∃ found,
        populationMatches scorers.cpu authority.semantics connections routeId treatmentId f = .ok found) ∧
      report.functions.map plainDecision =
        functions.map (internedDecision scorers.cpu authority.semantics connections routeId treatmentId) := by
  unfold populationAlphaEngine2 at h
  simp only [bind_eq_ok, pure_eq_ok] at h
  obtain ⟨_, -, _, -, _, -, connections, hopen, st, hst, flushed, hflush, rfl⟩ := h
  refine ⟨connections, hopen, ?_⟩
  obtain ⟨b, hb, hview⟩ :=
    (loopPopulation_view fallbackToCpu hcpu connections routeId treatmentId functions chunkRows paths.length).of_ok hst
  obtain ⟨c, hc, hview⟩ := (flushPopulation_view hcpu hview).of_ok hflush
  obtain ⟨-, hsink⟩ := Buffer.flush_eq_ok.mp hc
  obtain ⟨scored, hscored, hwinners⟩ := (streamFunctions_eq_ok (knownItem_eaten scorers.cpu)
    (fun f i (r : CandidateIndex × Nat × CandidateRow) =>
      prepareRow_scoreItem scorers.cpu authority.semantics r.1 f i r.2.2) _ functions).mp ⟨b, hb, hsink⟩
  have hdecision : ∀ i f, functions[i]? = some f → plainDecision (populationDecision flushed.winners f i) =
      internedDecision scorers.cpu authority.semantics connections routeId treatmentId f := by
    intro i f hi
    refine found_populationDecision ?_ f
    rw [hview.winners, ← hwinners]
    exact winners_of_scored holdFirst hscored hi
  refine ⟨(streamRows_scored_iff functions).mp ⟨scored, hscored⟩, ?_⟩
  rw [List.map_map]
  exact map_zipIdx_eq hdecision

theorem populationAlphaEngine2_total (fallbackToCpu : Bool) (hcpu : authority.device? backendId = some .cpu) (hchunk : 1 ≤ chunkRows)
    (hne : paths ≠ []) (hnodup : paths.Nodup) (hopen : paths.mapM (openIndex files) = .ok connections)
    (hscored : ∀ f ∈ functions, ∃ found,
      populationMatches scorers.cpu authority.semantics connections routeId treatmentId f = .ok found) :
    ∃ report, populationAlphaEngine2 scorers authority fallbackToCpu files paths functions routeId treatmentId
      backendId chunkRows = .ok report := by
  obtain ⟨scored, hscored⟩ := (streamRows_scored_iff functions).mpr hscored
  obtain ⟨b, hb, hsink⟩ := (streamFunctions_eq_ok (knownItem_eaten scorers.cpu)
    (fun f i (r : CandidateIndex × Nat × CandidateRow) =>
      prepareRow_scoreItem scorers.cpu authority.semantics r.1 f i r.2.2)
    (fun xs => chunkRows ≤ xs.length) functions).mpr ⟨scored, hscored, rfl⟩
  obtain ⟨st, hst, hview⟩ :=
    (loopPopulation_view fallbackToCpu hcpu connections routeId treatmentId functions chunkRows paths.length).to_ok hb
  have hc : b.flush (eat holdFirst scorers.cpu) = .ok ⟨[], _⟩ := Buffer.flush_eq_ok.mpr ⟨rfl, hsink⟩
  obtain ⟨flushed, hflush, -⟩ := (flushPopulation_view hcpu hview).to_ok hc
  have hbackend : requireBackend authority chunkRows backendId = .ok () :=
    requireBackend_eq_ok.mpr ⟨hchunk, by rw [hcpu]; rfl⟩
  unfold populationAlphaEngine2
  rw [(require_eq_ok (u := ())).mpr hne, ok_bind, (require_eq_ok (u := ())).mpr hnodup, ok_bind, hbackend, ok_bind,
    hopen, ok_bind]
  exact ⟨_, by rw [hst, ok_bind, hflush, ok_bind]; rfl⟩

/-- The components of the first engine: one run of `match_compact` an index. -/
theorem components_of_ok (hcpu : authority.device? backendId = some .cpu) {components : List (CompactReport κ)}
    (h : (paths.mapM fun path => matchCompact scorers authority fallbackToCpu files path functions routeId
      treatmentId backendId chunkRows) = .ok components) :
    ∃ connections, paths.mapM (openIndex files) = .ok connections ∧
      (∀ file ∈ connections, ∀ f ∈ functions, ∃ found,
        acceptedMatches scorers.cpu authority.semantics file.index routeId treatmentId f = .ok found) ∧
      components.map (·.functions) = connections.map (fun file =>
        functions.map (leadingDecision scorers.cpu authority.semantics file.index routeId treatmentId)) := by
  have hruns := mapM_eq_ok h
  clear h
  induction hruns with
  | nil => exact ⟨[], rfl, fun file hfile => (List.not_mem_nil hfile).elim, rfl⟩
  | cons hrun _ ih =>
    obtain ⟨connections, hopen, hscored, hfunctions⟩ := ih
    obtain ⟨-, -, -, file, hfile, hall, hdecisions⟩ := matchCompact_of_ok hcpu hrun
    refine ⟨file :: connections, ?_, List.forall_mem_cons.mpr ⟨hall, hscored⟩, ?_⟩
    · rw [List.mapM_cons, openIndex_eq_ok.mpr hfile, ok_bind, hopen]
      rfl
    · rw [List.map_cons, List.map_cons, hdecisions, hfunctions]

theorem backends_of_components (hcpu : authority.device? backendId = some .cpu) {components : List (CompactReport κ)}
    (h : (paths.mapM fun path => matchCompact scorers authority fallbackToCpu files path functions routeId
      treatmentId backendId chunkRows) = .ok components) :
    ∀ execution ∈ components, execution.backend = backendId ∧ execution.requestedBackend = backendId := by
  have hruns := mapM_eq_ok h
  clear h
  induction hruns with
  | nil => exact fun _ h => (List.not_mem_nil h).elim
  | cons hrun _ ih =>
    obtain ⟨-, hbackend, hrequested, -⟩ := matchCompact_of_ok hcpu hrun
    exact List.forall_mem_cons.mpr ⟨⟨hbackend, hrequested⟩, ih⟩

omit [LinearOrder κ] in
theorem dedup_of_forall {backends : List String} (hne : backends ≠ []) (h : ∀ b ∈ backends, b = backendId) :
    backends.dedup = [backendId] := by
  have hreplicate : backends = List.replicate backends.length backendId := List.eq_replicate_iff.mpr ⟨rfl, h⟩
  rw [hreplicate, List.replicate_dedup]
  exact fun h => hne (List.length_eq_zero_iff.mp h)

/-- The address table of one component. -/
def addressed (decisions : List (Decision (Match κ))) : Dict String (Decision (Match κ)) :=
  Dict.ofList (decisions.map fun row => (row.address, row))

omit [LinearOrder κ] in
theorem get?_addressed {decide : QueryFunction → Decision (Match κ)}
    (hdecide : ∀ f, (decide f).toFunctionIdentity = f.toFunctionIdentity)
    (haddress : (functions.map (·.address)).Nodup) {function : QueryFunction} (hf : function ∈ functions) :
    (addressed (functions.map decide)).get? function.address = some (decide function) := by
  have hkeys : (((functions.map decide).map fun row => (row.address, row)).map Prod.fst).Nodup := by
    simpa only [List.map_map, Function.comp_def, hdecide] using haddress
  rw [Dict.get?_eq_some_iff, addressed, Dict.entries_ofList hkeys, List.mem_map]
  exact ⟨decide function, List.mem_map_of_mem hf, by rw [hdecide]⟩

/-- The merge of one function over components that all decided it. -/
theorem foldlM_mergeComponent (connections : List IndexFile) (decide : IndexFile → Decision (Match κ))
    (table : IndexFile → Dict String (Decision (Match κ))) {function : QueryFunction} (hdecide : ∀ file, (decide file).toFunctionIdentity = function.toFunctionIdentity)
    (htable : ∀ file ∈ connections, (table file).get? function.address = some (decide file))
    (candidates : Dict String (Match κ)) :
    (connections.map table).foldlM (mergeComponent function) candidates =
      .ok ((connections.flatMap fun file => (decide file).found).foldl mergeMatch candidates) := by
  induction connections generalizing candidates with
  | nil => rfl
  | cons file connections ih =>
    obtain ⟨hfile, hrest⟩ := List.forall_mem_cons.mp htable
    have hstep : mergeComponent function candidates (table file) =
        .ok ((decide file).found.foldl mergeMatch candidates) := by
      unfold mergeComponent
      rw [hfile]
      simp [hdecide, require]
    rw [List.map_cons, List.foldlM_cons, hstep, ok_bind, ih hrest, List.flatMap_cons, List.foldl_append]

theorem plainDecision_mergeFunction {byComponent : List (Dict String (Decision (Match κ)))}
    {function : QueryFunction} {found : List (Match κ)}
    (h : byComponent.foldlM (mergeComponent function) Dict.empty = .ok (found.foldl mergeMatch Dict.empty)) :
    ∃ decision, mergeFunction byComponent function = .ok decision ∧ plainDecision decision =
      ⟨function.toFunctionIdentity, bestMatches (found.foldl mergeMatch Dict.empty).values⟩ := by
  refine ⟨_, by unfold mergeFunction; rw [h, ok_bind]; rfl, ?_⟩
  refine congrArg (Decision.mk _) ?_
  rw [List.map_map]
  exact List.map_id _

/-- What the first engine decides, once all components have scored. -/
theorem mergeFunction_eq {connections : List IndexFile} (haddress : (functions.map (·.address)).Nodup)
    (hscored : ∀ file ∈ connections, ∀ f ∈ functions, ∃ found,
      acceptedMatches scorers.cpu authority.semantics file.index routeId treatmentId f = .ok found)
    {function : QueryFunction} (hf : function ∈ functions) :
    ∃ decision, mergeFunction (connections.map fun file => addressed
        (functions.map (leadingDecision scorers.cpu authority.semantics file.index routeId treatmentId))) function =
        .ok decision ∧
      plainDecision decision =
        internedDecision scorers.cpu authority.semantics connections routeId treatmentId function := by
  let decide (file : IndexFile) := leadingDecision scorers.cpu authority.semantics file.index routeId treatmentId
  let rows (file : IndexFile) :=
    value (acceptedMatches scorers.cpu authority.semantics file.index routeId treatmentId function)
  have hmerge := foldlM_mergeComponent connections (fun file => decide file function)
    (fun file => addressed (functions.map (decide file))) (fun _ => rfl) (fun file _ => get?_addressed (fun _ => rfl) haddress hf) Dict.empty
  obtain ⟨decision, hdecision, hplain⟩ := plainDecision_mergeFunction hmerge
  refine ⟨decision, hdecision, hplain.trans (congrArg (Decision.mk _) ?_)⟩
  have hids : ∀ r ∈ connections.map rows, (r.map Match.candidateId).Nodup := by
    intro r hr
    obtain ⟨file, hfile, rfl⟩ := List.mem_map.mp hr
    obtain ⟨found, hfound⟩ := hscored file hfile function hf
    obtain ⟨candidates, hcandidates, -, hrows⟩ := complete_of_accepted hfound
    simp only [rows, hfound]
    exact hrows ▸ nodup_acceptedCandidates _ (nodup_completeCandidates hcandidates)
  have hpopulation := populationMatches_eq_ok_iff.mpr ⟨fun file hfile => hscored file hfile function hf, rfl⟩
  have hmerged := bestMatches_merge hids
  rw [List.flatMap_map] at hmerged
  rw [hpopulation]
  exact hmerged.trans (by rw [← List.flatMap_def]; rfl)

omit [LinearOrder κ] in
theorem tables_of_components {components : List (CompactReport κ)} {decide : IndexFile → List (Decision (Match κ))}
    (h : components.map (·.functions) = connections.map decide) :
    (components.map fun execution => Dict.ofList (execution.functions.map fun row => (row.address, row))) =
      connections.map fun file => addressed (decide file) := by
  have h := congrArg (List.map addressed) h
  rw [List.map_map, List.map_map] at h
  exact h

/-- What the first engine returns on the CPU. -/
theorem populationAlphaEngine1_of_ok (hcpu : authority.device? backendId = some .cpu)
    (haddress : (functions.map (·.address)).Nodup) {report : PopulationReport κ}
    (h : populationAlphaEngine1 scorers authority fallbackToCpu files paths functions routeId treatmentId backendId
      chunkRows = .ok report) :
    ∃ connections, paths.mapM (openIndex files) = .ok connections ∧
      (∀ file ∈ connections, ∀ f ∈ functions, ∃ found,
        acceptedMatches scorers.cpu authority.semantics file.index routeId treatmentId f = .ok found) ∧
      report.functions.map plainDecision =
        functions.map (internedDecision scorers.cpu authority.semantics connections routeId treatmentId) := by
  unfold populationAlphaEngine1 at h
  simp only [bind_eq_ok, pure_eq_ok] at h
  obtain ⟨components, hcomponents, _, -, _, -, decisions, hdecisions, _, -, rfl⟩ := h
  obtain ⟨connections, hopen, hscored, hfunctions⟩ := components_of_ok hcpu hcomponents
  refine ⟨connections, hopen, hscored, ?_⟩
  have htables := tables_of_components hfunctions
  rw [htables] at hdecisions
  exact map_mapM hdecisions fun f hf => mergeFunction_eq haddress hscored hf

theorem populationAlphaEngine1_total (fallbackToCpu : Bool) (hcpu : authority.device? backendId = some .cpu) (hchunk : 1 ≤ chunkRows)
    (haddress : (functions.map (·.address)).Nodup) (hne : paths ≠ [])
    (hopen : paths.mapM (openIndex files) = .ok connections)
    (hscored : ∀ file ∈ connections, ∀ f ∈ functions, ∃ found,
      acceptedMatches scorers.cpu authority.semantics file.index routeId treatmentId f = .ok found) :
    ∃ report, populationAlphaEngine1 scorers authority fallbackToCpu files paths functions routeId treatmentId
      backendId chunkRows = .ok report := by
  obtain ⟨components, hcomponents⟩ : ∃ components, (paths.mapM fun path => matchCompact scorers authority fallbackToCpu
      files path functions routeId treatmentId backendId chunkRows) = .ok components := by
    refine mapM_total fun path hpath => ?_
    obtain ⟨file, hmem, hfile⟩ := mapM_mem hopen path hpath
    exact matchCompact_total hcpu hchunk (openIndex_eq_ok.mp hfile) (hscored file hmem)
  have hbackends := backends_of_components hcpu hcomponents
  have hlength : components.length = paths.length := (mapM_eq_ok hcomponents).length_eq.symm
  have hcomponents_ne : components ≠ [] := fun h => hne (by simpa [h] using hlength.symm)
  have heffective : (components.map (·.backend)).dedup = [backendId] :=
    dedup_of_forall (by simpa using hcomponents_ne) (List.forall_mem_map.mpr fun e he => (hbackends e he).1)
  have hrequested : (components.map (·.requestedBackend)).dedup = [backendId] :=
    dedup_of_forall (by simpa using hcomponents_ne) (List.forall_mem_map.mpr fun e he => (hbackends e he).2)
  obtain ⟨connections', hopen', hscored', hfunctions⟩ := components_of_ok hcpu hcomponents
  obtain rfl := Except.ok.inj (hopen.symm.trans hopen')
  have htables := tables_of_components hfunctions
  have hcomplete : ∀ rows ∈ connections.map (fun file => addressed
      (functions.map (leadingDecision scorers.cpu authority.semantics file.index routeId treatmentId))),
      rows.entries.length = functions.length := by
    refine List.forall_mem_map.mpr fun file _ => ?_
    rw [addressed, Dict.entries_ofList, List.length_map, List.length_map]
    simpa only [List.map_map, Function.comp_def, leadingDecision] using haddress
  obtain ⟨decisions, hdecisions⟩ : ∃ decisions, functions.mapM (mergeFunction (connections.map fun file => addressed
      (functions.map (leadingDecision scorers.cpu authority.semantics file.index routeId treatmentId)))) =
      .ok decisions := by
    refine mapM_total fun f hf => ?_
    obtain ⟨decision, hdecision, -⟩ := mergeFunction_eq haddress hscored hf
    exact ⟨decision, hdecision⟩
  obtain ⟨indexes, hindexes⟩ : ∃ indexes, (paths.zip components).mapM (componentIndex files) = .ok indexes := by
    refine mapM_total fun entry hentry => ?_
    obtain ⟨file, -, hfile⟩ := mapM_mem hopen entry.1 (List.of_mem_zip hentry).1
    exact ⟨_, by rw [componentIndex, hfile, ok_bind]; rfl⟩
  unfold populationAlphaEngine1
  rw [hcomponents, ok_bind]
  simp only [heffective, hrequested, htables]
  rw [(require_eq_ok (u := ())).mpr ⟨rfl, trivial⟩, ok_bind, (require_eq_ok (u := ())).mpr hcomplete, ok_bind,
    hdecisions, ok_bind, hindexes, ok_bind]
  exact ⟨_, rfl⟩

end runs

/-- Both population engines decide alike on the CPU: one returns when the other
does, and then every function has the same matches in the same order. -/
theorem population_engines_agree (scorers : Scorers κ) (authority : Authority κ) {backendId : String}
    (hcpu : authority.device? backendId = some .cpu) (fallbackToCpu : Bool) (files : IndexFiles) (paths : List String)
    (functions : List QueryFunction) (haddress : (functions.map (·.address)).Nodup) (routeId treatmentId : String)
    {chunkRows : Int} (hchunk : 1 ≤ chunkRows) :
    let run engineId := matchCompactPopulation scorers authority fallbackToCpu files paths functions routeId treatmentId
      backendId engineId chunkRows
    Agree ((fun report => report.functions.map plainDecision) <$> run alphaEngine1)
      ((fun report => report.functions.map plainDecision) <$> run alphaEngine2) := by
  intro run
  have hengine1 : run alphaEngine1 = (do
      require (paths ≠ []) (valueError "compact FID population requires at least one index")
      require paths.Nodup (valueError "compact FID population contains a duplicate index")
      populationAlphaEngine1 scorers authority fallbackToCpu files paths functions routeId treatmentId backendId
        chunkRows) := rfl
  have hengine2 : run alphaEngine2 = (do
      require (paths ≠ []) (valueError "compact FID population requires at least one index")
      require paths.Nodup (valueError "compact FID population contains a duplicate index")
      populationAlphaEngine2 scorers authority fallbackToCpu files paths functions routeId treatmentId backendId
        chunkRows) := rfl
  intro decisions
  simp only [hengine1, hengine2, map_eq_ok, bind_eq_ok, require_eq_ok, exists_const]
  constructor
  · rintro ⟨report, ⟨hne, hnodup, hreport⟩, rfl⟩
    obtain ⟨connections, hopen, hscored, hdecisions⟩ := populationAlphaEngine1_of_ok hcpu haddress hreport
    obtain ⟨report', hreport'⟩ := populationAlphaEngine2_total fallbackToCpu hcpu hchunk hne hnodup
      hopen fun f hf => ⟨_, populationMatches_eq_ok_iff.mpr ⟨fun file hfile => hscored file hfile f hf, rfl⟩⟩
    obtain ⟨connections', hopen', -, hdecisions'⟩ := populationAlphaEngine2_of_ok hcpu hreport'
    obtain rfl := Except.ok.inj (hopen.symm.trans hopen')
    exact ⟨report', ⟨hne, hnodup, hreport'⟩, hdecisions'.trans hdecisions.symm⟩
  · rintro ⟨report, ⟨hne, hnodup, hreport⟩, rfl⟩
    obtain ⟨connections, hopen, hscored, hdecisions⟩ := populationAlphaEngine2_of_ok hcpu hreport
    have hscored : ∀ file ∈ connections, ∀ f ∈ functions, ∃ found,
        acceptedMatches scorers.cpu authority.semantics file.index routeId treatmentId f = .ok found := by
      intro file hfile f hf
      obtain ⟨_, hfound⟩ := hscored f hf
      exact (populationMatches_eq_ok_iff.mp hfound).1 file hfile
    obtain ⟨report', hreport'⟩ := populationAlphaEngine1_total fallbackToCpu hcpu hchunk haddress hne
      hopen hscored
    obtain ⟨connections', hopen', -, hdecisions'⟩ := populationAlphaEngine1_of_ok hcpu haddress hreport'
    obtain rfl := Except.ok.inj (hopen.symm.trans hopen')
    exact ⟨report', ⟨hne, hnodup, hreport'⟩, hdecisions'.trans hdecisions.symm⟩

/-- An index that gives the id `c2` to another owner, and one more best candidate. -/
def Sample.otherIndex : CandidateIndex where
  candidates := [Sample.row "c0" "uclibc" 30, Sample.row "c2" "newlib" 30]
  relations := []
  candidates_key := by decide

def Sample.twoFiles : IndexFiles := fun path =>
  if path = "a.sqlite" then some ⟨Sample.index, "da"⟩
  else if path = "b.sqlite" then some ⟨Sample.otherIndex, "db"⟩
  else none

def Sample.population (engineId : String) (chunkRows : Int) : Result (PopulationReport ℚ) :=
  matchCompactPopulation Sample.scorers Sample.authority true Sample.twoFiles ["a.sqlite", "b.sqlite"]
    [Sample.function] "r" "t" "cpu" engineId chunkRows

/-- The engines agree on two indexes that share an id, in chunks of two. -/
theorem population_engines_agree_shared :
    Agree ((fun report => report.functions.map plainDecision) <$> Sample.population alphaEngine1 2)
      ((fun report => report.functions.map plainDecision) <$> Sample.population alphaEngine2 2) :=
  population_engines_agree Sample.scorers Sample.authority (by decide) true Sample.twoFiles ["a.sqlite", "b.sqlite"]
    [Sample.function] (by decide) "r" "t" (by decide)

example : (Sample.population alphaEngine2 2).toOption.map (·.functions.map plainDecision) =
    some [⟨Sample.function.toFunctionIdentity,
      [⟨"c0", "uclibc", "memcpy", 30⟩, ⟨"c2", "glibc", "memcpy", 30⟩, ⟨"c3", "zlib", "memcpy", 30⟩]⟩] := by
  decide +kernel

end FidbPoc.Matching
