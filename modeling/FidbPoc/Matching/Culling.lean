import FidbPoc.Matching.Streaming
import Mathlib.Algebra.Order.Ring.Rat

namespace FidbPoc.Matching

open FidbPoc.Lib FidbPoc.Lib.Checked FidbPoc.Lib.Leaders

variable {κ : Type} [LinearOrder κ]

section sorting

variable {μ : Type} {id : μ → String}

instance : Std.Total (matchOrder id) := ⟨fun a b => le_total (id a) (id b)⟩

instance : IsTrans μ (matchOrder id) := ⟨fun _ _ _ hab hbc => le_trans hab hbc⟩

/-- Lists of the same members, one an id, are sorted alike. -/
theorem insertionSort_congr {l l' : List μ} (hperm : l.Perm l') (hid : (l.map id).Nodup) :
    l.insertionSort (matchOrder id) = l'.insertionSort (matchOrder id) := by
  have hsorted : (l.insertionSort (matchOrder id)).Perm (l'.insertionSort (matchOrder id)) :=
    (List.perm_insertionSort _ l).trans (hperm.trans (List.perm_insertionSort _ l').symm)
  refine hsorted.eq_of_pairwise ?_ (List.pairwise_insertionSort _ l) (List.pairwise_insertionSort _ l')
  intro a b ha hb hab hba
  have ha := (List.perm_insertionSort _ l).mem_iff.mp ha
  have hb := hperm.mem_iff.mpr ((List.perm_insertionSort _ l').mem_iff.mp hb)
  exact List.inj_on_of_nodup_map hid ha hb (le_antisymm hab hba)

theorem perm_leaders {α : Type} {score : α → κ} {l l' : List α} (hperm : l.Perm l') :
    (leaders score l).Perm (leaders score l') := by
  have htop : top score l = top score l' := by
    cases ht : top score l' with
    | none =>
      obtain rfl := top_eq_none_iff.mp ht
      rw [List.perm_nil.mp hperm, top_nil]
    | some m =>
      obtain ⟨⟨x, hx, hm⟩, hle⟩ := top_eq_some_iff.mp ht
      exact top_eq_some_iff.mpr ⟨⟨x, hperm.mem_iff.mpr hx, hm⟩, fun y hy => hle y (hperm.mem_iff.mp hy)⟩
  unfold leaders
  rw [htop]
  cases top score l' with
  | none => exact .refl _
  | some m => exact hperm.filter _

end sorting

section cull

/-- The score of a candidate for a function: its packed input, scored. -/
def candidateScore (score : RowScorer κ) (semantics : Semantics κ) (function : FunctionIdentity)
    (candidate : Candidate) : Result (Option κ) := do
  let input ← scoreInputs function candidate semantics
  score input

/-- The accepted candidates among scored ones, as matches. -/
def acceptedCandidates (score : Candidate → Option κ) (candidates : List Candidate) : List (Match κ) :=
  candidates.filterMap fun candidate => (score candidate).map (candidateMatch candidate)

theorem cullFunction_eq (score : Candidate → Option κ) (candidates : List Candidate) :
    cullFunction candidates (candidates.map score) = leaders Match.score (acceptedCandidates score candidates) := by
  have haccepted : ((candidates.zip (candidates.map score)).filterMap fun p => p.2.map fun s => (p.1, s)) =
      candidates.filterMap fun c => (score c).map fun s => (c, s) := by
    induction candidates with
    | nil => rfl
    | cons c candidates ih => rw [List.map_cons, List.zip_cons_cons, List.filterMap_cons, List.filterMap_cons, ih]
  have hmatches : acceptedCandidates score candidates =
      (candidates.filterMap fun c => (score c).map fun s => (c, s)).map fun p => candidateMatch p.1 p.2 := by
    simp only [acceptedCandidates, List.map_filterMap, Option.map_map]
    rfl
  unfold cullFunction
  simp only [haccepted, hmatches]
  generalize (candidates.filterMap fun c => (score c).map fun s => (c, s)) = pairs
  unfold leaders top
  rw [List.map_map]
  have hscore : (Match.score ∘ fun p : Candidate × κ => candidateMatch p.1 p.2) = Prod.snd := rfl
  rw [hscore]
  cases (pairs.map Prod.snd).max? with
  | none => rfl
  | some m =>
    simp only [List.filter_map]
    rfl

/-- The cursor cuts the flat score vector at the candidates of each function. -/
theorem cullFrom_eq (score : InputFunction → Candidate → Option κ) (before : List (Option κ))
    (inputs : List InputFunction) (after : List (Option κ)) :
    cullFrom (before ++ (inputs.flatMap fun i => i.candidates.map (score i)) ++ after) before.length inputs =
      (inputs.map fun i => ⟨i.toFunctionIdentity, leaders Match.score (acceptedCandidates (score i) i.candidates)⟩,
        before.length + (inputs.flatMap fun i => i.candidates.map (score i)).length) := by
  induction inputs generalizing before with
  | nil => rfl
  | cons input inputs ih =>
    have hvalues : ((before ++ ((input :: inputs).flatMap fun i => i.candidates.map (score i)) ++ after).drop
        before.length).take input.candidates.length = input.candidates.map (score input) := by
      rw [List.append_assoc, List.drop_left, List.flatMap_cons, List.append_assoc]
      exact List.take_left' (by simp)
    have hshift : before ++ ((input :: inputs).flatMap fun i => i.candidates.map (score i)) ++ after =
        (before ++ input.candidates.map (score input)) ++ (inputs.flatMap fun i => i.candidates.map (score i)) ++
          after := by
      simp
    have hrest := ih (before ++ input.candidates.map (score input))
    rw [List.length_append, List.length_map] at hrest
    unfold cullFrom
    rw [hvalues, hshift, hrest]
    simp only [cullFunction_eq, List.map_cons, List.flatMap_cons, List.length_append, List.length_map,
      Nat.add_assoc]

theorem cull_eq (score : InputFunction → Candidate → Option κ) (inputs : List InputFunction) :
    cull inputs (inputs.flatMap fun i => i.candidates.map (score i)) =
      .ok (inputs.map fun i =>
        ⟨i.toFunctionIdentity, leaders Match.score (acceptedCandidates (score i) i.candidates)⟩) := by
  have h := cullFrom_eq score [] inputs []
  simp only [List.nil_append, List.append_nil, List.length_nil, Nat.zero_add] at h
  unfold cull
  rw [h]
  simp [require]

theorem validateCandidates_eq_ok {candidates : List Candidate} {seen : List String} {u : Unit} :
    validateCandidates candidates seen = .ok u ↔
      (candidates.map (·.candidateId)).Nodup ∧ ∀ c ∈ candidates, c.candidateId ∉ seen := by
  induction candidates generalizing seen with
  | nil => simp [validateCandidates, pure_eq_ok]
  | cons c candidates ih =>
    simp only [validateCandidates, bind_eq_ok, require_eq_ok, exists_const, ih, List.map_cons, List.nodup_cons,
      forall_eq_or_imp, List.mem_cons, not_or, List.mem_map, not_exists, not_and]
    constructor
    · rintro ⟨hc, hnodup, hall⟩
      exact ⟨⟨fun d hd => (hall d hd).1, hnodup⟩, hc, fun d hd => (hall d hd).2⟩
    · rintro ⟨⟨hfresh, hnodup⟩, hc, hall⟩
      exact ⟨hc, hnodup, fun d hd => ⟨hfresh d hd, hall d hd⟩⟩

theorem validateFunctions_eq_ok {inputs : List InputFunction} {seen : List String} {u : Unit} :
    validateFunctions inputs seen = .ok u ↔
      (inputs.map (·.address)).Nodup ∧ (∀ i ∈ inputs, i.address ∉ seen) ∧
        ∀ i ∈ inputs, (i.candidates.map (·.candidateId)).Nodup := by
  induction inputs generalizing seen with
  | nil => simp [validateFunctions, pure_eq_ok]
  | cons i inputs ih =>
    simp only [validateFunctions, bind_eq_ok, require_eq_ok, exists_const, validateCandidates_eq_ok, ih,
      List.map_cons, List.nodup_cons, forall_eq_or_imp, List.mem_cons, not_or, List.mem_map, not_exists,
      not_and, List.not_mem_nil, not_false_eq_true, implies_true, and_true]
    constructor
    · rintro ⟨hi, hids, hnodup, hall, hrest⟩
      exact ⟨⟨fun j hj => (hall j hj).1, hnodup⟩, ⟨hi, fun j hj => (hall j hj).2⟩, hids, hrest⟩
    · rintro ⟨⟨hfresh, hnodup⟩, ⟨hi, hall⟩, hids, hrest⟩
      exact ⟨hi, hids, hnodup, fun j hj => ⟨hfresh j hj, hall j hj⟩, hrest⟩

/-- What `match_cpu` returns for a document of distinct functions, each with distinct candidates. -/
theorem matchCpu_of_scored {score : RowScorer κ} {semantics : Semantics κ} {inputs : List InputFunction}
    (haddress : (inputs.map (·.address)).Nodup)
    (hids : ∀ i ∈ inputs, (i.candidates.map (·.candidateId)).Nodup)
    (hscored : ∀ i ∈ inputs, ∀ c ∈ i.candidates,
      ∃ s, candidateScore score semantics i.toFunctionIdentity c = .ok s) :
    ∃ report, matchCpu score semantics ⟨matchInputSchema, inputs⟩ = .ok report ∧
      report.functions = inputs.map fun i => ⟨i.toFunctionIdentity, leaders Match.score
        (acceptedCandidates (fun c => value (candidateScore score semantics i.toFunctionIdentity c)) i.candidates)⟩ := by
  have hvalid : validateInput ⟨matchInputSchema, inputs⟩ = .ok () := by
    unfold validateInput
    rw [(require_eq_ok (u := ())).mpr rfl, ok_bind]
    exact validateFunctions_eq_ok.mpr ⟨haddress, fun i _ => List.not_mem_nil, hids⟩
  obtain ⟨rows, hrows, hscores⟩ := mapM_bind_total
    (f := fun p : FunctionIdentity × Candidate => scoreInputs p.1 p.2 semantics) (g := score)
    (inputs.flatMap fun i => i.candidates.map fun c => (i.toFunctionIdentity, c)) (by
      intro p hp
      obtain ⟨i, hi, hp⟩ := List.mem_flatMap.mp hp
      obtain ⟨c, hc, rfl⟩ := List.mem_map.mp hp
      exact hscored i hi c hc)
  have hflat : ((inputs.flatMap fun i => i.candidates.map fun c => (i.toFunctionIdentity, c)).map
      fun p => value (scoreInputs p.1 p.2 semantics >>= score)) =
      inputs.flatMap fun i => i.candidates.map fun c => value (candidateScore score semantics i.toFunctionIdentity c) := by
    simp only [List.map_flatMap, List.map_map]
    rfl
  rw [hflat] at hscores
  have hcull := cull_eq
    (fun (i : InputFunction) c => value (candidateScore score semantics i.toFunctionIdentity c)) inputs
  unfold matchCpu
  rw [hvalid, ok_bind]
  simp only [hrows, ok_bind, scoreRowsCpu, hscores, hcull]
  exact ⟨_, rfl, rfl⟩

end cull

section streaming

variable {score : RowScorer κ} {semantics : Semantics κ} {index : CandidateIndex} {routeId treatmentId : String}

/-- The complete candidate list of a function, with its child and parent code units. -/
def completeCandidates (semantics : Semantics κ) (index : CandidateIndex) (routeId treatmentId : String)
    (function : QueryFunction) : Result (List Candidate) :=
  (index.cursor routeId treatmentId function.fullHash).mapM (rowCandidate semantics index function)

/-- `input` gives `function` with its complete candidate list, in some order. -/
def Lists (semantics : Semantics κ) (index : CandidateIndex) (routeId treatmentId : String)
    (function : QueryFunction) (input : InputFunction) : Prop :=
  input.toFunctionIdentity = function.toFunctionIdentity ∧
    ∃ candidates, completeCandidates semantics index routeId treatmentId function = .ok candidates ∧
      input.candidates.Perm candidates

/-- A decision with its matches sorted by candidate id. -/
def sortedDecision (decision : Decision (Match κ)) : Decision (Match κ) :=
  { decision with found := decision.found.insertionSort (matchOrder Match.candidateId) }

/-- The primary key makes candidate ids unique within a cursor. -/
theorem nodup_cursor (index : CandidateIndex) (routeId treatmentId fullHash : String) :
    ((index.cursor routeId treatmentId fullHash).map (·.candidateId)).Nodup := by
  unfold CandidateIndex.cursor
  rw [((List.perm_insertionSort candidateOrder _).map _).nodup_iff]
  refine List.Nodup.map_on (fun x hx y hy hxy => ?_) (index.candidates_key.of_map.filter _)
  simp only [List.mem_filter, decide_eq_true_eq] at hx hy
  refine List.inj_on_of_nodup_map index.candidates_key hx.1 hy.1 ?_
  simp only [CandidateRow.key, hx.2, hy.2, hxy]

omit [LinearOrder κ] in
theorem candidateId_rowCandidate {function : QueryFunction} {row : CandidateRow} {candidate : Candidate}
    (h : rowCandidate semantics index function row = .ok candidate) : candidate.candidateId = row.candidateId := by
  unfold rowCandidate at h
  obtain ⟨child, -, h⟩ := bind_eq_ok.mp h
  obtain ⟨parent, -, h⟩ := bind_eq_ok.mp h
  rw [pure_eq_ok] at h
  rw [← h]

omit [LinearOrder κ] in
theorem nodup_completeCandidates {function : QueryFunction} {candidates : List Candidate}
    (h : completeCandidates semantics index routeId treatmentId function = .ok candidates) :
    (candidates.map (·.candidateId)).Nodup := by
  have hids : candidates.map (·.candidateId) =
      (index.cursor routeId treatmentId function.fullHash).map (·.candidateId) := by
    have hrows := mapM_eq_ok h
    generalize index.cursor routeId treatmentId function.fullHash = rows at hrows ⊢
    clear h
    induction hrows with
    | nil => rfl
    | cons hrow _ ih => rw [List.map_cons, List.map_cons, candidateId_rowCandidate hrow, ih]
  rw [hids]
  exact nodup_cursor index routeId treatmentId function.fullHash

omit [LinearOrder κ] in
/-- The accepted matches of a function are its scored complete candidates. -/
theorem complete_of_accepted {function : QueryFunction} {found : List (Match κ)}
    (h : acceptedMatches score semantics index routeId treatmentId function = .ok found) :
    ∃ candidates, completeCandidates semantics index routeId treatmentId function = .ok candidates ∧
      (∀ c ∈ candidates, ∃ s, candidateScore score semantics function.toFunctionIdentity c = .ok s) ∧
      found = acceptedCandidates
        (fun c => value (candidateScore score semantics function.toFunctionIdentity c)) candidates := by
  let matchOf : Candidate → Result (Option (Match κ)) := fun candidate => do
    let s ← candidateScore score semantics function.toFunctionIdentity candidate
    pure (s.map (candidateMatch candidate))
  have hrow : ∀ row, rowMatch score semantics index function row =
      rowCandidate semantics index function row >>= matchOf := by
    intro row
    simp only [rowMatch, matchOf, candidateScore, bind_assoc]
  obtain ⟨hall, rfl⟩ := acceptedOf_eq_ok_iff.mp h
  simp only [hrow] at hall ⊢
  obtain ⟨candidates, hcandidates, hmatches⟩ := mapM_bind_total _ hall
  obtain ⟨hscored, hvalues⟩ := mapM_eq_ok_iff.mp hmatches
  refine ⟨candidates, hcandidates, fun c hc => ?_, ?_⟩
  · obtain ⟨_, hm⟩ := hscored c hc
    obtain ⟨s, hs, -⟩ := bind_eq_ok.mp hm
    exact ⟨s, hs⟩
  · calc
      _ = ((index.cursor routeId treatmentId function.fullHash).map fun row =>
            value (rowCandidate semantics index function row >>= matchOf)).filterMap id := by
        rw [List.filterMap_map]
        rfl
      _ = (candidates.map fun c => value (matchOf c)).filterMap id := by rw [hvalues]
      _ = _ := by
        unfold acceptedCandidates
        rw [List.filterMap_map]
        refine List.filterMap_congr fun c hc => ?_
        obtain ⟨_, hm⟩ := hscored c hc
        obtain ⟨s, hs, -⟩ := bind_eq_ok.mp hm
        simp only [matchOf, Function.comp_apply, hs, value]
        rfl

omit [LinearOrder κ] in
theorem nodup_acceptedCandidates (score : Candidate → Option κ) {candidates : List Candidate}
    (h : (candidates.map (·.candidateId)).Nodup) :
    ((acceptedCandidates score candidates).map Match.candidateId).Nodup := by
  refine List.Nodup.sublist ?_ h
  unfold acceptedCandidates
  induction candidates with
  | nil => exact .slnil
  | cons c candidates ih =>
    have hrest := ih (List.nodup_cons.mp h).2
    cases hc : score c with
    | none => simpa [hc] using hrest.cons _
    | some s => simpa [hc, candidateMatch] using hrest.cons_cons c.candidateId

theorem nodup_leaders {rows : List (Match κ)} (h : (rows.map Match.candidateId).Nodup) :
    ((leaders Match.score rows).map Match.candidateId).Nodup := by
  refine List.Nodup.sublist (List.Sublist.map _ ?_) h
  unfold leaders
  cases top Match.score rows with
  | none => exact List.nil_sublist _
  | some m => exact List.filter_sublist

/-- Streaming decides for a function what culling its complete list decides. -/
theorem leadingDecision_eq {function : QueryFunction} {found : List (Match κ)}
    (h : acceptedMatches score semantics index routeId treatmentId function = .ok found)
    {input : InputFunction} (hinput : Lists semantics index routeId treatmentId function input) :
    (∀ c ∈ input.candidates, ∃ s, candidateScore score semantics input.toFunctionIdentity c = .ok s) ∧
      (input.candidates.map (·.candidateId)).Nodup ∧
      leadingDecision score semantics index routeId treatmentId function =
        sortedDecision ⟨input.toFunctionIdentity, leaders Match.score (acceptedCandidates
          (fun c => value (candidateScore score semantics input.toFunctionIdentity c)) input.candidates)⟩ := by
  obtain ⟨hidentity, listed, hlisted, hperm⟩ := hinput
  obtain ⟨candidates, hcandidates, hscored, hfound⟩ := complete_of_accepted h
  obtain rfl := Except.ok.inj (hlisted.symm.trans hcandidates)
  have hnodup := nodup_completeCandidates hcandidates
  rw [hidentity]
  refine ⟨fun c hc => hscored c (hperm.mem_iff.mp hc), ((hperm.map _).nodup_iff).mpr hnodup, ?_⟩
  unfold leadingDecision sortedDecision
  rw [h]
  have hmatches : found.Perm (acceptedCandidates
      (fun c => value (candidateScore score semantics function.toFunctionIdentity c)) input.candidates) :=
    hfound ▸ (hperm.symm.filterMap _)
  have hids : (found.map Match.candidateId).Nodup := hfound ▸ nodup_acceptedCandidates _ hnodup
  exact congrArg (Decision.mk _) (insertionSort_congr (perm_leaders hmatches) (nodup_leaders hids))

omit [LinearOrder κ] in
theorem exists_lists {function : QueryFunction} {found : List (Match κ)}
    (h : acceptedMatches score semantics index routeId treatmentId function = .ok found) :
    ∃ input, Lists semantics index routeId treatmentId function input := by
  obtain ⟨candidates, hcandidates, -⟩ := complete_of_accepted h
  exact ⟨⟨function.toFunctionIdentity, candidates⟩, rfl, candidates, hcandidates, .refl _⟩

/-- The kept matches are the accepted candidates with the maximal score. -/
theorem mem_culled {score : Candidate → Option κ} {candidates : List Candidate} {m : Match κ} :
    m ∈ leaders Match.score (acceptedCandidates score candidates) ↔
      ∃ c ∈ candidates, ∃ s, score c = some s ∧ m = candidateMatch c s ∧
        ∀ c' ∈ candidates, ∀ s', score c' = some s' → s' ≤ s := by
  simp only [mem_leaders, acceptedCandidates, List.mem_filterMap, Option.map_eq_some_iff]
  constructor
  · rintro ⟨⟨c, hc, s, hs, rfl⟩, hmax⟩
    exact ⟨c, hc, s, hs, rfl, fun c' hc' s' hs' => hmax (candidateMatch c' s') ⟨c', hc', s', hs', rfl⟩⟩
  · rintro ⟨c, hc, s, hs, rfl, hmax⟩
    refine ⟨⟨c, hc, s, hs, rfl⟩, ?_⟩
    rintro _ ⟨c', hc', s', hs', rfl⟩
    exact hmax c' hc' s' hs'

/-- On the CPU the decisions of `match_compact` do not depend on the chunk size. -/
theorem agree_matchCompact {scorers : Scorers κ} {authority : Authority κ} {backendId : String}
    (hcpu : authority.device? backendId = some .cpu) (fallbackToCpu : Bool) (files : IndexFiles) (path : String)
    (functions : List QueryFunction) (routeId treatmentId : String) {chunkRows chunkRows' : Int}
    (hchunk' : 1 ≤ chunkRows') {report : CompactReport κ}
    (h : matchCompact scorers authority fallbackToCpu files path functions routeId treatmentId backendId chunkRows =
      .ok report) :
    ∃ report', matchCompact scorers authority fallbackToCpu files path functions routeId treatmentId backendId
      chunkRows' = .ok report' ∧ report'.functions = report.functions := by
  obtain ⟨-, -, -, file, hfile, hscored, hfunctions⟩ := matchCompact_of_ok hcpu h
  obtain ⟨report', hreport'⟩ := matchCompact_total hcpu hchunk' hfile hscored
  obtain ⟨-, -, -, file', hfile', -, hfunctions'⟩ := matchCompact_of_ok hcpu hreport'
  obtain rfl := Option.some.inj (hfile.symm.trans hfile')
  exact ⟨report', hreport', hfunctions'.trans hfunctions.symm⟩

end streaming

section documents

variable {score : RowScorer κ} {semantics : Semantics κ} {index : CandidateIndex} {routeId treatmentId : String}

/-- What `match_cpu` decides for a document that lists every function completely. -/
theorem matchCpu_of_lists {functions : List QueryFunction} {inputs : List InputFunction}
    (hscored : ∀ f ∈ functions, ∃ found, acceptedMatches score semantics index routeId treatmentId f = .ok found)
    (hinputs : List.Forall₂ (Lists semantics index routeId treatmentId) functions inputs)
    (haddress : (functions.map (·.address)).Nodup) :
    ∃ cpu, matchCpu score semantics ⟨matchInputSchema, inputs⟩ = .ok cpu ∧
      cpu.functions.map sortedDecision =
        functions.map (leadingDecision score semantics index routeId treatmentId) := by
  have hall : inputs.map (·.address) = functions.map (·.address) ∧
      (∀ i ∈ inputs, (∀ c ∈ i.candidates, ∃ s, candidateScore score semantics i.toFunctionIdentity c = .ok s) ∧
        (i.candidates.map (·.candidateId)).Nodup) ∧
      functions.map (leadingDecision score semantics index routeId treatmentId) = inputs.map fun i =>
        sortedDecision ⟨i.toFunctionIdentity, leaders Match.score (acceptedCandidates
          (fun c => value (candidateScore score semantics i.toFunctionIdentity c)) i.candidates)⟩ := by
    clear haddress
    induction hinputs with
    | nil => exact ⟨rfl, fun i hi => (List.not_mem_nil hi).elim, rfl⟩
    | cons hinput _ ih =>
      obtain ⟨⟨found, hfound⟩, hscored⟩ := List.forall_mem_cons.mp hscored
      obtain ⟨haddress, hrest, hdecisions⟩ := ih hscored
      obtain ⟨hvalues, hids, hdecision⟩ := leadingDecision_eq hfound hinput
      refine ⟨?_, List.forall_mem_cons.mpr ⟨⟨hvalues, hids⟩, hrest⟩, ?_⟩
      · rw [List.map_cons, List.map_cons, haddress, hinput.1]
      · rw [List.map_cons, List.map_cons, hdecisions, hdecision]
  obtain ⟨haddresses, hinput, hdecisions⟩ := hall
  obtain ⟨cpu, hcpu, hfunctions⟩ := matchCpu_of_scored (haddresses ▸ haddress) (fun i hi => (hinput i hi).2)
    (fun i hi => (hinput i hi).1)
  exact ⟨cpu, hcpu, by rw [hfunctions, hdecisions, List.map_map]; rfl⟩

end documents

/-- `decision` keeps the accepted candidates with the maximal score, in the order
of their ids, and no others. -/
structure Keeps (score : Candidate → Result (Option κ)) (input : InputFunction) (decision : Decision (Match κ)) :
    Prop where
  identity : decision.toFunctionIdentity = input.toFunctionIdentity
  ordered : (decision.found.map Match.candidateId).Pairwise (· < ·)
  mem_found : ∀ m, m ∈ decision.found ↔ ∃ c ∈ input.candidates, ∃ s, score c = .ok (some s) ∧
    m = candidateMatch c s ∧ ∀ c' ∈ input.candidates, ∀ s', score c' = .ok (some s') → s' ≤ s

theorem keeps_sortedDecision {score : Candidate → Result (Option κ)} {input : InputFunction}
    (hscored : ∀ c ∈ input.candidates, ∃ s, score c = .ok s) (hids : (input.candidates.map (·.candidateId)).Nodup) :
    Keeps score input (sortedDecision ⟨input.toFunctionIdentity,
      leaders Match.score (acceptedCandidates (fun c => value (score c)) input.candidates)⟩) := by
  have hvalue : ∀ c ∈ input.candidates, ∀ s, value (score c) = some s ↔ score c = .ok (some s) := by
    intro c hc s
    obtain ⟨t, ht⟩ := hscored c hc
    rw [ht]
    exact ⟨fun h => congrArg _ h, Except.ok.inj⟩
  refine ⟨rfl, ?_, fun m => ?_⟩
  · have hsorted := List.pairwise_insertionSort (matchOrder Match.candidateId)
      (leaders Match.score (acceptedCandidates (fun c => value (score c)) input.candidates))
    have hnodup : ((sortedDecision (κ := κ) ⟨input.toFunctionIdentity, leaders Match.score (acceptedCandidates
        (fun c => value (score c)) input.candidates)⟩).found.map Match.candidateId).Nodup :=
      ((List.perm_insertionSort _ _).map _).nodup_iff.mpr (nodup_leaders (nodup_acceptedCandidates _ hids))
    rw [List.pairwise_map]
    exact hsorted.imp₂ (fun _ _ hle hne => lt_of_le_of_ne hle hne) (List.pairwise_map.mp hnodup)
  · have hm : m ∈ (sortedDecision ⟨input.toFunctionIdentity, leaders Match.score (acceptedCandidates
        (fun c => value (score c)) input.candidates)⟩).found ↔ _ :=
      (List.perm_insertionSort _ _).mem_iff.trans mem_culled
    rw [hm]
    constructor
    · rintro ⟨c, hc, s, hs, rfl, hmax⟩
      exact ⟨c, hc, s, (hvalue c hc s).mp hs, rfl, fun c' hc' s' hs' => hmax c' hc' s' ((hvalue c' hc' s').mpr hs')⟩
    · rintro ⟨c, hc, s, hs, rfl, hmax⟩
      exact ⟨c, hc, s, (hvalue c hc s).mpr hs, rfl, fun c' hc' s' hs' => hmax c' hc' s' ((hvalue c' hc' s').mp hs')⟩

/-- The decisions of `match_compact` on the CPU: whatever the chunk size, they are
those of `match_cpu` on the complete candidate lists, sorted by candidate id. -/
theorem match_compact_culls (float : FloatArithmetic κ) (gpu : List ScoreInput → Result (List (Option κ) × Option String))
    (authority : Authority κ) {backendId : String} (hcpu : authority.device? backendId = some .cpu)
    (fallbackToCpu : Bool) (files : IndexFiles) (path : String) (functions : List QueryFunction)
    (routeId treatmentId : String) {chunkRows : Int} (hchunk : 1 ≤ chunkRows) :
    let score := scoreCpuRow float authority.semantics
    let run := matchCompact ⟨score, gpu⟩ authority fallbackToCpu files path functions routeId treatmentId backendId
    (∀ chunkRows', 1 ≤ chunkRows' →
      Agree (CompactReport.functions <$> run chunkRows) (CompactReport.functions <$> run chunkRows')) ∧
    ∀ (report : CompactReport κ) (file : IndexFile), run chunkRows = .ok report → files path = some file →
      List.Forall₂ (fun function decision =>
        (∃ input, Lists authority.semantics file.index routeId treatmentId function input) ∧
        ∀ input, Lists authority.semantics file.index routeId treatmentId function input →
          Keeps (candidateScore score authority.semantics function.toFunctionIdentity) input decision ∧
          ∃ cpu, matchCpu score authority.semantics ⟨matchInputSchema, [input]⟩ = .ok cpu ∧
            cpu.functions.map sortedDecision = [decision]) functions report.functions ∧
      ((functions.map (·.address)).Nodup → ∀ inputs,
        List.Forall₂ (Lists authority.semantics file.index routeId treatmentId) functions inputs →
          ∃ cpu, matchCpu score authority.semantics ⟨matchInputSchema, inputs⟩ = .ok cpu ∧
            cpu.functions.map sortedDecision = report.functions) := by
  intro score run
  refine ⟨fun chunkRows' hchunk' decisions => ?_, fun report file hreport hfile => ?_⟩
  · simp only [map_eq_ok]
    constructor
    · rintro ⟨report, hreport, rfl⟩
      exact agree_matchCompact hcpu fallbackToCpu files path functions routeId treatmentId hchunk' hreport
    · rintro ⟨report, hreport, rfl⟩
      exact agree_matchCompact hcpu fallbackToCpu files path functions routeId treatmentId hchunk hreport
  · obtain ⟨-, -, -, file', hfile', hscored, hfunctions⟩ := matchCompact_of_ok hcpu hreport
    obtain rfl := Option.some.inj (hfile.symm.trans hfile')
    rw [hfunctions]
    constructor
    · rw [List.forall₂_map_right_iff, List.forall₂_same]
      intro function hf
      obtain ⟨found, hfound⟩ := hscored function hf
      refine ⟨exists_lists hfound, fun input hinput => ?_⟩
      obtain ⟨hall, hids, hdecision⟩ := leadingDecision_eq hfound hinput
      have hkeeps := keeps_sortedDecision hall hids
      rw [← hdecision, hinput.1] at hkeeps
      have hone : ∀ f ∈ [function], ∃ found,
          acceptedMatches score authority.semantics file.index routeId treatmentId f = .ok found :=
        List.forall_mem_singleton.mpr ⟨found, hfound⟩
      obtain ⟨cpu, hcpu, hdecisions⟩ :=
        matchCpu_of_lists hone (.cons hinput .nil) (List.nodup_singleton function.address)
      exact ⟨hkeeps, cpu, hcpu, hdecisions⟩
    · exact fun haddress inputs hinputs => matchCpu_of_lists hscored hinputs haddress

/-- Exact arithmetic on small integers, with the float32 value of the threshold. -/
def Sample.smallFloat : FloatArithmetic ℚ where
  float n := pure n
  f32 x := pure (if x = 73 / 5 then 15309210 / 1048576 else x)
  add := (· + ·)
  mul := (· * ·)

def Sample.authority : Authority ℚ where
  backend := [⟨"cpu", .cpu⟩, ⟨"gpu", .gpu⟩]
  semantics := ⟨73 / 5, 24, 67 / 100, 500⟩

def Sample.scorers : Scorers ℚ where
  cpu := scoreCpuRow Sample.smallFloat Sample.authority.semantics
  gpu _ := .error ⟨"RuntimeError", "no adapter"⟩

def Sample.row (candidateId owner : String) (codeUnitSize : Int) : CandidateRow :=
  ⟨"r", "t", "f0", candidateId, "s", "1f", owner, "memcpy", "b1", 3, codeUnitSize, 0, 0, 0, 0⟩

def Sample.index : CandidateIndex where
  candidates := [Sample.row "c3" "zlib" 30, Sample.row "c1" "musl" 20, Sample.row "c2" "glibc" 30]
  relations := []
  candidates_key := by decide

def Sample.files : IndexFiles := fun path => if path = "a.sqlite" then some ⟨Sample.index, "da"⟩ else none

def Sample.function : QueryFunction := ⟨⟨"0x10", "f0", "b2"⟩, [⟨"2a", 7⟩], []⟩

/-- One candidate a chunk decides as three a chunk do. -/
theorem match_compact_culls_chunked :
    Agree
      (CompactReport.functions <$> matchCompact Sample.scorers Sample.authority true Sample.files "a.sqlite"
        [Sample.function] "r" "t" "cpu" 1)
      (CompactReport.functions <$> matchCompact Sample.scorers Sample.authority true Sample.files "a.sqlite"
        [Sample.function] "r" "t" "cpu" 3) :=
  (match_compact_culls Sample.smallFloat Sample.scorers.gpu Sample.authority (by decide) true Sample.files "a.sqlite"
    [Sample.function] "r" "t" (by decide)).1 3 (by decide)

example : (matchCompact Sample.scorers Sample.authority true Sample.files "a.sqlite" [Sample.function] "r" "t" "cpu"
    2).toOption.map (·.functions) =
    some [⟨Sample.function.toFunctionIdentity, [⟨"c2", "glibc", "memcpy", 30⟩, ⟨"c3", "zlib", "memcpy", 30⟩]⟩] := by
  decide +kernel

end FidbPoc.Matching
