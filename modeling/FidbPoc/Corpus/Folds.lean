import FidbPoc.Corpus.Classification

namespace FidbPoc.Corpus

open FidbPoc.Lib FidbPoc.Lib.Checked FidbPoc.Lib.Sums

section pending

namespace Pending

/-- The table once the waiting rows are written. -/
def drain (p : Pending) : Observations := p.table.replaceRows p.rows

@[simp] theorem drain_flush (p : Pending) : p.flush.drain = p.drain := rfl

@[simp] theorem table_flush (p : Pending) : p.flush.table = p.drain := rfl

theorem drain_add (p : Pending) (row : Observation) : (p.add row).drain = p.drain.replaceRows [row] := by
  unfold add
  simp only
  split
  · rw [drain_flush, drain, Dict.replaceRows_append, drain]
  · rw [drain, Dict.replaceRows_append, drain]

end Pending

end pending

section loops

variable {α : Type} {skip : α → Bool} {observation : α → Observation} {call : FoldCall}

/-- A counting loop writes and counts what it does not skip. -/
theorem foldl_countStep (xs : List α) (loop : CountLoop) :
    (xs.foldl (countStep skip observation) loop).count = loop.count + (xs.filter fun x => !skip x).length ∧
      (xs.foldl (countStep skip observation) loop).pending.drain =
        loop.pending.drain.replaceRows ((xs.filter fun x => !skip x).map observation) := by
  induction xs generalizing loop with
  | nil => exact ⟨by simp, rfl⟩
  | cons x xs ih =>
    obtain ⟨hcount, hdrain⟩ := ih (countStep skip observation loop x)
    rw [List.foldl_cons, hcount, hdrain]
    by_cases hx : skip x
    · simp [countStep, hx]
    · simp only [countStep, hx, Bool.false_eq_true, if_false, Pending.drain_add, Bool.not_false, List.filter_cons_of_pos,
        List.length_cons, List.map_cons]
      exact ⟨by push_cast; ring, (Dict.replaceRows_append ..).symm⟩

/-- The loop over the matches writes them all and tells the present owners from the absent ones. -/
theorem foldl_matchStep (call : FoldCall) (rows : List MatchRow) (loop : MatchLoop) :
    (rows.foldl (matchStep call) loop).tp = loop.tp + (rows.filter (·.isPresent)).length ∧
      (rows.foldl (matchStep call) loop).fp = loop.fp + (rows.filter fun m => !m.isPresent).length ∧
      (rows.foldl (matchStep call) loop).matchedQuery =
        loop.matchedQuery ++ (rows.filter (·.isPresent)).map (·.query.1) ∧
      (rows.foldl (matchStep call) loop).pending.drain =
        loop.pending.drain.replaceRows (rows.map (matchObservation call)) := by
  induction rows generalizing loop with
  | nil => simp [Dict.replaceRows]
  | cons m rows ih =>
    obtain ⟨htp, hfp, hmatched, hdrain⟩ := ih (matchStep call loop m)
    rw [List.foldl_cons, htp, hfp, hmatched, hdrain]
    cases hm : m.isPresent with
    | true =>
      simp only [matchStep, hm, if_true, Pending.drain_add, List.filter_cons, Bool.not_true, Bool.false_eq_true,
        if_false, List.length_cons, List.map_cons, List.append_assoc, List.singleton_append, true_and]
      exact ⟨by push_cast; ring, (Dict.replaceRows_append ..).symm⟩
    | false =>
      simp only [matchStep, hm, Bool.false_eq_true, if_false, Pending.drain_add, List.filter_cons, Bool.not_false,
        if_true, List.length_cons, List.map_cons, true_and]
      exact ⟨by push_cast; ring, (Dict.replaceRows_append ..).symm⟩

end loops

/-- The table `fold_owner`, as a function of the owner. -/
structure OwnersOf (call : FoldCall) (foldOwner : Dict String Bool) : Prop where
  cohort : call.cohort.Nodup
  get? : ∀ o, foldOwner.get? o = if o ∈ call.cohort then some (decide (o ∈ call.present)) else none

/-- A fold with the tables that its classification loads. -/
structure Fold where
  db : ReferenceDatabase
  call : FoldCall
  query : Query
  foldOwner : Dict String Bool
  load : loadQuery call.query = .ok query
  owners : OwnersOf call foldOwner

namespace Fold

variable (fold : Fold)

def references : List ReferenceRow := referenceRows fold.db fold.call

def joined : List MatchRow := matchRows fold.query fold.references fold.foldOwner

/-- The matches with a present owner. -/
def hits : List MatchRow := fold.joined.filter (·.isPresent)

/-- The matches with an absent owner. -/
def falseHits : List MatchRow := fold.joined.filter fun m => !m.isPresent

def misses : List ReferenceRow := missRows fold.query fold.references fold.foldOwner

/-- The query signatures that no present owner matches. -/
def uncovered : List (Identity × QueryFunction) :=
  fold.query.entries.filter fun q => !decide (q.1 ∈ fold.hits.map (·.query.1))

/-- All rows that the fold writes. -/
def rows : List Observation :=
  fold.joined.map (matchObservation fold.call) ++ fold.uncovered.map (unattributedObservation fold.call) ++
    fold.misses.map (missObservation fold.call)

def trueNegatives : Int := fold.query.entries.length * fold.call.absent.length - fold.falseHits.length

/-- The row of `unit_result`. -/
def unitResult : UnitResult where
  routeId := fold.call.routeId
  treatmentId := fold.call.treatmentId
  queryPath := fold.call.queryRelative
  querySha256 := fold.call.recordedSha256
  queryDistinctSignatures := fold.query.entries.length
  truePositives := fold.hits.length
  falsePositives := fold.falseHits.length
  trueNegatives := fold.trueNegatives
  falseNegatives := fold.misses.length
  unattributedQuerySignatures := fold.uncovered.length

def result : FoldResult where
  queryDistinctSignatures := fold.query.entries.length
  truePositives := fold.hits.length
  falsePositives := fold.falseHits.length
  trueNegatives := fold.trueNegatives
  falseNegatives := fold.misses.length
  unattributedQuerySignatures := fold.uncovered.length

/-- The output once the fold is classified. -/
def write (output : Evidence) : Evidence :=
  { output with
    hashObservation := output.hashObservation.replaceRows fold.rows
    unitResult := output.unitResult.set (fold.call.position, fold.call.fold) fold.unitResult }

end Fold

section classify

variable {output output' : Evidence} {db : ReferenceDatabase} {call : FoldCall} {result : FoldResult}

theorem ownersOf_of_insertRows {e : Raised} {foldOwner : Dict String Bool}
    (h : Dict.insertRows e Dict.empty (call.cohort.map fun o => (o, decide (o ∈ call.present))) = .ok foldOwner) :
    OwnersOf call foldOwner := by
  have hnodup := (Dict.insertRows_eq_ok.mp h).1
  rw [Dict.keys_empty, List.nil_append, List.map_map] at hnodup
  refine ⟨by simpa [Function.comp_def] using hnodup, fun o => ?_⟩
  by_cases ho : o ∈ call.cohort
  · rw [if_pos ho, Dict.get?_of_insertRows h]
    exact .inr (List.mem_map_of_mem (f := fun o => (o, decide (o ∈ call.present))) ho)
  · rw [if_neg ho, Dict.get?_eq_none_iff, Dict.keys_of_insertRows h]
    simpa [Dict.keys_empty] using ho

/-- What a classified fold has written and returned. -/
theorem classifyFold_eq_ok (h : classifyFold output db call = .ok (output', result)) :
    ∃ fold : Fold, fold.db = db ∧ fold.call = call ∧ output' = fold.write output ∧ result = fold.result := by
  simp only [classifyFold, bind_eq_ok, require_eq_ok, pure_eq_ok, exists_const, Prod.mk.injEq] at h
  obtain ⟨-, query, hquery, foldOwner, hfoldOwner, rfl, rfl⟩ := h
  let fold : Fold := ⟨db, call, query, foldOwner, hquery, ownersOf_of_insertRows hfoldOwner⟩
  obtain ⟨htp, hfp, hmatched, hmatches⟩ := foldl_matchStep call fold.joined
    ⟨0, 0, [], [], output.hashObservation⟩
  rw [zero_add] at htp hfp
  rw [List.nil_append] at hmatched
  have hjoined : matchRows query (referenceRows db call) foldOwner = fold.joined := rfl
  have hmisses : missRows query (referenceRows db call) foldOwner = fold.misses := rfl
  have hhits : fold.joined.filter (·.isPresent) = fold.hits := rfl
  simp only [hjoined, hmisses, htp, hfp, hmatched, hhits, (foldl_countStep _ _).1, Pending.table_flush,
    (foldl_countStep _ _).2, Pending.drain_flush, hmatches, zero_add, Bool.not_false, List.filter_true]
  refine ⟨fold, rfl, rfl, ?_, rfl⟩
  rw [Fold.write, Fold.rows, Dict.replaceRows_append, Dict.replaceRows_append]
  rfl

/-- A well-formed fold is classified. -/
theorem classifyFold_total (output : Evidence) (db : ReferenceDatabase) {call : FoldCall} {query : Query}
    (htable : call.referenceTable = "reference_identity" ∨ call.referenceTable = "unit_reference")
    (hquery : loadQuery call.query = .ok query) (hcohort : call.cohort.Nodup) :
    ∃ output' result, classifyFold output db call = .ok (output', result) := by
  have hkeys : ((call.cohort.map fun o => (o, decide (o ∈ call.present))).map Prod.fst).Nodup := by
    simpa [Function.comp_def] using hcohort
  obtain ⟨foldOwner, hfoldOwner⟩ := Dict.insertRows_total (d := Dict.empty)
    (integrityError "UNIQUE constraint failed: fold_owner.owner") hkeys (by simp [Dict.keys_empty])
  simp only [classifyFold, bind_eq_ok, require_eq_ok, pure_eq_ok, exists_const]
  exact ⟨_, _, htable, query, hquery, foldOwner, hfoldOwner, rfl⟩

/-- A run of folds is that of their writes. -/
theorem classifyFolds_eq_ok {calls : List (ReferenceDatabase × FoldCall)} (h : classifyFolds output calls = .ok output') :
    ∃ folds : List Fold, folds.map (fun f => (f.db, f.call)) = calls ∧
      output' = folds.foldl (fun output f => f.write output) output := by
  induction calls generalizing output with
  | nil => exact ⟨[], rfl, (pure_eq_ok.mp h).symm⟩
  | cons c calls ih =>
    simp only [classifyFolds, List.foldlM_cons, bind_eq_ok, map_eq_ok] at h
    obtain ⟨_, ⟨⟨next, result⟩, hresult, rfl⟩, hrest⟩ := h
    obtain ⟨fold, hdb, hcall, hnext, -⟩ := classifyFold_eq_ok hresult
    obtain ⟨folds, rfl, rfl⟩ := ih hrest
    exact ⟨fold :: folds, by rw [List.map_cons, hdb, hcall], by rw [List.foldl_cons, hnext]⟩

end classify

end FidbPoc.Corpus
