import FidbPoc.Corpus.Cumulative
import FidbPoc.Corpus.Reconciliation

namespace FidbPoc.Corpus

open FidbPoc.Lib FidbPoc.Lib.Checked FidbPoc.Lib.Sums Evidence

section inputs

/-- The distinct signatures of a query. -/
def FoldCall.queryIdentities (call : FoldCall) : List Identity :=
  match loadQuery call.query with
  | .ok query => query.keys
  | .error _ => []

/-- The reference signatures of present owners that a query lacks. -/
def missedReferences (db : ReferenceDatabase) (call : FoldCall) : List (Identity × String) :=
  ((referenceRows db call).map ReferenceRow.pair).filter fun p =>
    p.2 ∈ call.cohort ∧ p.2 ∈ call.present ∧ p.1 ∉ call.queryIdentities

/-- The number of folds whose query contains a signature. -/
def queried (calls : List (ReferenceDatabase × FoldCall)) (s : Signature) : ℤ :=
  (calls.filter fun c => s ∈ c.2.queryIdentities.map c.2.signature).length

/-- The number of folds that miss a signature of a present owner. -/
def missed (calls : List (ReferenceDatabase × FoldCall)) (s : Signature) : ℤ :=
  (calls.filter fun c => s ∈ (missedReferences c.1 c.2).map fun p => c.2.signature p.1).length

end inputs

namespace Fold

variable {fold : Fold}

theorem queryIdentities_eq : fold.call.queryIdentities = fold.query.keys := by
  rw [FoldCall.queryIdentities, fold.load]

theorem mem_missedReferences {p : Identity × String} :
    p ∈ missedReferences fold.db fold.call ↔ p ∈ fold.misses.map ReferenceRow.pair := by
  rw [mem_misses, missedReferences, List.mem_filter, decide_eq_true_eq, queryIdentities_eq]
  constructor
  · rintro ⟨hreference, hcohort, hpresent, hquery⟩
    exact ⟨hquery, hreference, hcohort, hpresent⟩
  · rintro ⟨hquery, hreference, hcohort, hpresent⟩
    exact ⟨hreference, hcohort, hpresent, hquery⟩

/-- The distinct signatures that the fold misses. -/
def missedIdentities (fold : Fold) : List Identity := ((fold.misses.map ReferenceRow.pair).map Prod.fst).dedup

/-- All signatures that the fold observes, in its query or as a miss. -/
def observed (fold : Fold) : List Identity := fold.query.keys ++ fold.missedIdentities

theorem mem_missedIdentities {i : Identity} :
    i ∈ fold.missedIdentities ↔ ∃ p ∈ missedReferences fold.db fold.call, p.1 = i := by
  simp only [missedIdentities, List.mem_dedup, List.mem_map (f := Prod.fst), mem_missedReferences]

theorem nodup_observed : fold.observed.Nodup := by
  refine List.nodup_append.mpr ⟨fold.query.nodup_keys, List.nodup_dedup _, ?_⟩
  rintro i hi i' hi' rfl
  obtain ⟨p, hp, rfl⟩ := mem_missedIdentities.mp hi'
  exact (mem_misses.mp (mem_missedReferences.mp hp)).1 hi

theorem mem_observed {i : Identity} : i ∈ fold.observed ↔ ∃ o, ∃ p ∈ fold.pairs o, p.1 = i := by
  rw [observed, List.mem_append]
  constructor
  · rintro (hi | hi)
    · by_cases hcount : ((fold.pairs .tp).map Prod.fst).count i = 0
      · have hmem : i ∈ (fold.pairs .unattributed).map Prod.fst := by
          rw [pairs_unattributed]
          exact List.mem_filter.mpr ⟨hi, decide_eq_true hcount⟩
        exact ⟨_, List.mem_map.mp hmem⟩
      · exact ⟨_, List.mem_map.mp (List.count_pos_iff.mp (Nat.pos_of_ne_zero hcount))⟩
    · obtain ⟨p, hp, rfl⟩ := mem_missedIdentities.mp hi
      exact ⟨.fn, p, mem_missedReferences.mp hp, rfl⟩
  · rintro ⟨o, p, hp, rfl⟩
    cases o with
    | tp => exact .inl (mem_hits.mp hp).1
    | fp => exact .inl (mem_falseHits.mp hp).1
    | unattributed =>
      obtain ⟨q, hq, rfl⟩ := List.mem_map.mp hp
      exact .inl (Dict.mem_keys_of_mem (List.mem_filter.mp hq).1)
    | fn => exact .inr (mem_missedIdentities.mpr ⟨p, mem_missedReferences.mpr hp, rfl⟩)

end Fold

section evidence

variable {folds : List Fold} {e : Evidence}

/-- The units of an evidence are the observed signatures of its folds. -/
theorem perm_observedUnits (hunits : (folds.map fun f => f.call.unit).Nodup)
    (hrows : e.hashObservation.entries = folds.flatMap Fold.rows) :
    e.observedUnits.Perm (folds.flatMap fun f => f.observed.map fun i => (f.call.signature i, f.call.unit)) := by
  have hnodup : (folds.flatMap fun f => f.observed.map fun i => (f.call.signature i, f.call.unit)).Nodup := by
    refine List.nodup_flatMap.mpr ⟨fun f _ => ?_, (List.pairwise_map.mp hunits).imp ?_⟩
    · exact Fold.nodup_observed.map fun _ _ h => f.call.signature_injective (Prod.mk.inj h).1
    · intro f f' hne u hu hu'
      obtain ⟨_, -, rfl⟩ := List.mem_map.mp hu
      obtain ⟨_, -, heq⟩ := List.mem_map.mp hu'
      exact hne (Prod.mk.inj heq).2.symm
  refine (List.perm_ext_iff_of_nodup (List.nodup_dedup _) hnodup).mpr fun u => ?_
  rw [List.mem_dedup, Dict.keys, hrows, List.map_flatMap]
  simp only [List.mem_map, List.mem_flatMap]
  constructor
  · rintro ⟨k, ⟨f, hf, row, hrow, rfl⟩, rfl⟩
    obtain ⟨o, p, hp, heq⟩ := Fold.mem_keys_rows.mp (List.mem_map_of_mem hrow)
    exact ⟨f, hf, p.1, Fold.mem_observed.mpr ⟨o, p, hp, rfl⟩, by rw [← heq]; rfl⟩
  · rintro ⟨f, hf, i, hi, rfl⟩
    obtain ⟨o, p, hp, rfl⟩ := Fold.mem_observed.mp hi
    exact ⟨_, ⟨f, hf, List.mem_map.mp (Fold.key_mem_keys_rows.mpr hp)⟩, rfl⟩

theorem length_filter_map_eq {α : Type} [DecidableEq α] {xs : List α} (hxs : xs.Nodup) (a : α) :
    ((xs.filter fun x => x = a).length : ℤ) = if a ∈ xs then 1 else 0 := by
  have hcount := hxs.count (a := a)
  rw [List.count_eq_length_filter] at hcount
  have hfilter : (xs.filter fun x => x = a) = xs.filter (· == a) := List.filter_congr fun x _ => (beq_eq_decide ..).symm
  rw [hfilter, hcount]
  split <;> rfl

/-- A signature counts once for each fold that observes it. -/
theorem queryCount_eq (hunits : (folds.map fun f => f.call.unit).Nodup)
    (hrows : e.hashObservation.entries = folds.flatMap Fold.rows) (s : Signature) :
    queryCount s e = total (fun f => if s ∈ f.observed.map f.call.signature then 1 else 0) folds := by
  rw [queryCount, unitsOf, List.length_map, ((perm_observedUnits hunits hrows).filter _).length_eq,
    length_filter_eq_total, total_flatMap]
  refine total_congr fun f _ => ?_
  rw [← length_filter_map_eq (Fold.nodup_observed.map f.call.signature_injective), List.filter_map, List.length_map, total_map,
    length_filter_eq_total]
  rfl

variable {sourceRunId sourceDigest methodId methodDigest : String} {calls : List (ReferenceDatabase × FoldCall)}

/-- What is recorded as queries: the folds that query a signature and those that miss it. -/
theorem queryCount_sealEvidence (hcalls : Separate (calls.map Prod.snd))
    (h : classifyFolds (createEvidence sourceRunId sourceDigest methodId methodDigest) calls = .ok e) (s : Signature) :
    queryCount s (sealEvidence e) = queried calls s + missed calls s := by
  obtain ⟨folds, rfl, hrows, -⟩ := entries_classifyFolds hcalls h
  have hunits := hcalls.units
  rw [List.map_map, List.map_map] at hunits
  have hcount : queryCount s (sealEvidence e) = queryCount s e := rfl
  rw [hcount, queryCount_eq hunits hrows, queried, missed, length_filter_eq_total, length_filter_eq_total, total_map, total_map,
    ← total_add]
  refine total_congr fun f _ => ?_
  have hquery : s ∈ f.observed.map f.call.signature ↔ s ∈ f.call.queryIdentities.map f.call.signature ∨
      s ∈ (missedReferences f.db f.call).map fun p => f.call.signature p.1 := by
    simp only [Fold.observed, List.map_append, List.mem_append, Fold.queryIdentities_eq, List.mem_map,
      Fold.mem_missedIdentities, exists_exists_and_eq_and]
  have hdisjoint : s ∈ f.call.queryIdentities.map f.call.signature →
      s ∉ (missedReferences f.db f.call).map fun p => f.call.signature p.1 := by
    intro hs hs'
    obtain ⟨i, hi, rfl⟩ := List.mem_map.mp hs
    obtain ⟨p, hp, heq⟩ := List.mem_map.mp hs'
    obtain rfl := f.call.signature_injective heq
    rw [Fold.queryIdentities_eq] at hi
    exact (Fold.mem_misses.mp (Fold.mem_missedReferences.mp hp)).1 hi
  by_cases hi : s ∈ f.call.queryIdentities.map f.call.signature
  · rw [if_pos (hquery.mpr (.inl hi)), if_pos (decide_eq_true hi), if_neg fun h => hdisjoint hi (of_decide_eq_true h),
      add_zero]
  · rw [if_neg fun h => hi (of_decide_eq_true h), zero_add]
    simp only [hquery, hi, false_or, decide_eq_true_eq]

/-- All recorded queries: those of the folds and what they miss. -/
theorem queryTotal_sealEvidence (hcalls : Separate (calls.map Prod.snd))
    (h : classifyFolds (createEvidence sourceRunId sourceDigest methodId methodDigest) calls = .ok e) :
    queryTotal (sealEvidence e) = unitTotal (·.queryDistinctSignatures) e +
      total (fun c => ((missedReferences c.1 c.2).map Prod.fst).dedup.length) calls := by
  obtain ⟨folds, rfl, hrows, hresults⟩ := entries_classifyFolds hcalls h
  have hunits := hcalls.units
  rw [List.map_map, List.map_map] at hunits
  have hcount : queryTotal (sealEvidence e) = queryTotal e := rfl
  rw [hcount, queryTotal, (perm_observedUnits hunits hrows).length_eq, length_flatMap_eq_total, unitTotal, Dict.values, hresults,
    List.map_map, total_map, total_map, ← total_add]
  refine total_congr fun f _ => ?_
  have hmissed : ((missedReferences f.db f.call).map Prod.fst).dedup.Perm f.missedIdentities :=
    (List.perm_ext_iff_of_nodup (List.nodup_dedup _) (List.nodup_dedup _)).mpr fun i =>
      List.mem_dedup.trans (List.mem_map.trans Fold.mem_missedIdentities.symm)
  rw [List.length_map, Fold.observed, List.length_append, Nat.cast_add, Dict.keys, List.length_map, hmissed.length_eq]
  rfl

end evidence

/-- The state of a signature, zero where it has none. -/
def Index.state (index : Index) (s : Signature) : SignatureState := (index.stateOf s).getD ⟨0, 0, 0, 0, 0, 0, 0, 0⟩

/-- The query observations of a signature in a batch, zero where it has no row. -/
def Index.recordedQueries (index : Index) (batchId : Nat) (s : Signature) : Int :=
  ((index.signature.get? s).bind fun i => index.signatureBatch.get? (batchId, i)).elim 0 (·.queryObservations)

section applied

variable {sha256 : GenerationPayload → String} {call : Call} {file : EvidenceFile} {source : SourceMetadata}
  {index next : Index} {batchId : Nat} {batch : CorpusBatch} {g : Generation} {rollup : List Rollup} {s : Signature}

theorem Applied.nodup_ids (ha : Applied sha256 call file source index batchId batch g rollup next) (hsound : Sound index) :
    next.signature.values.Nodup :=
  ha.staged.signature_eq ▸ nodup_insertSignatures hsound.ids

/-- The state of a signature is found under the id that it has after the update. -/
theorem Applied.stateOf_eq (ha : Applied sha256 call file source index batchId batch g rollup next) (hsound : Sound index)
    {i : Nat} (hs : next.signature.get? s = some i) : index.stateOf s = index.signatureState.get? i := by
  by_cases hold : s ∈ index.signature.keys
  · obtain ⟨j, hj⟩ := Dict.mem_keys.mp hold
    have hkeep := get?_insertSignatures_of_some (e := file.database) hj
    rw [← ha.staged.signature_eq, hs] at hkeep
    obtain rfl := Option.some.inj hkeep
    rw [Index.stateOf, hj, Option.bind_some]
  · have hfresh : i ∉ index.signature.values := insertSignatures_fresh hsound.ids hold (ha.staged.signature_eq ▸ hs)
    rw [Index.stateOf, Dict.get?_eq_none_iff.mpr hold, Option.bind_none, eq_comm, Dict.get?_eq_none_iff]
    intro hk
    obtain ⟨row, hrow, heq⟩ := List.mem_map.mp hk
    exact hfresh (heq ▸ (hsound.foreign.2.2.2.1 row hrow).1)

/-- What an update adds to the state of a signature. -/
theorem Applied.state_next (ha : Applied sha256 call file source index batchId batch g rollup next) (hsound : Sound index)
    (he : file.database.Covered) (s : Signature) :
    (next.state s).distinctOwners = (index.state s).distinctOwners + ownerCount s file.database ∧
      (next.state s).queryObservations = (index.state s).queryObservations + queryCount s file.database ∧
      (next.state s).cumulativeFalsePositives = (index.state s).cumulativeFalsePositives + internalOf s file.database +
        queryCount s file.database * (index.state s).distinctOwners +
        (index.state s).queryObservations * ownerCount s file.database := by
  cases hs : next.signature.get? s with
  | none =>
    have hkeys := Dict.get?_eq_none_iff.mp hs
    rw [ha.staged.mem_keys_signature, not_or] at hkeys
    have hstate : index.stateOf s = none := by rw [Index.stateOf, Dict.get?_eq_none_iff.mpr hkeys.1, Option.bind_none]
    have hnext : next.stateOf s = none := by rw [Index.stateOf, hs, Option.bind_none]
    simp [Index.state, hstate, hnext, he.ownerCount_eq_zero hkeys.2, he.queryCount_eq_zero hkeys.2,
      internalOf_eq_zero hkeys.2]
  | some i =>
    have hnext : next.stateOf s = ((Staged.initial index batchId rollup).get? i).map fun st =>
        (rollup.find? fun r => r.signatureId = i).elim st fun r => advance batchId r st := by
      rw [Index.stateOf, hs, Option.bind_some, ha.signatureState, Staged.get?_advanceStates]
    have hcounts := ha.staged.find?_rollup (fun k hk => (hsound.foreign.2.1 k hk).1) (ha.nodup_ids hsound) he hs
    simp only [Index.state, hnext, ha.stateOf_eq hsound hs]
    rcases hcounts with ⟨r, hr, hq, ho, hi⟩ | ⟨-, hr, hq, ho, hi⟩
    · obtain ⟨st, hst⟩ := Staged.mem_initial index batchId (List.mem_of_find?_eq_some hr)
      rw [show r.signatureId = i by simpa using List.find?_some hr] at hst
      rw [hst, hr, ← hq, ← ho, ← hi]
      cases hold : index.signatureState.get? i with
      | some st' =>
        obtain rfl := Option.some.inj (hst.symm.trans (Dict.get?_fill_of_some hold))
        simp only [Option.map_some, Option.elim_some, Option.getD_some, advance, crossFalsePositives, true_and]
        ring
      | none =>
        have hzero := (Staged.get?_initial hst).resolve_left (by simp [hold])
        simp [hzero, advance, crossFalsePositives]
    · rw [hr, hq, ho, hi]
      cases hold : index.signatureState.get? i with
      | some st' => simp [Staged.initial, initialStates, Dict.get?_fill_of_some hold]
      | none =>
        cases hst : (Staged.initial index batchId rollup).get? i with
        | none => simp
        | some st =>
          have hzero := (Staged.get?_initial hst).resolve_left (by simp [hold])
          simp [hzero]

/-- The rows of a batch are found in its rollup. -/
theorem Applied.get?_signatureBatch (ha : Applied sha256 call file source index batchId batch g rollup next) (i : Nat) :
    next.signatureBatch.get? (batchId, i) = (rollup.find? fun r => r.signatureId = i).map (·.counts) := by
  rw [ha.staged.rollup_eq, deltaRollup, List.find?_map, List.find?_filter, Option.map_map, Dict.get?]
  refine congrArg (Option.map Prod.snd) (congrArg (List.find? · next.signatureBatch.entries) (funext fun row => ?_))
  simp [Prod.ext_iff]

/-- The batch records the units of each signature. -/
theorem Applied.recordedQueries_eq (ha : Applied sha256 call file source index batchId batch g rollup next)
    (hsound : Sound index) (he : file.database.Covered) (s : Signature) :
    next.recordedQueries batchId s = queryCount s file.database := by
  cases hs : next.signature.get? s with
  | none =>
    have hkeys := Dict.get?_eq_none_iff.mp hs
    rw [ha.staged.mem_keys_signature, not_or] at hkeys
    rw [Index.recordedQueries, hs, Option.bind_none, he.queryCount_eq_zero hkeys.2, Option.elim_none]
  | some i =>
    rw [Index.recordedQueries, hs, Option.bind_some, ha.get?_signatureBatch]
    rcases ha.staged.find?_rollup (fun k hk => (hsound.foreign.2.1 k hk).1) (ha.nodup_ids hsound) he hs with
      ⟨r, hr, hq, -⟩ | ⟨-, hr, hq, -⟩
    · rw [hr, Option.map_some, Option.elim_some, hq]
    · rw [hr, Option.map_none, Option.elim_none, hq]

end applied

section claim

variable {sha256 : GenerationPayload → String} {call : Call} {published : Published}

/-- The batch of some folds records as queries what the folds query, and a signature that they do
not query takes nothing from the batch into its false positives, at once or when another batch
brings its owners. -/
structure CountsQueries (sha256 : GenerationPayload → String) (calls : List (ReferenceDatabase × FoldCall))
    (e : Evidence) (before next : Index) (batchId : Nat) (batch : CorpusBatch) : Prop where
  recorded : ∀ s, next.recordedQueries batchId s = queried calls s
  summed : batch.queryObservations = unitTotal (·.queryDistinctSignatures) e
  known : ∀ s, queried calls s = 0 → (next.state s).cumulativeFalsePositives =
    (before.state s).cumulativeFalsePositives + internalOf s e + (before.state s).queryObservations * ownerCount s e
  later : ∀ s, queried calls s = 0 → ∀ call' file' next' r',
    updateCorpusHashIndex sha256 call' (some file') (.database next) = (.database next', .ok r') →
    r'.state = "ingested" → file'.database.Covered →
    (next'.state s).cumulativeFalsePositives =
      (next.state s).cumulativeFalsePositives + internalOf s file'.database +
        queryCount s file'.database * (next.state s).distinctOwners +
        (before.state s).queryObservations * ownerCount s file'.database

/-- An ingested update is one transaction on the opened database. -/
theorem applied_of_ingested {file : EvidenceFile} {next : Index} {r : Report} (hreachable : Reachable sha256 published)
    (h : updateCorpusHashIndex sha256 call (some file) published = (.database next, .ok r)) (hstate : r.state = "ingested") :
    ∃ index source batchId batch g rollup, Opened call published index ∧ Sound index ∧
      Applied sha256 call file source index batchId batch g rollup next ∧ r.ordinal = batch.ordinal := by
  have hcases := update_ingestion sha256 call (some file) published
  rw [h] at hcases
  cases hcases with
  | repeated => exact absurd hstate (by simp)
  | ingested hopened hfile _ _ ha =>
    obtain rfl := Option.some.inj hfile
    exact ⟨_, _, _, _, _, _, hopened, (hopened.sound hreachable.sound).2.1, ha, rfl⟩

theorem missed_eq_zero_iff {calls : List (ReferenceDatabase × FoldCall)} :
    (∀ s, missed calls s = 0) ↔ ∀ c ∈ calls, missedReferences c.1 c.2 = [] := by
  simp only [missed, Nat.cast_eq_zero, List.length_eq_zero_iff, List.filter_eq_nil_iff, decide_eq_true_eq]
  constructor
  · intro h c hc
    refine List.eq_nil_iff_forall_not_mem.mpr fun p hp => h (c.2.signature p.1) c hc ?_
    exact List.mem_map.mpr ⟨p, hp, rfl⟩
  · intro h s c hc hs
    rw [h c hc] at hs
    cases hs

/-- The batch of some folds counts queries exactly when no fold misses a signature of a present owner. -/
theorem query_counts_iff_no_miss (hreachable : Reachable sha256 published)
    {sourceRunId sourceDigest methodId methodDigest sha : String} {calls : List (ReferenceDatabase × FoldCall)}
    {e : Evidence} (hcalls : Separate (calls.map Prod.snd))
    (hrun : classifyFolds (createEvidence sourceRunId sourceDigest methodId methodDigest) calls = .ok e) {next : Index}
    {r : Report}
    (hupdate : updateCorpusHashIndex sha256 call (some ⟨sha, sealEvidence e⟩) published = (.database next, .ok r))
    (hstate : r.state = "ingested") :
    (∃ before batchId batch, Opened call published before ∧
      next.corpusBatch.entries.find? (fun row => row.2.ordinal = r.ordinal) = some (batchId, batch) ∧
      CountsQueries sha256 calls (sealEvidence e) before next batchId batch) ↔
    ∀ c ∈ calls, missedReferences c.1 c.2 = [] := by
  obtain ⟨before, source, batchId, batch, g, rollup, hopened, hsound, ha, hordinal⟩ :=
    applied_of_ingested hreachable hupdate hstate
  have he := covered_sealEvidence e
  have hbatch : next.corpusBatch.entries.find? (fun row => row.2.ordinal = r.ordinal) = some (batchId, batch) := by
    have hold : before.corpusBatch.entries.find? (fun row => row.2.ordinal = batch.ordinal) = none := by
      refine List.find?_eq_none.mpr fun row hrow heq => ?_
      have hmem := List.mem_map_of_mem (f := fun b : CorpusBatch => b.ordinal) (List.mem_map_of_mem (f := Prod.snd) hrow)
      rw [of_decide_eq_true heq, ha.ordinal] at hmem
      exact nextId_not_mem _ hmem
    rw [ha.corpusBatch_entries, hordinal, List.find?_append, hold]
    simp
  rw [← missed_eq_zero_iff]
  constructor
  · rintro ⟨before', batchId', batch', -, hbatch', hcounts⟩ s
    obtain ⟨rfl, rfl⟩ := Prod.mk.inj (Option.some.inj (hbatch.symm.trans hbatch'))
    have hrecorded := hcounts.recorded s
    rw [ha.recordedQueries_eq hsound he, queryCount_sealEvidence hcalls hrun] at hrecorded
    omega
  · intro hmissed
    have hcount : ∀ s, queryCount s (sealEvidence e) = queried calls s := fun s => by
      rw [queryCount_sealEvidence hcalls hrun, hmissed, add_zero]
    refine ⟨before, batchId, batch, hopened, hbatch, ⟨fun s => ?_, ?_, fun s hs => ?_, ?_⟩⟩
    · rw [ha.recordedQueries_eq hsound he, hcount]
    · have hnone : total (fun c => (((missedReferences c.1 c.2).map Prod.fst).dedup.length : ℤ)) calls = 0 :=
        total_zero fun c hc => by rw [missed_eq_zero_iff.mp hmissed c hc]; rfl
      rw [ha.batchQueries, ha.staged.total_newQueries (fun k hk => (hsound.foreign.2.1 k hk).1) (ha.nodup_ids hsound) he,
        queryTotal_sealEvidence hcalls hrun, hnone, add_zero]
      rfl
    · obtain ⟨-, -, hstep⟩ := ha.state_next hsound he s
      rw [hcount, hs] at hstep
      rw [hstep]
      ring
    · intro s hs call' file' next' r' hupdate' hstate' he'
      have hnext : Reachable sha256 (.database next) := by
        have h := hreachable.update call (some ⟨sha, sealEvidence e⟩)
        rwa [hupdate] at h
      obtain ⟨index, _, _, _, _, _, hopened', hsound', ha', -⟩ := applied_of_ingested hnext hupdate' hstate'
      rcases hopened' with heq | ⟨heq, -⟩
      · obtain rfl := Published.database.inj heq
        obtain ⟨-, hqueries, -⟩ := ha.state_next hsound he s
        obtain ⟨-, -, hstep⟩ := ha'.state_next hsound' he' s
        rw [hcount, hs, add_zero] at hqueries
        rw [hstep, hqueries]
      · cases heq

end claim

/-- A batch whose only fold misses hash 2 of its owner. -/
def Sample.missing : List (ReferenceDatabase × FoldCall) :=
  [(Sample.references [("1", "one@1"), ("2", "one@1")], Sample.foldCall "A" ["one@1"] ["one@1"] ["1"])]

/-- A batch whose only fold recovers hash 2 of another owner. -/
def Sample.recovered : List (ReferenceDatabase × FoldCall) :=
  [(Sample.references [("2", "two@1")], Sample.foldCall "A" ["two@1"] ["two@1"] ["2"])]

def Sample.ingested (runId sourceDigest : String) (calls : List (ReferenceDatabase × FoldCall)) (published : Published) :
    Published × Result Report :=
  updateCorpusHashIndex Sample.digest (Sample.callOf runId) (some ⟨sourceDigest, Sample.sealed sourceDigest calls⟩) published

/-- Hash 2, that no query of the first batch contains, is recorded as one query of it and
counts as a false positive of the owner of the second batch. -/
theorem query_counts_of_missed :
    let first := Sample.ingested "1" "a" Sample.missing .absent
    let second := Sample.ingested "2" "b" Sample.recovered first.1
    (first.2.toOption.map (·.state) = some "ingested" ∧ second.2.toOption.map (·.state) = some "ingested") ∧
      queried Sample.missing (Sample.signature "2") = 0 ∧
      first.1.opened.recordedQueries 1 (Sample.signature "2") = 1 ∧
      unitTotal (·.queryDistinctSignatures) (Sample.sealed "a" Sample.missing) = 1 ∧
      (first.1.opened.corpusBatch.get? 1).map (·.queryObservations) = some 2 ∧
      queryCount (Sample.signature "2") (Sample.sealed "b" Sample.recovered) *
        ownerCount (Sample.signature "2") (Sample.sealed "a" Sample.missing) = 1 ∧
      internalOf (Sample.signature "2") (Sample.sealed "a" Sample.missing) = 0 ∧
      internalOf (Sample.signature "2") (Sample.sealed "b" Sample.recovered) = 0 ∧
      (second.1.opened.state (Sample.signature "2")).cumulativeFalsePositives = 2 := by
  decide

theorem exists_of_ingested (out : Published × Result Report) (hdatabase : out.1.isDatabase = true)
    (hstate : out.2.toOption.map (·.state) = some "ingested") :
    ∃ next r, out = (.database next, .ok r) ∧ r.state = "ingested" := by
  obtain ⟨published, result⟩ := out
  cases result with
  | error e => cases hstate
  | ok r => exact ⟨published.opened, r, congrArg (·, _) (Published.eq_opened hdatabase), Option.some.inj hstate⟩

theorem query_counts_iff_no_miss_recovered :
    ∃ next ordinal before batchId batch, Opened (Sample.callOf "1") .absent before ∧
      next.corpusBatch.entries.find? (fun row => row.2.ordinal = ordinal) = some (batchId, batch) ∧
      CountsQueries Sample.digest Sample.recovered (Sample.sealed "b" Sample.recovered) before next batchId batch := by
  have hrun : ∃ e, classifyFolds (createEvidence "run" "b" "method" "authority") Sample.recovered = .ok e := ⟨_, rfl⟩
  obtain ⟨e, he⟩ := hrun
  have hsealed : Sample.sealed "b" Sample.recovered = sealEvidence e := by rw [Sample.sealed, he]
  obtain ⟨next, r, hupdate, hstate⟩ := exists_of_ingested (Sample.ingested "1" "b" Sample.recovered .absent)
    (by decide) (by decide)
  rw [Sample.ingested, hsealed] at hupdate
  rw [hsealed]
  exact ⟨next, r.ordinal, (query_counts_iff_no_miss .absent ⟨by decide, by decide⟩ he hupdate hstate).mpr (by decide)⟩

end FidbPoc.Corpus
