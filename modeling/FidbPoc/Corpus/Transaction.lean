import FidbPoc.Corpus.Delta

namespace FidbPoc.Corpus

open FidbPoc.Lib FidbPoc.Lib.Checked FidbPoc.Lib.Sums

/-- The delta tables of a transaction. -/
structure Staged (index : Index) (e : Evidence) (batchId : Nat) (signature : Dict Signature Nat)
    (signatureBatch : Dict (Nat × Nat) SignatureBatch) (rollup : List Rollup) : Prop where
  batchId_eq : batchId = nextId index.corpusBatch.keys
  signature_eq : signature = insertSignatures e index.signature
  rows : signatureBatch.entries = index.signatureBatch.entries ++ signatureBatchRows batchId signature e
  rollup_eq : rollup = deltaRollup batchId signatureBatch (deltaOwnerBySignature signature e)

namespace Staged

variable {index : Index} {e : Evidence} {batchId : Nat} {signature : Dict Signature Nat}
  {signatureBatch : Dict (Nat × Nat) SignatureBatch} {rollup : List Rollup}

theorem batchId_new (h : Staged index e batchId signature signatureBatch rollup) : batchId ∉ index.corpusBatch.keys :=
  h.batchId_eq ▸ nextId_not_mem _

theorem nodup_rollup (h : Staged index e batchId signature signatureBatch rollup) :
    (rollup.map (·.signatureId)).Nodup := by
  have hcolumn : rollup.map (·.signatureId) =
      ((signatureBatch.entries.filter fun row => row.1.1 = batchId).map Prod.fst).map Prod.snd := by
    simp [h.rollup_eq, deltaRollup]
  rw [hcolumn]
  refine List.Nodup.map_on ?_ ((List.filter_sublist.map _).nodup signatureBatch.nodup)
  rintro k hk k' hk' heq
  obtain ⟨row, hrow, rfl⟩ := List.mem_map.mp hk
  obtain ⟨row', hrow', rfl⟩ := List.mem_map.mp hk'
  have hi : row.1.1 = batchId := of_decide_eq_true (List.mem_filter.mp hrow).2
  have hi' : row'.1.1 = batchId := of_decide_eq_true (List.mem_filter.mp hrow').2
  exact Prod.ext (hi.trans hi'.symm) heq

theorem newOwners_bounds (h : Staged index e batchId signature signatureBatch rollup) {r : Rollup} (hr : r ∈ rollup) :
    0 ≤ r.newOwners ∧ r.newOwners ≤ e.owners.length := by
  rw [h.rollup_eq] at hr
  obtain ⟨row, -, rfl⟩ := List.mem_map.mp hr
  have hle := length_ownersUnder_le signature e row.1.2
  rw [ownersUnder, List.length_map] at hle
  exact ⟨Int.natCast_nonneg _, Int.ofNat_le.mpr hle⟩

/-- Where earlier rows are under earlier batches, the rows of the batch are the new ones. -/
theorem filter_rows (h : Staged index e batchId signature signatureBatch rollup)
    (hkeys : ∀ k ∈ index.signatureBatch.keys, k.1 ∈ index.corpusBatch.keys) :
    (signatureBatch.entries.filter fun row => row.1.1 = batchId) = signatureBatchRows batchId signature e := by
  have hold : (index.signatureBatch.entries.filter fun row => row.1.1 = batchId) = [] :=
    List.filter_eq_nil_iff.mpr fun row hrow heq =>
      h.batchId_new (of_decide_eq_true heq ▸ hkeys row.1 (Dict.mem_keys_of_mem hrow))
  have hnew : ∀ row ∈ signatureBatchRows batchId signature e, row.1.1 = batchId := by
    intro row hrow
    obtain ⟨_, -, hrow⟩ := List.mem_filterMap.mp hrow
    obtain ⟨_, -, rfl⟩ := Option.map_eq_some_iff.mp hrow
    rfl
  rw [h.rows, List.filter_append, hold, List.nil_append]
  exact List.filter_eq_self.mpr fun row hrow => decide_eq_true (hnew row hrow)

theorem mem_keys_signature (h : Staged index e batchId signature signatureBatch rollup) {s : Signature} :
    s ∈ signature.keys ↔ s ∈ index.signature.keys ∨ s ∈ e.hashSummary.keys := by
  rw [h.signature_eq]
  exact mem_keys_insertSignatures

/-- Every summarised signature gets its row, so no count of the summary is lost. -/
theorem total_rows (h : Staged index e batchId signature signatureBatch rollup) {f : SignatureBatch → ℤ}
    {c : HashSummary → ℤ}
    (hf : ∀ q row, f ⟨q, row.truePositives, row.falsePositives, row.falseNegatives, row.unattributedObservations⟩ = c row) :
    total (fun row => f row.2) (signatureBatchRows batchId signature e) = total c e.hashSummary.values := by
  have hids : ∀ row ∈ e.hashSummary.entries, ∃ i, signature.get? row.1 = some i := fun row hrow =>
    Dict.mem_keys.mp (h.mem_keys_signature.mpr (Or.inr (Dict.mem_keys_of_mem hrow)))
  simp only [signatureBatchRows, Dict.values, total_map]
  generalize e.hashSummary.entries = entries at hids ⊢
  induction entries with
  | nil => rfl
  | cons row entries ih =>
    obtain ⟨⟨i, hi⟩, hrest⟩ := List.forall_mem_cons.mp hids
    simp [hi, hf, ih hrest]

theorem total_rollup (h : Staged index e batchId signature signatureBatch rollup) (f : SignatureBatch → ℤ) :
    total (fun r => f r.counts) rollup =
      total (fun row => f row.2) (signatureBatch.entries.filter fun row => row.1.1 = batchId) := by
  simp only [h.rollup_eq, deltaRollup, total_map]

theorem queryObservations_nonneg (h : Staged index e batchId signature signatureBatch rollup)
    (hkeys : ∀ k ∈ index.signatureBatch.keys, k.1 ∈ index.corpusBatch.keys) {r : Rollup} (hr : r ∈ rollup) :
    0 ≤ r.counts.queryObservations := by
  rw [h.rollup_eq, deltaRollup, h.filter_rows hkeys] at hr
  obtain ⟨_, hrow, rfl⟩ := List.mem_map.mp hr
  obtain ⟨_, -, hrow⟩ := List.mem_filterMap.mp hrow
  obtain ⟨i, -, rfl⟩ := Option.map_eq_some_iff.mp hrow
  change 0 ≤ ((deltaQueryBySignature signature e).get? i).getD 0
  rw [deltaQueryBySignature, Dict.getD_groupBy (c := 0) rfl]
  exact Int.natCast_nonneg _

section states

/-- The states with a zero row for every new signature. -/
abbrev initial (index : Index) (batchId : Nat) (rollup : List Rollup) : Dict Nat SignatureState :=
  initialStates batchId rollup index.signatureState

theorem mem_initial (index : Index) (batchId : Nat) {r : Rollup} (hr : r ∈ rollup) : ∃ st, (initial index batchId rollup).get? r.signatureId = some st :=
  Dict.mem_keys.mp (Dict.mem_keys_fill.mpr (Or.inr (List.mem_map_of_mem hr)))

theorem get?_initial {i : Nat} {st : SignatureState} (h : (initial index batchId rollup).get? i = some st) :
    index.signatureState.get? i = some st ∨ st = ⟨0, 0, 0, 0, 0, 0, 0, batchId⟩ :=
  Dict.get?_fill_const h

theorem get?_advanceStates (i : Nat) (states : Dict Nat SignatureState) :
    (advanceStates batchId rollup states).get? i =
      (states.get? i).map fun st => (rollup.find? fun r => r.signatureId = i).elim st fun r => advance batchId r st :=
  Dict.get?_updateFrom ..

/-- What a transaction adds to a column of the states: at most the increments of `advance`. -/
theorem total_advanceStates (h : Staged index e batchId signature signatureBatch rollup) {c : SignatureState → ℤ}
    {δ : Rollup → SignatureState → ℤ} (hzero : c ⟨0, 0, 0, 0, 0, 0, 0, batchId⟩ = 0)
    (hδ : ∀ r st, c (advance batchId r st) = c st + δ r st) :
    total c (advanceStates batchId rollup (initial index batchId rollup)).values =
      total c index.signatureState.values +
        total (fun r => ((initial index batchId rollup).get? r.signatureId).elim 0 (δ r)) rollup := by
  rw [advanceStates, Dict.total_updateFrom c _ _ h.nodup_rollup, initial, initialStates,
    Dict.total_fill_const c hzero]
  simp only [hδ, add_sub_cancel_left]

theorem total_queryObservations (h : Staged index e batchId signature signatureBatch rollup) :
    total (·.queryObservations) (advanceStates batchId rollup (initial index batchId rollup)).values =
      total (·.queryObservations) index.signatureState.values + total (·.counts.queryObservations) rollup := by
  rw [h.total_advanceStates (δ := fun r _ => r.counts.queryObservations) rfl fun _ _ => rfl]
  refine congrArg (_ + ·) (total_congr fun r hr => ?_)
  obtain ⟨st, hst⟩ := mem_initial index batchId hr
  rw [hst, Option.elim_some]

theorem total_cumulativeFalsePositives (h : Staged index e batchId signature signatureBatch rollup) :
    total (·.cumulativeFalsePositives) (advanceStates batchId rollup (initial index batchId rollup)).values =
      total (·.cumulativeFalsePositives) index.signatureState.values + total (·.counts.internalFalsePositives) rollup +
        crossFpDelta rollup (initial index batchId rollup) := by
  rw [h.total_advanceStates (δ := fun r st => r.counts.internalFalsePositives + crossFalsePositives r st) rfl
    fun _ _ => add_assoc .., add_assoc, crossFpDelta, ← total_add]
  refine congrArg (_ + ·) (total_congr fun r hr => ?_)
  obtain ⟨st, hst⟩ := mem_initial index batchId hr
  rw [hst, Option.elim_some, Option.elim_some]

end states

end Staged

/-- What a transaction that reaches its commit has read and written. -/
structure Applied (sha256 : GenerationPayload → String) (call : Call) (file : EvidenceFile) (source : SourceMetadata)
    (index : Index) (batchId : Nat) (batch : CorpusBatch) (g : Generation) (rollup : List Rollup) (next : Index) :
    Prop where
  accepts : acceptsMethod index source
  owners_ne : file.database.owners ≠ []
  owners_new : ∀ o ∈ file.database.owners, o ∉ index.corpusOwner.keys
  run_new : ∀ b ∈ index.corpusBatch.values, b.runId ≠ call.runId
  staged : Staged index file.database batchId next.signature next.signatureBatch rollup
  ordinal : batch.ordinal = nextId (index.corpusBatch.values.map (·.ordinal))
  run : batch.runId = call.runId
  sourceDigest : batch.sourceEvidenceSha256 = source.sourceDigest
  method : batch.methodId = source.methodId ∧ batch.methodSha256 = source.methodSha256
  batchQueries : batch.queryObservations = total (·.counts.queryObservations) rollup
  corpusBatch : next.corpusBatch = index.corpusBatch.set batchId batch
  corpusOwner : next.corpusOwner.entries = index.corpusOwner.entries ++ file.database.owners.map (fun o => (o, batchId))
  signatureState : next.signatureState = advanceStates batchId rollup (Staged.initial index batchId rollup)
  corpusGeneration : next.corpusGeneration.entries = index.corpusGeneration.entries ++ [(batch.ordinal, g)]
  generation : ∃ totals, g = newGeneration sha256 call source (index.latest.map fun p => p.2.generationDigest)
    batch.ordinal batchId totals
  totals : g.totals = cumulate index.totals file.database next.signature.entries.length
    (total (·.counts.queryObservations) rollup) (crossFpDelta rollup (Staged.initial index batchId rollup))
  foreign : foreignKeysHold next
  cached : total (·.cumulativeFalsePositives) next.signatureState.values = g.totals.falsePositives
  negatives : 0 ≤ g.totals.trueNegatives
  header : next.applicationId = index.applicationId ∧ next.userVersion = index.userVersion ∧
    next.metadata = index.metadata

theorem repeatedOwner_eq_none {index : Index} {e : Evidence} :
    repeatedOwner index e = none ↔ ∀ o ∈ e.owners, o ∉ index.corpusOwner.keys := by
  simp [repeatedOwner, List.find?_eq_none]

theorem applyDelta_eq_ok {sha256 : GenerationPayload → String} {call : Call} {file : EvidenceFile}
    {source : SourceMetadata} {index next : Index} {ordinal : Nat}
    (h : applyDelta sha256 call file source index = .ok (ordinal, next)) :
    ∃ batchId batch g rollup,
      Applied sha256 call file source index batchId batch g rollup next ∧ batch.ordinal = ordinal := by
  simp only [applyDelta, bind_eq_ok, require_eq_ok, pure_eq_ok, exists_const, Dict.insertRow_eq_ok,
    Prod.mk.injEq] at h
  obtain ⟨haccepts, howners, hnew, hrun, corpusOwner, hcorpusOwner, signatureBatch, hsignatureBatch, signatureOwner, -,
    -, -, corpusGeneration, ⟨hordinal, hcorpusGeneration⟩, hforeign, hcached, hnegatives, rfl, rfl⟩ := h
  have hstaged : Staged index file.database _ (insertSignatures file.database index.signature) signatureBatch _ :=
    ⟨rfl, rfl, (Dict.insertRows_eq_ok.mp hsignatureBatch).2, rfl⟩
  refine ⟨_, _, newGeneration sha256 call source _ _ _ _, _, ⟨haccepts, howners, repeatedOwner_eq_none.mp hnew, ?_,
    hstaged, rfl, rfl, rfl, ⟨rfl, rfl⟩, ?_, rfl, ?_, rfl, ?_, ⟨_, rfl⟩, ?_, hforeign, hcached, hnegatives,
    ⟨rfl, rfl, rfl⟩⟩, rfl⟩
  · exact fun b hb hr => hrun (List.mem_map.mpr ⟨b, hb, hr⟩)
  · exact (hstaged.total_rollup _).symm
  · exact (Dict.insertRows_eq_ok.mp hcorpusOwner).2
  · rw [← hcorpusGeneration]
    exact Dict.entries_set_of_not_mem hordinal _
  · rw [hstaged.total_rollup]
    rfl

end FidbPoc.Corpus
