import FidbPoc.Corpus.Transaction

namespace FidbPoc.Corpus

open FidbPoc.Lib FidbPoc.Lib.Checked FidbPoc.Lib.Sums

/-- Batches and generations are numbered from one together, and each generation is
hashed over its columns and linked to the one before it. -/
structure Chained (sha256 : GenerationPayload → String) (index : Index) : Prop where
  batches : Table.Serial Prod.fst index.corpusBatch.entries
  ordinals : ∀ row ∈ index.corpusBatch.entries, row.2.ordinal = row.1
  generations : index.corpusGeneration.entries.map (fun g => (g.1, g.2.batchId, g.2.sourceEvidenceSha256)) =
    index.corpusBatch.entries.map fun b => (b.1, b.1, b.2.sourceEvidenceSha256)
  linked : ∀ n g, index.corpusGeneration.get? (n + 1) = some g →
    g.previousDigest = (index.corpusGeneration.get? n).map (·.generationDigest)
  hashed : ∀ n g, index.corpusGeneration.get? n = some g →
    g.generationDigest = sha256 ⟨n, g.previousDigest, g.authoritySha256, g.sourceEvidenceSha256, g.totals⟩

/-- The cached states of the signatures agree with the totals of the latest generation. -/
structure Sound (index : Index) : Prop where
  foreign : foreignKeysHold index
  ids : index.signature.values.Nodup
  cached : total (·.cumulativeFalsePositives) index.signatureState.values = index.totals.falsePositives
  queries : total (·.queryObservations) index.signatureState.values = index.totals.queryObservations
  queries_nonneg : ∀ st ∈ index.signatureState.values, 0 ≤ st.queryObservations
  owners : ∀ st ∈ index.signatureState.values, 0 ≤ st.distinctOwners ∧ st.distinctOwners ≤ index.totals.owners
  owners_nonneg : 0 ≤ index.totals.owners
  negatives : 0 ≤ index.totals.trueNegatives

section chain

variable {sha256 : GenerationPayload → String} {index : Index}

theorem argmax_serial {α : Type} {rows : List (ℕ × α)} (h : Table.Serial Prod.fst rows) :
    rows.argmax Prod.fst = rows.getLast? := by
  induction rows using List.reverseRecOn with
  | nil => rfl
  | append_singleton rows x ih =>
    have hlen : (rows ++ [x]).length = rows.length + 1 := by simp
    rw [Table.Serial, hlen, List.range'_1_concat, List.map_append] at h
    obtain ⟨hrows, hx⟩ := List.append_inj' h rfl
    have hx : x.1 = 1 + rows.length := by simpa using hx
    rw [List.argmax_concat, ih hrows, List.getLast?_concat]
    cases hlast : rows.getLast? with
    | none => rfl
    | some y =>
      have hy : y.1 ∈ List.range' 1 rows.length := hrows ▸ List.mem_map_of_mem (List.mem_of_getLast? hlast)
      have hlt : y.1 < x.1 := by
        rw [List.mem_range'_1] at hy
        omega
      exact if_pos hlt

theorem Chained.keys (h : Chained sha256 index) : index.corpusGeneration.keys = index.corpusBatch.keys := by
  have hcolumn := congrArg (List.map Prod.fst) h.generations
  simpa [Dict.keys, Function.comp_def] using hcolumn

theorem Chained.length (h : Chained sha256 index) :
    index.corpusGeneration.entries.length = index.corpusBatch.entries.length := by
  simpa using congrArg List.length h.generations

theorem Chained.serial (h : Chained sha256 index) : Table.Serial Prod.fst index.corpusGeneration.entries := by
  have hkeys := h.keys
  simp only [Dict.keys] at hkeys
  rw [Table.Serial, hkeys, h.batches, h.length]

theorem Chained.latest (h : Chained sha256 index) : index.latest = index.corpusGeneration.entries.getLast? :=
  argmax_serial h.serial

/-- The next batch, the next ordinal and the next generation have one number. -/
theorem Chained.nextId (h : Chained sha256 index) :
    Corpus.nextId index.corpusBatch.keys = index.corpusGeneration.entries.length + 1 := by
  rw [Dict.keys, h.batches, nextId_range', h.length]

theorem Chained.nextOrdinal (h : Chained sha256 index) :
    Corpus.nextId (index.corpusBatch.values.map (·.ordinal)) = index.corpusGeneration.entries.length + 1 := by
  have hcolumn : index.corpusBatch.values.map (·.ordinal) = index.corpusBatch.keys := by
    simp only [Dict.values, Dict.keys, List.map_map]
    exact List.map_congr_left h.ordinals
  rw [hcolumn, h.nextId]

/-- The latest generation is the one numbered by the length of the chain. -/
theorem Chained.latest_cases (h : Chained sha256 index) :
    index.corpusGeneration.entries = [] ∧ index.latest = none ∨
      ∃ g, index.latest = some (index.corpusGeneration.entries.length, g) ∧
        index.corpusGeneration.get? index.corpusGeneration.entries.length = some g := by
  rw [h.latest]
  rcases List.eq_nil_or_concat index.corpusGeneration.entries with hnil | ⟨init, g, hconcat⟩
  · exact .inl ⟨hnil, by rw [hnil]; rfl⟩
  · rw [List.concat_eq_append] at hconcat
    have hserial := h.serial
    have hlen : index.corpusGeneration.entries.length = init.length + 1 := by simp [hconcat]
    rw [Table.Serial, hlen, List.range'_1_concat, hconcat, List.map_append] at hserial
    have hg : g.1 = init.length + 1 := by
      have hlast := (List.append_inj' hserial rfl).2
      simp only [List.map_singleton, List.cons.injEq, and_true] at hlast
      omega
    have hmem : g ∈ index.corpusGeneration.entries := by simp [hconcat]
    refine .inr ⟨g.2, ?_, ?_⟩
    · rw [hlen, ← hg, hconcat, List.getLast?_concat]
    · rw [hlen, ← hg, Dict.get?_of_mem hmem]

theorem Chained.get?_length (h : Chained sha256 index) :
    index.corpusGeneration.get? index.corpusGeneration.entries.length = index.latest.map Prod.snd := by
  rcases h.latest_cases with ⟨hnil, hlatest⟩ | ⟨g, hlatest, hg⟩
  · rw [hlatest, Dict.get?, hnil]
    rfl
  · rw [hlatest, hg]
    rfl

theorem chained_createDatabase (authority : Authority) : Chained sha256 (createDatabase authority) :=
  ⟨rfl, fun _ h => (by cases h), rfl, fun _ _ h => (by cases h), fun _ _ h => (by cases h)⟩

theorem sound_createDatabase (authority : Authority) : Sound (createDatabase authority) := by
  refine ⟨⟨?_, ?_, ?_, ?_, ?_⟩, List.nodup_nil, rfl, rfl, ?_, ?_, le_rfl, le_rfl⟩
  all_goals exact fun _ h => (by cases h)

end chain

section cross

variable {index : Index} {e : Evidence} {batchId : Nat} {signature : Dict Signature Nat}
  {signatureBatch : Dict (Nat × Nat) SignatureBatch} {rollup : List Rollup}

theorem Sound.initial (h : Sound index) {i : Nat} {st : SignatureState}
    (hst : (Staged.initial index batchId rollup).get? i = some st) :
    0 ≤ st.queryObservations ∧ 0 ≤ st.distinctOwners ∧ st.distinctOwners ≤ index.totals.owners := by
  rcases Staged.get?_initial hst with hold | rfl
  · have hmem := Dict.mem_values.mpr ⟨i, hold⟩
    exact ⟨h.queries_nonneg st hmem, h.owners st hmem⟩
  · exact ⟨le_rfl, le_rfl, h.owners_nonneg⟩

/-- The known queries of the touched signatures are among all known queries. -/
theorem Sound.total_known (h : Sound index) (hs : Staged index e batchId signature signatureBatch rollup) :
    total (fun r => ((Staged.initial index batchId rollup).get? r.signatureId).elim 0 (·.queryObservations)) rollup ≤
      index.totals.queryObservations := by
  have hzero : total (·.queryObservations) (Staged.initial index batchId rollup).values =
      index.totals.queryObservations := by
    rw [← h.queries]
    exact Dict.total_fill_const _ rfl
  refine (Dict.total_join (fun _ (st : SignatureState) => st.queryObservations) _ hs.nodup_rollup _).symm.trans_le ?_
  rw [← hzero, Dict.values, total_map]
  refine total_le_total fun row hrow => ?_
  have hnonneg := (h.initial (Dict.get?_of_mem hrow)).1
  cases rollup.find? fun r => r.signatureId = row.1 with
  | none => exact hnonneg
  | some r => exact le_rfl

/-- The cross false positives are no more than the cross pairs. -/
theorem Sound.crossFpDelta_le (h : Sound index) (hs : Staged index e batchId signature signatureBatch rollup) :
    crossFpDelta rollup (Staged.initial index batchId rollup) ≤
      total (·.counts.queryObservations) rollup * index.totals.owners +
        index.totals.queryObservations * e.owners.length := by
  have hpair : ∀ r ∈ rollup,
      ((Staged.initial index batchId rollup).get? r.signatureId).elim 0 (crossFalsePositives r) ≤
        r.counts.queryObservations * index.totals.owners +
          ((Staged.initial index batchId rollup).get? r.signatureId).elim 0 (·.queryObservations) *
            e.owners.length := by
    intro r hr
    obtain ⟨st, hst⟩ := Staged.mem_initial index batchId hr
    obtain ⟨hq, -, howners⟩ := h.initial hst
    have hnew := hs.queryObservations_nonneg (fun k hk => (h.foreign.2.1 k hk).1) hr
    rw [hst, Option.elim_some, Option.elim_some, crossFalsePositives]
    exact add_le_add (mul_le_mul_of_nonneg_left howners hnew)
      (mul_le_mul_of_nonneg_left (hs.newOwners_bounds hr).2 hq)
  calc crossFpDelta rollup (Staged.initial index batchId rollup)
      ≤ total (fun r => r.counts.queryObservations * index.totals.owners +
          ((Staged.initial index batchId rollup).get? r.signatureId).elim 0 (·.queryObservations) *
            e.owners.length) rollup := total_le_total hpair
    _ = total (·.counts.queryObservations) rollup * index.totals.owners +
          total (fun r => ((Staged.initial index batchId rollup).get? r.signatureId).elim 0 (·.queryObservations)) rollup *
            e.owners.length := by
        rw [total_add, total_mul_right, total_mul_right]
    _ ≤ _ := by
        gcongr
        exact h.total_known hs

/-- The cached false positives follow the totals, if the summary agrees with the units. -/
theorem Sound.cached_next (h : Sound index) (hs : Staged index e batchId signature signatureBatch rollup)
    (he : e.Reconciled) (signatures newQueries : ℤ) :
    total (·.cumulativeFalsePositives) (advanceStates batchId rollup (Staged.initial index batchId rollup)).values =
      (cumulate index.totals e signatures newQueries
        (crossFpDelta rollup (Staged.initial index batchId rollup))).falsePositives := by
  have hinternal : total (·.counts.internalFalsePositives) rollup = total (·.falsePositives) e.unitResult.values := by
    rw [hs.total_rollup (·.internalFalsePositives), hs.filter_rows fun k hk => (h.foreign.2.1 k hk).1,
      ← he.falsePositives]
    exact hs.total_rows fun _ _ => rfl
  rw [hs.total_cumulativeFalsePositives, hinternal, h.cached, cumulate]

theorem Sound.negatives_next (h : Sound index) (hs : Staged index e batchId signature signatureBatch rollup)
    (he : e.Reconciled) (signatures : ℤ) :
    0 ≤ (cumulate index.totals e signatures (total (·.counts.queryObservations) rollup)
        (crossFpDelta rollup (Staged.initial index batchId rollup))).trueNegatives := by
  have hcross := h.crossFpDelta_le hs
  have hunits : 0 ≤ total (·.trueNegatives) e.unitResult.values := total_nonneg he.trueNegatives
  have hold := h.negatives
  simp only [cumulate]
  omega

end cross

section step

variable {sha256 : GenerationPayload → String} {call : Call} {file : EvidenceFile} {source : SourceMetadata}
  {index next : Index} {batchId : Nat} {batch : CorpusBatch} {g : Generation} {rollup : List Rollup}

/-- The new generation is numbered after the chain and linked to its end. -/
theorem Applied.generation_eq (ha : Applied sha256 call file source index batchId batch g rollup next)
    (h : Chained sha256 index) :
    batchId = index.corpusGeneration.entries.length + 1 ∧ batch.ordinal = index.corpusGeneration.entries.length + 1 :=
  ⟨ha.staged.batchId_eq.trans h.nextId, ha.ordinal.trans h.nextOrdinal⟩

theorem Applied.corpusBatch_entries (ha : Applied sha256 call file source index batchId batch g rollup next) :
    next.corpusBatch.entries = index.corpusBatch.entries ++ [(batchId, batch)] := by
  rw [ha.corpusBatch]
  exact Dict.entries_set_of_not_mem ha.staged.batchId_new _

theorem Applied.get?_generation (ha : Applied sha256 call file source index batchId batch g rollup next) (n : Nat) :
    next.corpusGeneration.get? n =
      (index.corpusGeneration.get? n).or (if n = batch.ordinal then some g else none) := by
  simp only [Dict.get?, ha.corpusGeneration, List.find?_append]
  cases index.corpusGeneration.entries.find? fun e => e.1 = n with
  | some e => rfl
  | none =>
    by_cases hn : n = batch.ordinal
    · simp [hn]
    · simp [hn, Ne.symm hn]

theorem Applied.chained (ha : Applied sha256 call file source index batchId batch g rollup next)
    (h : Chained sha256 index) : Chained sha256 next := by
  obtain ⟨hid, hordinal⟩ := ha.generation_eq h
  obtain ⟨totals, hg⟩ := ha.generation
  have hnone : ∀ n, index.corpusGeneration.entries.length < n → index.corpusGeneration.get? n = none := by
    intro n hn
    have hserial := h.serial
    rw [Dict.get?_eq_none_iff, Dict.keys, hserial, List.mem_range'_1]
    omega
  refine ⟨?_, ?_, ?_, ?_, ?_⟩
  · rw [ha.corpusBatch_entries]
    exact h.batches.append (hid.trans (congrArg (· + 1) h.length))
  · rw [ha.corpusBatch_entries]
    intro row hrow
    rcases List.mem_append.mp hrow with hrow | hrow
    · exact h.ordinals row hrow
    · obtain rfl := List.mem_singleton.mp hrow
      exact hordinal.trans hid.symm
  · rw [ha.corpusGeneration, ha.corpusBatch_entries, List.map_append, List.map_append, h.generations]
    simp [hg, newGeneration, hid, hordinal, ha.sourceDigest]
  · intro n g' hg'
    rw [ha.get?_generation] at hg' ⊢
    by_cases hn : n + 1 = batch.ordinal
    · have hlast : n = index.corpusGeneration.entries.length := by omega
      have hne : ¬n = batch.ordinal := by omega
      rw [if_pos hn, hnone (n + 1) (by omega), Option.none_or] at hg'
      rw [if_neg hne, Option.or_none, hlast, h.get?_length, Option.map_map, ← Option.some.inj hg', hg]
      rfl
    · rw [if_neg hn, Option.or_none] at hg'
      have hprev := h.linked n g' hg'
      have hlt : n + 1 ≤ index.corpusGeneration.entries.length := by
        by_contra hlt
        exact Option.some_ne_none _ (hg'.symm.trans (hnone _ (by omega)))
      rw [if_neg (by omega), Option.or_none]
      exact hprev
  · intro n g' hg'
    rw [ha.get?_generation] at hg'
    rcases Option.or_eq_some_iff.mp hg' with hold | ⟨-, hnew⟩
    · exact h.hashed n g' hold
    · split at hnew
      · rename_i hn
        rw [hn, ← Option.some.inj hnew, hg]
        rfl
      · cases hnew

theorem Applied.totals_next (ha : Applied sha256 call file source index batchId batch g rollup next)
    (h : Chained sha256 index) : next.totals = g.totals := by
  rw [Index.totals, (ha.chained h).latest, ha.corpusGeneration, List.getLast?_concat]
  rfl

theorem Applied.sound (ha : Applied sha256 call file source index batchId batch g rollup next)
    (hc : Chained sha256 index) (h : Sound index) : Sound next := by
  have htotals := ha.totals_next hc
  have howners : next.totals.owners = index.totals.owners + file.database.owners.length := by
    rw [htotals, ha.totals, cumulate]
  have hstate : ∀ st ∈ next.signatureState.values, 0 ≤ st.queryObservations ∧ 0 ≤ st.distinctOwners ∧
      st.distinctOwners ≤ next.totals.owners := by
    intro st hst
    obtain ⟨i, hi⟩ := Dict.mem_values.mp hst
    rw [ha.signatureState, Staged.get?_advanceStates, Option.map_eq_some_iff] at hi
    obtain ⟨old, hold, rfl⟩ := hi
    obtain ⟨hq, ho, hle⟩ := h.initial hold
    cases hr : rollup.find? fun r => r.signatureId = i with
    | none =>
      rw [Option.elim_none, howners]
      exact ⟨hq, ho, by omega⟩
    | some r =>
      have hmem := List.mem_of_find?_eq_some hr
      have hnew := ha.staged.newOwners_bounds hmem
      have hqueries := ha.staged.queryObservations_nonneg (fun k hk => (h.foreign.2.1 k hk).1) hmem
      rw [Option.elim_some, howners]
      simp only [advance]
      exact ⟨by omega, by omega, by omega⟩
  refine ⟨ha.foreign, ?_, ?_, ?_, fun st hst => (hstate st hst).1, fun st hst => (hstate st hst).2, ?_, ?_⟩
  · rw [ha.staged.signature_eq]
    exact nodup_insertSignatures h.ids
  · rw [htotals]
    exact ha.cached
  · rw [htotals, ha.totals, ha.signatureState, ha.staged.total_queryObservations, h.queries, cumulate]
  · have := h.owners_nonneg
    omega
  · rw [htotals]
    exact ha.negatives

end step

end FidbPoc.Corpus
