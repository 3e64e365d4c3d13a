import FidbPoc.Corpus.Cumulative

namespace FidbPoc.Corpus

open FidbPoc.Lib FidbPoc.Lib.Checked FidbPoc.Lib.Sums

section foreign

variable {index : Index} {e : Evidence} {batchId : Nat} {signature : Dict Signature Nat}
  {signatureBatch : Dict (Nat × Nat) SignatureBatch} {rollup : List Rollup}

theorem mem_signatureBatchRows {row : (Nat × Nat) × SignatureBatch} (h : row ∈ signatureBatchRows batchId signature e) :
    row.1.1 = batchId ∧ ∃ s ∈ e.hashSummary.keys, signature.get? s = some row.1.2 := by
  obtain ⟨entry, hentry, h⟩ := List.mem_filterMap.mp h
  obtain ⟨i, hi, rfl⟩ := Option.map_eq_some_iff.mp h
  exact ⟨rfl, entry.1, Dict.mem_keys_of_mem hentry, hi⟩

theorem nodup_signatureBatchRows (hids : signature.values.Nodup) :
    ((signatureBatchRows batchId signature e).map Prod.fst).Nodup := by
  have hkeys : (signatureBatchRows batchId signature e).map Prod.fst =
      e.hashSummary.keys.filterMap fun s => (signature.get? s).map fun i => (batchId, i) := by
    simp [signatureBatchRows, Dict.keys, List.map_filterMap, List.filterMap_map, Function.comp_def]
  rw [hkeys]
  refine e.hashSummary.nodup_keys.filterMap fun s s' k hs hs' => ?_
  obtain ⟨i, hi, rfl⟩ := Option.map_eq_some_iff.mp (Option.mem_def.mp hs)
  obtain ⟨i', hi', heq⟩ := Option.map_eq_some_iff.mp (Option.mem_def.mp hs')
  obtain ⟨-, rfl⟩ := Prod.mk.inj heq
  exact Dict.key_unique hids hi hi'

theorem Staged.mem_rollup (h : Staged index e batchId signature signatureBatch rollup)
    (hkeys : ∀ k ∈ index.signatureBatch.keys, k.1 ∈ index.corpusBatch.keys) {r : Rollup} (hr : r ∈ rollup) :
    r.signatureId ∈ signature.values := by
  rw [h.rollup_eq, deltaRollup, h.filter_rows hkeys] at hr
  obtain ⟨row, hrow, rfl⟩ := List.mem_map.mp hr
  obtain ⟨-, s, -, hs⟩ := mem_signatureBatchRows hrow
  exact Dict.mem_values.mpr ⟨s, hs⟩

/-- The written rows refer to the batch, the signatures and the owners that were written with them. -/
theorem Staged.foreignKeysHold {next : Index} {batch : CorpusBatch} (hsound : Sound index)
    (h : Staged index e batchId next.signature next.signatureBatch rollup)
    (hbatch : next.corpusBatch = index.corpusBatch.set batchId batch)
    (howner : next.corpusOwner.entries = index.corpusOwner.entries ++ e.owners.map fun o => (o, batchId))
    (hsignatureOwner : next.signatureOwner.entries = index.signatureOwner.entries ++
      (deltaOwnerBySignature next.signature e).entries.map fun row => (row.1, ⟨batchId, row.2⟩))
    (hstate : next.signatureState = advanceStates batchId rollup (Staged.initial index batchId rollup))
    (hgeneration : ∀ g ∈ next.corpusGeneration.values, g ∈ index.corpusGeneration.values ∨ g.batchId = batchId) :
    Corpus.foreignKeysHold next := by
  obtain ⟨howners, hrows, hlinks, hstates, hgenerations⟩ := hsound.foreign
  have hids : next.signature.values.Nodup := h.signature_eq ▸ nodup_insertSignatures hsound.ids
  have hnew : batchId ∈ next.corpusBatch.keys := by
    rw [hbatch]
    exact Dict.mem_keys.mpr ⟨batch, Dict.get?_set_self ..⟩
  have hold : ∀ b ∈ index.corpusBatch.keys, b ∈ next.corpusBatch.keys := by
    intro b hb
    rw [hbatch, Dict.keys_set_of_not_mem h.batchId_new]
    exact List.mem_append_left _ hb
  have hvalues : ∀ i ∈ index.signature.values, i ∈ next.signature.values := by
    intro i hi
    obtain ⟨s, hs⟩ := Dict.mem_values.mp hi
    exact Dict.mem_values.mpr ⟨s, h.signature_eq ▸ get?_insertSignatures_of_some hs⟩
  refine ⟨?_, ?_, ?_, ?_, ?_⟩
  · intro b hb
    rw [Dict.values, howner, List.map_append] at hb
    rcases List.mem_append.mp hb with hb | hb
    · exact hold b (howners b hb)
    · obtain ⟨_, ho, rfl⟩ := List.mem_map.mp hb
      obtain ⟨o, -, rfl⟩ := List.mem_map.mp ho
      exact hnew
  · intro k hk
    rw [Dict.keys, h.rows, List.map_append] at hk
    rcases List.mem_append.mp hk with hk | hk
    · exact ⟨hold _ (hrows k hk).1, hvalues _ (hrows k hk).2⟩
    · obtain ⟨row, hrow, rfl⟩ := List.mem_map.mp hk
      obtain ⟨hid, s, -, hs⟩ := mem_signatureBatchRows hrow
      exact ⟨hid ▸ hnew, Dict.mem_values.mpr ⟨s, hs⟩⟩
  · intro row hrow
    have hkeys : ∀ o ∈ index.corpusOwner.keys, o ∈ next.corpusOwner.keys := by
      intro o ho
      rw [Dict.keys, howner, List.map_append]
      exact List.mem_append_left _ ho
    rw [hsignatureOwner] at hrow
    rcases List.mem_append.mp hrow with hrow | hrow
    · obtain ⟨hi, ho, hb⟩ := hlinks row hrow
      exact ⟨hvalues _ hi, hkeys _ ho, hold _ hb⟩
    · obtain ⟨written, hwritten, rfl⟩ := List.mem_map.mp hrow
      obtain ⟨ho, hi⟩ := owner_of_mem_deltaOwner (Dict.mem_keys_of_mem hwritten)
      refine ⟨hi, ?_, hnew⟩
      rw [Dict.keys, howner, List.map_append]
      exact List.mem_append_right _ (List.mem_map.mpr ⟨_, List.mem_map_of_mem ho, rfl⟩)
  · intro row hrow
    have hget := Dict.get?_of_mem hrow
    rw [hstate, Staged.get?_advanceStates, Option.map_eq_some_iff] at hget
    obtain ⟨st, hst, hadvance⟩ := hget
    have hid : row.1 ∈ next.signature.values := by
      rcases Dict.mem_keys_fill.mp (Dict.mem_keys.mpr ⟨st, hst⟩) with hk | hk
      · obtain ⟨row', hrow', heq⟩ := List.mem_map.mp hk
        exact heq ▸ hvalues _ (hstates row' hrow').1
      · obtain ⟨r, hr, heq⟩ := List.mem_map.mp hk
        exact heq ▸ h.mem_rollup (fun k hk => (hrows k hk).1) hr
    refine ⟨hid, ?_⟩
    rw [← hadvance]
    cases rollup.find? fun r => r.signatureId = row.1 with
    | some r => exact hnew
    | none =>
      rcases Staged.get?_initial hst with hkept | rfl
      · exact hold _ (hstates _ (Dict.get?_eq_some_iff.mp hkept)).2
      · exact hnew
  · intro g hg
    rcases hgeneration g hg with hg | hg
    · exact hold _ (hgenerations g hg)
    · exact hg ▸ hnew

end foreign

/-- No two generations of different ordinals have one digest. -/
def CollisionFree (sha256 : GenerationPayload → String) : Prop :=
  ∀ p p', sha256 p = sha256 p' → p.ordinal = p'.ordinal

/-- A call and the evidence it ingests. -/
abbrev Ingested := Call × EvidenceFile

/-- Sealed and reconciled evidence databases of one method with owners of their own, each
ingested by a run of its own under one authority. -/
structure Admissible (authority : Authority) (methodId methodSha256 : String) (runs : List Ingested) : Prop where
  authority : ∀ r ∈ runs, r.1.authority = authority
  isSealed : ∀ r ∈ runs, ∃ digest, sourceMetadata r.2.database = .ok ⟨digest, methodId, methodSha256⟩
  owners : ∀ r ∈ runs, r.2.database.owners ≠ []
  reconciled : ∀ r ∈ runs, r.2.database.Reconciled
  disjoint : runs.Pairwise fun r r' => ∀ o ∈ r.2.database.owners, o ∉ r'.2.database.owners
  digests : runs.Pairwise fun r r' => sourceMetadata r.2.database ≠ sourceMetadata r'.2.database
  runIds : runs.Pairwise fun r r' => r.1.runId ≠ r'.1.runId

/-- The batches and the owners of an index come from the runs. -/
structure Follows (authority : Authority) (runs : List Ingested) (index : Index) : Prop where
  valid : validateDatabase authority index = .ok ()
  owners : ∀ o ∈ index.corpusOwner.keys, ∃ r ∈ runs, o ∈ r.2.database.owners
  batches : ∀ b ∈ index.corpusBatch.values, ∃ r ∈ runs, b.runId = r.1.runId ∧
    sourceMetadata r.2.database = .ok ⟨b.sourceEvidenceSha256, b.methodId, b.methodSha256⟩

section admissible

variable {sha256 : GenerationPayload → String} {authority : Authority} {methodId methodSha256 : String}
  {runs : List Ingested} {call : Call} {file : EvidenceFile} {index : Index}

theorem validate_createDatabase (authority : Authority) :
    validateDatabase authority (createDatabase authority) = .ok () := by
  simp [validateDatabase, createDatabase, bind_eq_ok, require, Dict.ofList, Dict.get?, Dict.set, Dict.assign, Dict.empty]

theorem raisesOnly_false {α : Type} {x : Result α} (h : RaisesOnly (fun _ => False) x) : ∃ a, x = .ok a := by
  cases x with
  | ok a => exact ⟨a, rfl⟩
  | error e => exact (h e rfl).elim

theorem raisesOnly_of_ok {α : Type} {p : Raised → Prop} {x : Result α} (h : ∃ a, x = .ok a) : RaisesOnly p x := by
  obtain ⟨a, rfl⟩ := h
  exact .ok a

/-- Every check of the transaction passes for admissible evidence, unless two generations
have one digest. -/
theorem applyDelta_total (hfree : CollisionFree sha256)
    (hc : Chained sha256 index) (hs : Sound index) (hf : Follows authority runs index)
    (ha : Admissible authority methodId methodSha256 (runs ++ [(call, file)])) (digest : String) :
    ∃ applied, applyDelta sha256 call file ⟨digest, methodId, methodSha256⟩ index = .ok applied := by
  have hearlier : ∀ r ∈ runs, (∀ o ∈ r.2.database.owners, o ∉ file.database.owners) ∧ r.1.runId ≠ call.runId :=
    fun r hr => ⟨(List.pairwise_append.mp ha.disjoint).2.2 r hr (call, file) (by simp),
      (List.pairwise_append.mp ha.runIds).2.2 r hr (call, file) (by simp)⟩
  have hmethods : ∀ b ∈ index.corpusBatch.values, b.methodId = methodId ∧ b.methodSha256 = methodSha256 := by
    intro b hb
    obtain ⟨r, hr, -, hmetadata⟩ := hf.batches b hb
    obtain ⟨_, hsealed⟩ := ha.isSealed r (by simp [hr])
    rw [hsealed] at hmetadata
    obtain ⟨-, h₁, h₂⟩ := SourceMetadata.mk.inj (Except.ok.inj hmetadata)
    exact ⟨h₁.symm, h₂.symm⟩
  have hnew : ∀ o ∈ file.database.owners, o ∉ index.corpusOwner.keys := by
    intro o ho hk
    obtain ⟨r, hr, hold⟩ := hf.owners o hk
    exact (hearlier r hr).1 o hold ho
  have hids := nodup_insertSignatures (e := file.database) hs.ids
  have hserial := hc.serial
  refine raisesOnly_false ?_
  unfold applyDelta
  refine .bind (.require fun h => h fun b hb => hmethods b (List.argmin_mem hb)) fun _ _ => ?_
  refine .bind (.require fun h => h (ha.owners (call, file) (by simp))) fun _ _ => ?_
  refine .bind (.require fun h => h (repeatedOwner_eq_none.mpr hnew)) fun _ _ => ?_
  refine .bind (.require fun h => h fun hrun => ?_) fun _ _ => ?_
  · obtain ⟨b, hb, heq⟩ := List.mem_map.mp hrun
    obtain ⟨r, hr, hid, -⟩ := hf.batches b hb
    exact (hearlier r hr).2 (hid.symm.trans heq)
  refine .bind (raisesOnly_of_ok (Dict.insertRows_total _ ?_ ?_)) fun corpusOwner hcorpusOwner => ?_
  · simpa [Function.comp_def] using file.database.nodup_owners
  · intro row hrow
    obtain ⟨o, ho, rfl⟩ := List.mem_map.mp hrow
    exact hnew o ho
  refine .bind (raisesOnly_of_ok (Dict.insertRows_total _ (nodup_signatureBatchRows hids) fun row hrow hk => ?_))
    fun signatureBatch hsignatureBatch => ?_
  · exact nextId_not_mem _ ((mem_signatureBatchRows hrow).1 ▸ (hs.foreign.2.1 _ hk).1)
  have hstaged : Staged index file.database _ (insertSignatures file.database index.signature) signatureBatch _ :=
    ⟨rfl, rfl, (Dict.insertRows_eq_ok.mp hsignatureBatch).2, rfl⟩
  refine .bind (raisesOnly_of_ok (Dict.insertRows_total _ ?_ fun row hrow hk => ?_)) fun signatureOwner hsignatureOwner => ?_
  · simpa [Function.comp_def] using
      (deltaOwnerBySignature (insertSignatures file.database index.signature) file.database).nodup
  · obtain ⟨written, hwritten, rfl⟩ := List.mem_map.mp hrow
    obtain ⟨old, hold, heq⟩ := List.mem_map.mp hk
    have howner := (owner_of_mem_deltaOwner (Dict.mem_keys_of_mem hwritten)).1
    exact hnew _ howner (heq ▸ (hs.foreign.2.2.1 old hold).2.1)
  refine .bind (.require fun h => h fun hid => ?_) fun _ _ => ?_
  · obtain ⟨g, hg, heq⟩ := List.mem_map.mp hid
    exact nextId_not_mem _ (heq ▸ hs.foreign.2.2.2.2 g hg)
  have hfresh : nextId (index.corpusBatch.values.map (·.ordinal)) ∉ index.corpusGeneration.keys := by
    rw [hc.nextOrdinal, Dict.keys, hserial, List.mem_range'_1]
    omega
  refine .bind (.require fun h => h fun hdigest => ?_) fun _ _ => ?_
  · obtain ⟨g, hg, heq⟩ := List.mem_map.mp hdigest
    obtain ⟨n, hn⟩ := Dict.mem_values.mp hg
    rw [hc.hashed n g hn] at heq
    have hordinal : n = nextId (index.corpusBatch.values.map (·.ordinal)) := hfree _ _ heq
    exact hfresh (hordinal ▸ Dict.mem_keys.mpr ⟨g, hn⟩)
  refine .bind (.bind (.require fun h => h hfresh) fun _ _ => .ok _) fun corpusGeneration hcorpusGeneration => ?_
  refine .bind (.require fun h => h ?_) fun _ _ => ?_
  · refine Staged.foreignKeysHold hs hstaged rfl (Dict.insertRows_eq_ok.mp hcorpusOwner).2
      (Dict.insertRows_eq_ok.mp hsignatureOwner).2 rfl fun g hg => ?_
    obtain ⟨-, rfl⟩ := Dict.insertRow_eq_ok.mp hcorpusGeneration
    rw [Dict.values_set_of_none (Dict.get?_eq_none_iff.mpr hfresh)] at hg
    rcases List.mem_append.mp hg with hg | hg
    · exact .inl hg
    · obtain rfl := List.mem_singleton.mp hg
      exact .inr rfl
  refine .bind (.require fun h => h (hs.cached_next hstaged (ha.reconciled (call, file) (by simp)) _ _)) fun _ _ => ?_
  refine .bind (.require fun h => h ?_) fun _ _ => .ok _
  have hnonneg := hs.negatives_next hstaged (ha.reconciled (call, file) (by simp))
    (insertSignatures file.database index.signature).entries.length
  rw [hstaged.total_rollup] at hnonneg
  exact hnonneg

theorem Follows.of_applied {source : SourceMetadata} {batchId : Nat} {batch : CorpusBatch} {g : Generation}
    {rollup : List Rollup} {next : Index} (hf : Follows authority runs index)
    (hsource : sourceMetadata file.database = .ok source)
    (ha : Applied sha256 call file source index batchId batch g rollup next) :
    Follows authority (runs ++ [(call, file)]) next := by
  obtain ⟨happlication, hversion, hmetadata⟩ := ha.header
  refine ⟨?_, ?_, ?_⟩
  · have hvalid := hf.valid
    unfold validateDatabase at hvalid ⊢
    rw [happlication, hversion, hmetadata]
    exact hvalid
  · intro o ho
    rw [Dict.keys, ha.corpusOwner, List.map_append] at ho
    rcases List.mem_append.mp ho with ho | ho
    · obtain ⟨r, hr, hold⟩ := hf.owners o ho
      exact ⟨r, by simp [hr], hold⟩
    · exact ⟨(call, file), by simp, by simpa using ho⟩
  · intro b hb
    rw [Dict.values, ha.corpusBatch_entries, List.map_append] at hb
    rcases List.mem_append.mp hb with hb | hb
    · obtain ⟨r, hr, hrun⟩ := hf.batches b hb
      exact ⟨r, by simp [hr], hrun⟩
    · obtain rfl : b = batch := by simpa using hb
      exact ⟨(call, file), by simp, ha.run, by rw [hsource, ha.sourceDigest, ha.method.1, ha.method.2]⟩

/-- One more admissible evidence is ingested. -/
theorem runSession_total (hfree : CollisionFree sha256)
    (hc : Chained sha256 index) (hs : Sound index) (hf : Follows authority runs index)
    (ha : Admissible authority methodId methodSha256 (runs ++ [(call, file)])) :
    ∃ next report, runSession sha256 call file index = (next, true, .ok report) ∧ report.state = "ingested" ∧
      Follows authority (runs ++ [(call, file)]) next := by
  obtain ⟨digest, hsource⟩ := ha.isSealed (call, file) (by simp)
  obtain ⟨⟨ordinal, next⟩, happlied⟩ := applyDelta_total hfree hc hs hf ha digest
  obtain ⟨batchId, batch, g, rollup, happ, rfl⟩ := applyDelta_eq_ok happlied
  have hnone : index.corpusBatch.values.find? (fun b => b.sourceEvidenceSha256 = digest) = none := by
    refine List.find?_eq_none.mpr fun b hb heq => ?_
    obtain ⟨r, hr, -, hmetadata⟩ := hf.batches b hb
    obtain ⟨digest', hsealed⟩ := ha.isSealed r (by simp [hr])
    refine (List.pairwise_append.mp ha.digests).2.2 r hr (call, file) (by simp) ?_
    rw [hmetadata] at hsealed
    obtain ⟨-, h₁, h₂⟩ := SourceMetadata.mk.inj (Except.ok.inj hsealed)
    rw [hmetadata, hsource, of_decide_eq_true heq, h₁, h₂]
  have hingest : ingest sha256 call file index = .ok (.committed batch.ordinal next) := by
    rw [ingest, hsource, ok_bind]
    simp only [hnone, happlied, ok_bind]
    rfl
  refine ⟨next, ⟨batch.ordinal, g, "ingested", file.sha256⟩, ?_, rfl, hf.of_applied hsource happ⟩
  simp only [runSession, hingest, happ.report]

theorem Admissible.of_append {r : Ingested} (h : Admissible authority methodId methodSha256 (runs ++ [r])) :
    Admissible authority methodId methodSha256 runs :=
  ⟨fun x hx => h.authority x (by simp [hx]), fun x hx => h.isSealed x (by simp [hx]),
    fun x hx => h.owners x (by simp [hx]), fun x hx => h.reconciled x (by simp [hx]),
    (List.pairwise_append.mp h.disjoint).1, (List.pairwise_append.mp h.digests).1, (List.pairwise_append.mp h.runIds).1⟩

theorem Admissible.perm {runs' : List Ingested} (h : Admissible authority methodId methodSha256 runs)
    (hperm : runs.Perm runs') : Admissible authority methodId methodSha256 runs' :=
  ⟨fun x hx => h.authority x (hperm.mem_iff.mpr hx), fun x hx => h.isSealed x (hperm.mem_iff.mpr hx),
    fun x hx => h.owners x (hperm.mem_iff.mpr hx), fun x hx => h.reconciled x (hperm.mem_iff.mpr hx),
    (hperm.pairwise_iff fun h o ho' ho => h o ho ho').mp h.disjoint,
    (hperm.pairwise_iff fun h => h.symm).mp h.digests, (hperm.pairwise_iff fun h => h.symm).mp h.runIds⟩

/-- Admissible evidence databases can be ingested one after the other. -/
theorem ingests_of_admissible (hfree : CollisionFree sha256)
    (ha : Admissible authority methodId methodSha256 runs) :
    ∃ published, Ingests sha256 (runs.map (·.2.database)) published ∧ Reachable sha256 published ∧
      ∀ index, (∃ call : Call, call.authority = authority ∧ Opened call published index) →
        Follows authority runs index := by
  induction runs using List.reverseRecOn with
  | nil =>
    refine ⟨.absent, .nil, .absent, ?_⟩
    rintro index ⟨call, rfl, h | ⟨-, rfl⟩⟩
    · cases h
    · exact ⟨validate_createDatabase _, fun o ho => (by cases ho), fun b hb => (by cases hb)⟩
  | append_singleton runs r ih =>
    obtain ⟨call, file⟩ := r
    obtain ⟨published, hingests, hreachable, hfollows⟩ := ih ha.of_append
    have hcall : call.authority = authority := ha.authority (call, file) (by simp)
    have hstep : ∃ next report, updateCorpusHashIndex sha256 call (some file) published = (.database next, .ok report) ∧
        report.state = "ingested" ∧ Follows authority (runs ++ [(call, file)]) next := by
      cases published with
      | absent =>
        have hf := hfollows (createDatabase call.authority) ⟨call, hcall, .inr ⟨rfl, rfl⟩⟩
        obtain ⟨next, report, hrun, hstate, hnext⟩ := runSession_total hfree (chained_createDatabase _)
          (sound_createDatabase _) hf ha
        exact ⟨next, report, by simp only [updateCorpusHashIndex, hrun, if_true], hstate, hnext⟩
      | database index =>
        have hf := hfollows index ⟨call, hcall, .inl rfl⟩
        obtain ⟨hc, hs, -, -⟩ := hreachable.sound index rfl
        obtain ⟨next, report, hrun, hstate, hnext⟩ := runSession_total hfree hc hs hf ha
        exact ⟨next, report, by simp only [updateCorpusHashIndex, hcall ▸ hf.valid, hrun], hstate, hnext⟩
      | irregular | foreign => simpa using hreachable.opened
    obtain ⟨next, report, hupdate, hstate, hnext⟩ := hstep
    refine ⟨.database next, ?_, ?_, ?_⟩
    · rw [List.map_append]
      exact .concat hingests call file hupdate hstate
    · have hreach := hreachable.update call (some file)
      rwa [hupdate] at hreach
    · rintro index ⟨_, -, h | ⟨h, -⟩⟩
      · exact Published.database.inj h ▸ hnext
      · cases h

end admissible

section formula

open Evidence

/-- The columns of a state that the batch formula gives. -/
def formulaColumns (st : SignatureState) : ℤ × ℤ × ℤ :=
  (st.distinctOwners, st.queryObservations, st.cumulativeFalsePositives)

/-- An index that holds what the batches give when they are taken together. -/
structure BatchFormula (es : List Evidence) (index : Index) : Prop where
  signatures : ∀ s, (index.stateOf s).isSome ↔ ∃ e ∈ es, s ∈ e.hashSummary.keys
  states : ∀ s st, index.stateOf s = some st →
    st.distinctOwners = total (ownerCount s) es ∧ st.queryObservations = total (queryCount s) es ∧
      st.cumulativeFalsePositives = total (internalOf s) es + crossSum (queryCount s) (ownerCount s) es
  totals : ∃ g, index.latest = some (es.length, g) ∧ TotalsOf es g.totals

theorem Accounts.batchFormula {sha256 : GenerationPayload → String} {es : List Evidence} {index : Index}
    (h : Accounts es index) (hc : Chained sha256 index) (hne : es ≠ []) : BatchFormula es index := by
  refine ⟨fun s => ?_, fun s st hst => ?_, ?_⟩
  · rw [← h.states.signatures]
    constructor
    · intro hsome
      obtain ⟨st, hst⟩ := Option.isSome_iff_exists.mp hsome
      obtain ⟨i, hi, -⟩ := Option.bind_eq_some_iff.mp hst
      exact Dict.mem_keys.mpr ⟨i, hi⟩
    · intro hk
      obtain ⟨i, hi⟩ := Dict.mem_keys.mp hk
      obtain ⟨st, hst, -⟩ := h.states.states s i hi
      simp [Index.stateOf, hi, hst]
  · obtain ⟨i, hi, hget⟩ := Option.bind_eq_some_iff.mp hst
    obtain ⟨st', hst', hcolumns⟩ := h.states.states s i hi
    obtain rfl := Option.some.inj (hget.symm.trans hst')
    exact hcolumns
  · rcases hc.latest_cases with ⟨hnil, -⟩ | ⟨g, hlatest, -⟩
    · refine absurd (List.length_eq_zero_iff.mp ?_) hne
      rw [← h.count, hnil, List.length_nil]
    · refine ⟨g, h.count ▸ hlatest, ?_⟩
      have htotals := h.totals
      rwa [Index.totals, hlatest] at htotals

variable {es es' : List Evidence}

theorem signaturesOf_perm (h : es.Perm es') : (signaturesOf es).Perm (signaturesOf es') :=
  (h.flatMap_right _).dedup

/-- The batch formula does not read the order of the batches. -/
theorem TotalsOf.eq_of_perm {t t' : Totals} (h : TotalsOf es t) (h' : TotalsOf es' t') (hperm : es.Perm es') :
    t = t' := by
  have hsignatures := signaturesOf_perm hperm
  have hcross : total (crossPairs es) (signaturesOf es) = total (crossPairs es') (signaturesOf es') := by
    rw [total_perm hsignatures]
    exact total_congr fun s _ => crossSum_perm _ _ hperm
  have hfalse : t.falsePositives = t'.falsePositives := by
    rw [h.falsePositives, h'.falsePositives, hcross, total_perm hperm]
  have hpopulation : t.falsePositives + t.trueNegatives = t'.falsePositives + t'.trueNegatives := by
    rw [h.population, h'.population, total_perm hperm, total_perm hperm, crossSum_perm _ _ hperm]
  have htrue : t.trueNegatives = t'.trueNegatives := by omega
  obtain ⟨⟩ := t
  obtain ⟨⟩ := t'
  simp only [Totals.mk.injEq]
  refine ⟨?_, ?_, ?_, ?_, hfalse, htrue, ?_⟩
  · exact h.owners.trans ((total_perm hperm).trans h'.owners.symm)
  · exact h.signatures.trans ((congrArg Nat.cast hsignatures.length_eq).trans h'.signatures.symm)
  · exact h.queries.trans ((total_perm hperm).trans h'.queries.symm)
  · exact h.truePositives.trans ((total_perm hperm).trans h'.truePositives.symm)
  · exact h.falseNegatives.trans ((total_perm hperm).trans h'.falseNegatives.symm)

theorem BatchFormula.states_of_perm {index index' : Index} (h : BatchFormula es index) (h' : BatchFormula es' index')
    (hperm : es.Perm es') (s : Signature) :
    (index.stateOf s).map formulaColumns = (index'.stateOf s).map formulaColumns := by
  have hsome : (index.stateOf s).isSome ↔ (index'.stateOf s).isSome := by
    rw [h.signatures, h'.signatures]
    exact exists_congr fun e => and_congr_left fun _ => hperm.mem_iff
  cases hst : index.stateOf s with
  | none =>
    have hnone : index'.stateOf s = none := by simpa [hst] using hsome
    rw [hnone]
  | some st =>
    obtain ⟨st', hst'⟩ := Option.isSome_iff_exists.mp (hsome.mp (by rw [hst]; rfl))
    obtain ⟨ho, hq, hf⟩ := h.states s st hst
    obtain ⟨ho', hq', hf'⟩ := h'.states s st' hst'
    rw [hst', Option.map_some, Option.map_some, formulaColumns, formulaColumns, ho, hq, hf, ho', hq', hf',
      total_perm hperm, total_perm hperm, total_perm hperm, crossSum_perm _ _ hperm]

end formula

/-- Batches that are ingested one after the other give what the formula over all of them
gives, whatever the order, and admissible batches can be ingested in every order. -/
theorem incremental_eq_batch (sha256 : GenerationPayload → String) :
    (∀ es published, es ≠ [] → (∀ e ∈ es, e.Covered) → Ingests sha256 es published →
      ∃ index, published = .database index ∧ BatchFormula es index) ∧
    (∀ es es' index index', es ≠ [] → (∀ e ∈ es, e.Covered) → es.Perm es' → Ingests sha256 es (.database index) →
      Ingests sha256 es' (.database index') →
      (∀ s, (index.stateOf s).map formulaColumns = (index'.stateOf s).map formulaColumns) ∧
        index.totals = index'.totals) ∧
    ∀ authority methodId methodSha256 runs, CollisionFree sha256 →
      Admissible authority methodId methodSha256 runs → ∀ runs', runs.Perm runs' →
      ∃ published, Ingests sha256 (runs'.map (·.2.database)) published := by
  have hformula : ∀ es published, es ≠ [] → (∀ e ∈ es, e.Covered) → Ingests sha256 es published →
      ∃ index, published = .database index ∧ BatchFormula es index := by
    intro es published hne hcovered h
    have hopened : published = .absent ∨ ∃ index, published = .database index := h.reachable.opened
    rcases hopened with rfl | ⟨index, rfl⟩
    · exact absurd h.eq_nil hne
    · obtain ⟨hc, -, haccounts⟩ := h.accounts hcovered ⟨⟨"", ""⟩, "", "", "", ""⟩ index (.inl rfl)
      exact ⟨index, rfl, haccounts.batchFormula hc hne⟩
  refine ⟨hformula, ?_, ?_⟩
  · intro es es' index index' hne hcovered hperm h h'
    have hne' : es' ≠ [] := fun hnil => hne (hnil ▸ hperm).eq_nil
    obtain ⟨_, heq, hf⟩ := hformula es _ hne hcovered h
    obtain rfl := Published.database.inj heq
    obtain ⟨_, heq, hf'⟩ := hformula es' _ hne' (fun e he => hcovered e (hperm.mem_iff.mpr he)) h'
    obtain rfl := Published.database.inj heq
    refine ⟨hf.states_of_perm hf' hperm, ?_⟩
    obtain ⟨g, hg, htotals⟩ := hf.totals
    obtain ⟨g', hg', htotals'⟩ := hf'.totals
    rw [Index.totals, Index.totals, hg, hg']
    exact htotals.eq_of_perm htotals' hperm
  · intro authority methodId methodSha256 runs hfree ha runs' hperm
    obtain ⟨published, h, -⟩ := ingests_of_admissible hfree (ha.perm hperm)
    exact ⟨published, h⟩

theorem Sample.collisionFree_digest : CollisionFree Sample.digest := by
  intro p p' h
  have hlength := congrArg (fun s : String => s.toList.length) h
  simpa [Sample.digest] using hlength

theorem Sample.admissible :
    Admissible ⟨"corpus", "authority"⟩ "method" "authority"
      [(Sample.callOf "1", Sample.first), (Sample.callOf "2", Sample.second)] := by
  refine ⟨?_, ?_, ?_, ?_, ?_, ?_, ?_⟩
  · decide
  · intro r hr
    refine ⟨if r.1.runId = "1" then "a" else "b", ?_⟩
    rcases List.mem_pair.mp hr with rfl | rfl <;> decide
  · decide
  · intro r hr
    rcases List.mem_pair.mp hr with rfl | rfl <;> exact ⟨by decide, by decide⟩
  · decide
  · decide
  · decide

/-- Both orders of two batches, ingested and compared. -/
theorem incremental_eq_batch_two :
    ∃ published published',
      Ingests Sample.digest [Sample.first.database, Sample.second.database] published ∧
      Ingests Sample.digest [Sample.second.database, Sample.first.database] published' ∧
      published.opened.totals = published'.opened.totals := by
  obtain ⟨hformula, horder, htotal⟩ := incremental_eq_batch Sample.digest
  obtain ⟨p, h⟩ := htotal _ _ _ _ Sample.collisionFree_digest Sample.admissible _ (List.Perm.refl _)
  obtain ⟨p', h'⟩ := htotal _ _ _ _ Sample.collisionFree_digest Sample.admissible _ (List.Perm.swap _ _ _)
  have hcovered : ∀ e ∈ [Sample.first.database, Sample.second.database], e.Covered := by
    intro e he
    rcases List.mem_pair.mp he with rfl | rfl <;> exact covered_sealEvidence _
  have hcovered' : ∀ e ∈ [Sample.second.database, Sample.first.database], e.Covered :=
    fun e he => hcovered e (by simpa [or_comm] using he)
  obtain ⟨index, rfl, -⟩ := hformula _ _ (by simp) hcovered h
  obtain ⟨index', rfl, -⟩ := hformula _ _ (by simp) hcovered' h'
  exact ⟨_, _, h, h', (horder _ _ index index' (by simp) hcovered (List.Perm.swap _ _ _) h h').2⟩

end FidbPoc.Corpus
