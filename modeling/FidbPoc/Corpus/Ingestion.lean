import FidbPoc.Corpus.Soundness

namespace FidbPoc.Corpus

open FidbPoc.Lib FidbPoc.Lib.Checked FidbPoc.Lib.Sums

/-- What the destination path can hold after any calls on an absent index. -/
inductive Reachable (sha256 : GenerationPayload → String) : Published → Prop
  | absent : Reachable sha256 .absent
  | update {published : Published} (h : Reachable sha256 published) (call : Call) (evidence : Option EvidenceFile) :
      Reachable sha256 (updateCorpusHashIndex sha256 call evidence published).1

/-- The database that a call works on: the published one, or a new one where none is. -/
def Opened (call : Call) (published : Published) (index : Index) : Prop :=
  published = .database index ∨ published = .absent ∧ index = createDatabase call.authority

/-- How a call comes out. -/
inductive Ingestion (sha256 : GenerationPayload → String) (call : Call) (evidence : Option EvidenceFile)
    (published : Published) : Published × Result Report → Prop
  | raised (e : Raised) : Ingestion sha256 call evidence published (published, .error e)
  | repeated {index : Index} {file : EvidenceFile} {source : SourceMetadata} {batch : CorpusBatch} {g : Generation}
      (hopened : published = .database index) (hfile : evidence = some file)
      (hsource : sourceMetadata file.database = .ok source) (hbatch : batch ∈ index.corpusBatch.values)
      (hdigest : batch.sourceEvidenceSha256 = source.sourceDigest) (hrun : batch.runId = call.runId)
      (hg : index.corpusGeneration.get? batch.ordinal = some g) :
      Ingestion sha256 call evidence published
        (published, .ok ⟨batch.ordinal, g, "already-ingested", batch.sourceDatabaseSha256⟩)
  | ingested {index next : Index} {file : EvidenceFile} {source : SourceMetadata} {batchId : Nat} {batch : CorpusBatch}
      {g : Generation} {rollup : List Rollup} (hopened : Opened call published index) (hfile : evidence = some file)
      (hsource : sourceMetadata file.database = .ok source)
      (hdigest : ∀ b ∈ index.corpusBatch.values, b.sourceEvidenceSha256 ≠ source.sourceDigest)
      (happlied : Applied sha256 call file source index batchId batch g rollup next) :
      Ingestion sha256 call evidence published (.database next, .ok ⟨batch.ordinal, g, "ingested", file.sha256⟩)

variable {sha256 : GenerationPayload → String} {call : Call} {file : EvidenceFile} {evidence : Option EvidenceFile}
  {published : Published} {index next : Index} {ordinal : Nat}

section session

theorem ingest_repeated {sourceDatabaseSha256 : String}
    (h : ingest sha256 call file index = .ok (.repeated ordinal sourceDatabaseSha256)) :
    ∃ source batch, sourceMetadata file.database = .ok source ∧ batch ∈ index.corpusBatch.values ∧
      batch.sourceEvidenceSha256 = source.sourceDigest ∧ batch.runId = call.runId ∧ batch.ordinal = ordinal ∧
      batch.sourceDatabaseSha256 = sourceDatabaseSha256 := by
  rw [ingest, bind_eq_ok] at h
  obtain ⟨source, hsource, h⟩ := h
  split at h
  · rename_i batch hbatch
    simp only [bind_eq_ok, require_eq_ok, pure_eq_ok, exists_const, Session.repeated.injEq] at h
    obtain ⟨hrun, hordinal, hsha⟩ := h
    have hdigest : batch.sourceEvidenceSha256 = source.sourceDigest := by simpa using List.find?_some hbatch
    exact ⟨source, batch, hsource, List.mem_of_find?_eq_some hbatch, hdigest, hrun, hordinal, hsha⟩
  · simp only [bind_eq_ok, pure_eq_ok, reduceCtorEq, and_false, exists_false] at h

theorem ingest_committed (h : ingest sha256 call file index = .ok (.committed ordinal next)) :
    ∃ source, sourceMetadata file.database = .ok source ∧
      (∀ b ∈ index.corpusBatch.values, b.sourceEvidenceSha256 ≠ source.sourceDigest) ∧
      applyDelta sha256 call file source index = .ok (ordinal, next) := by
  rw [ingest, bind_eq_ok] at h
  obtain ⟨source, hsource, h⟩ := h
  split at h
  · simp only [bind_eq_ok, require_eq_ok, pure_eq_ok, reduceCtorEq, and_false, exists_const] at h
  · rename_i hnone
    simp only [bind_eq_ok, pure_eq_ok, Session.committed.injEq, Prod.exists] at h
    obtain ⟨_, _, happlied, rfl, rfl⟩ := h
    refine ⟨source, hsource, fun b hb heq => ?_, happlied⟩
    exact List.find?_eq_none.mp hnone b hb (decide_eq_true heq)

/-- A committed transaction finds the generation it has written. -/
theorem Applied.report {source : SourceMetadata} {batchId : Nat} {batch : CorpusBatch} {g : Generation}
    {rollup : List Rollup} (ha : Applied sha256 call file source index batchId batch g rollup next) (state sha : String) :
    Corpus.report next batch.ordinal state sha = .ok ⟨batch.ordinal, g, state, sha⟩ := by
  have hg : next.corpusGeneration.get? batch.ordinal = some g :=
    Dict.get?_eq_some_iff.mpr (by simp [ha.corpusGeneration])
  rw [Corpus.report, generationDocument, hg]
  rfl

theorem report_eq_ok {state sha : String} {r : Report} (h : report index ordinal state sha = .ok r) :
    ∃ g, index.corpusGeneration.get? ordinal = some g ∧ r = ⟨ordinal, g, state, sha⟩ := by
  rw [report, bind_eq_ok] at h
  obtain ⟨g, hg, h⟩ := h
  rw [generationDocument] at hg
  split at hg
  · cases hg
  · rename_i g' hg'
    obtain rfl := Except.ok.inj hg
    exact ⟨g', hg', (pure_eq_ok.mp h).symm⟩

/-- A whole session leaves the database as it was or commits one transaction. -/
theorem runSession_cases (sha256 : GenerationPayload → String) (call : Call) (file : EvidenceFile) (index : Index) :
    (∃ e, runSession sha256 call file index = (index, false, .error e)) ∨
      (∃ source batch g, sourceMetadata file.database = .ok source ∧ batch ∈ index.corpusBatch.values ∧
        batch.sourceEvidenceSha256 = source.sourceDigest ∧ batch.runId = call.runId ∧
        index.corpusGeneration.get? batch.ordinal = some g ∧
        runSession sha256 call file index =
          (index, false, .ok ⟨batch.ordinal, g, "already-ingested", batch.sourceDatabaseSha256⟩)) ∨
      ∃ source batchId batch g rollup next, sourceMetadata file.database = .ok source ∧
        (∀ b ∈ index.corpusBatch.values, b.sourceEvidenceSha256 ≠ source.sourceDigest) ∧
        Applied sha256 call file source index batchId batch g rollup next ∧
        runSession sha256 call file index = (next, true, .ok ⟨batch.ordinal, g, "ingested", file.sha256⟩) := by
  unfold runSession
  split
  · rename_i e _
    exact .inl ⟨e, rfl⟩
  · rename_i ordinal sha hrepeated
    obtain ⟨source, batch, hsource, hbatch, hdigest, hrun, rfl, rfl⟩ := ingest_repeated hrepeated
    cases hreport : report index batch.ordinal "already-ingested" batch.sourceDatabaseSha256 with
    | error e => exact .inl ⟨e, rfl⟩
    | ok r =>
      obtain ⟨g, hg, rfl⟩ := report_eq_ok hreport
      exact .inr (.inl ⟨source, batch, g, hsource, hbatch, hdigest, hrun, hg, rfl⟩)
  · rename_i ordinal next hcommitted
    obtain ⟨source, hsource, hdigest, happlied⟩ := ingest_committed hcommitted
    obtain ⟨batchId, batch, g, rollup, ha, rfl⟩ := applyDelta_eq_ok happlied
    refine .inr (.inr ⟨source, batchId, batch, g, rollup, next, hsource, hdigest, ha, ?_⟩)
    rw [ha.report]

end session

theorem update_ingestion (sha256 : GenerationPayload → String) (call : Call) (evidence : Option EvidenceFile)
    (published : Published) :
    Ingestion sha256 call evidence published (updateCorpusHashIndex sha256 call evidence published) := by
  cases evidence with
  | none => exact .raised _
  | some file =>
    cases published with
    | irregular => exact .raised _
    | foreign => exact .raised _
    | absent =>
      simp only [updateCorpusHashIndex]
      rcases runSession_cases sha256 call file (createDatabase call.authority) with
        ⟨e, he⟩ | ⟨_, batch, _, _, hbatch, _⟩ | ⟨source, batchId, batch, g, rollup, next, hsource, hdigest, ha, hrun⟩
      · rw [he]
        exact .raised e
      · cases hbatch
      · rw [hrun]
        exact .ingested (.inr ⟨rfl, rfl⟩) rfl hsource hdigest ha
    | database index =>
      simp only [updateCorpusHashIndex]
      split
      · exact .raised _
      · rcases runSession_cases sha256 call file index with
          ⟨e, he⟩ | ⟨source, batch, g, hsource, hbatch, hdigest, hrunId, hg, hrun⟩ |
            ⟨source, batchId, batch, g, rollup, next, hsource, hdigest, ha, hrun⟩
        · rw [he]
          exact .raised e
        · rw [hrun]
          exact .repeated rfl rfl hsource hbatch hdigest hrunId hg
        · rw [hrun]
          exact .ingested (.inl rfl) rfl hsource hdigest ha

section reachable

/-- No two batches come from one evidence. -/
def DistinctSources (index : Index) : Prop := (index.corpusBatch.values.map (·.sourceEvidenceSha256)).Nodup

/-- A published database has a generation and is chained and sound. -/
structure PublishedSound (sha256 : GenerationPayload → String) (index : Index) : Prop where
  chained : Chained sha256 index
  sound : Sound index
  sources : DistinctSources index
  nonempty : index.corpusGeneration.entries ≠ []

theorem Opened.sound (h : Opened call published index)
    (hp : ∀ index, published = .database index → PublishedSound sha256 index) :
    Chained sha256 index ∧ Sound index ∧ DistinctSources index := by
  rcases h with rfl | ⟨-, rfl⟩
  · exact ⟨(hp index rfl).chained, (hp index rfl).sound, (hp index rfl).sources⟩
  · exact ⟨chained_createDatabase _, sound_createDatabase _, List.nodup_nil⟩

theorem Ingestion.sound {out : Published × Result Report} (h : Ingestion sha256 call evidence published out)
    (hp : ∀ index, published = .database index → PublishedSound sha256 index) :
    ∀ index, out.1 = .database index → PublishedSound sha256 index := by
  cases h with
  | raised e => exact hp
  | repeated => exact hp
  | ingested hopened _ _ hdigest ha =>
    rintro _ ⟨rfl⟩
    obtain ⟨hc, hs, hsources⟩ := hopened.sound hp
    refine ⟨ha.chained hc, ha.sound hc hs, ?_, by simp [ha.corpusGeneration]⟩
    rw [DistinctSources, Dict.values, ha.corpusBatch_entries, List.map_append, List.map_append]
    refine List.nodup_append.mpr ⟨hsources, List.nodup_singleton _, ?_⟩
    rintro _ hold _ hnew rfl
    obtain ⟨b, hb, hsource⟩ := List.mem_map.mp hold
    exact hdigest b hb (hsource.trans (by simpa [ha.sourceDigest] using hnew))

theorem Reachable.sound (h : Reachable sha256 published) :
    ∀ index, published = .database index → PublishedSound sha256 index := by
  induction h with
  | absent => exact fun _ h => (by cases h)
  | update _ call evidence ih => exact (update_ingestion sha256 call evidence _).sound ih

theorem Reachable.opened (h : Reachable sha256 published) :
    published = .absent ∨ ∃ index, published = .database index := by
  induction h with
  | absent => exact .inl rfl
  | @update published _ call evidence ih =>
    have hcases := update_ingestion sha256 call evidence published
    generalize updateCorpusHashIndex sha256 call evidence published = out at hcases ⊢
    cases hcases with
    | raised => exact ih
    | repeated => exact ih
    | ingested => exact .inr ⟨_, rfl⟩

/-- The batch of an evidence leads to the generation that was published for it. -/
theorem Chained.generation (h : Chained sha256 index) {batch : CorpusBatch} (hb : batch ∈ index.corpusBatch.values) :
    ∃ g, index.corpusGeneration.get? batch.ordinal = some g ∧ g.sourceEvidenceSha256 = batch.sourceEvidenceSha256 := by
  obtain ⟨row, hrow, rfl⟩ := List.mem_map.mp hb
  have hmem : (row.1, row.1, row.2.sourceEvidenceSha256) ∈
      index.corpusGeneration.entries.map fun g => (g.1, g.2.batchId, g.2.sourceEvidenceSha256) :=
    h.generations ▸ List.mem_map_of_mem hrow
  obtain ⟨g, hg, heq⟩ := List.mem_map.mp hmem
  obtain ⟨hid, -, hsource⟩ : g.1 = row.1 ∧ g.2.batchId = row.1 ∧ g.2.sourceEvidenceSha256 = row.2.sourceEvidenceSha256 := by
    simpa using heq
  exact ⟨g.2, h.ordinals row hrow ▸ hid ▸ Dict.get?_of_mem hg, hsource⟩

/-- An evidence that its run has ingested before is reported again. -/
theorem update_repeated {source : SourceMetadata} {batch : CorpusBatch} {g : Generation}
    (hsources : DistinctSources index) (hvalid : validateDatabase call.authority index = .ok ())
    (hsource : sourceMetadata file.database = .ok source) (hbatch : batch ∈ index.corpusBatch.values)
    (hdigest : batch.sourceEvidenceSha256 = source.sourceDigest) (hrun : batch.runId = call.runId)
    (hg : index.corpusGeneration.get? batch.ordinal = some g) :
    updateCorpusHashIndex sha256 call (some file) (.database index) =
      (.database index, .ok ⟨batch.ordinal, g, "already-ingested", batch.sourceDatabaseSha256⟩) := by
  have hfind : index.corpusBatch.values.find? (fun b => b.sourceEvidenceSha256 = source.sourceDigest) = some batch :=
    hdigest ▸ Table.find?_key hsources hbatch
  have hingest : ingest sha256 call file index = .ok (.repeated batch.ordinal batch.sourceDatabaseSha256) := by
    simp [ingest, hsource, ok_bind, hfind, hrun, require, Pure.pure, Except.pure]
  have hreport : report index batch.ordinal "already-ingested" batch.sourceDatabaseSha256 =
      .ok ⟨batch.ordinal, g, "already-ingested", batch.sourceDatabaseSha256⟩ := by
    rw [report, generationDocument, hg]
    rfl
  simp only [updateCorpusHashIndex, hvalid, runSession, hingest, hreport]

end reachable

section errors

def inconsistentCache : Raised := valueError "corpus hash index cumulative FP cache is inconsistent"
def negativePopulation : Raised := valueError "corpus hash index produced a negative TN population"

def NotInternal (e : Raised) : Prop := e ≠ inconsistentCache ∧ e ≠ negativePopulation

instance (e : Raised) : Decidable (NotInternal e) := by
  unfold NotInternal
  infer_instance

theorem notInternal_repeatedOwner (o : String) : NotInternal (valueError ("corpus batch repeats existing owner: " ++ o)) := by
  have hne : ∀ message : String, message.toList.take 8 ≠ "corpus b".toList →
      valueError ("corpus batch repeats existing owner: " ++ o) ≠ valueError message := by
    intro message hmessage heq
    have hchars := congrArg (fun e : Raised => e.message.toList.take 8) heq
    simp only [valueError, String.toList_append] at hchars
    rw [List.take_append_of_le_length (by decide)] at hchars
    exact hmessage hchars.symm
  exact ⟨hne _ (by decide), hne _ (by decide)⟩

theorem raisesOnly_insertRows {κ ν : Type} [DecidableEq κ] {p : Raised → Prop} {e : Raised} (h : p e) (d : Dict κ ν)
    (rows : List (κ × ν)) : RaisesOnly p (Dict.insertRows e d rows) :=
  .foldlM (fun _ _ => .bind (.require fun _ => h) fun _ _ => .ok _) rows d

/-- On reconciled evidence a transaction on a sound index fails for reasons of its own only. -/
theorem raisesOnly_applyDelta (source : SourceMetadata) (h : Sound index) (he : file.database.Reconciled) :
    RaisesOnly NotInternal (applyDelta sha256 call file source index) := by
  unfold applyDelta
  refine .bind (.require fun _ => by decide) fun _ _ => ?_
  refine .bind (.require fun _ => by decide) fun _ _ => ?_
  refine .bind (.require fun _ => notInternal_repeatedOwner _) fun _ _ => ?_
  refine .bind (.require fun _ => by decide) fun _ _ => ?_
  refine .bind (raisesOnly_insertRows (by decide) _ _) fun corpusOwner _ => ?_
  refine .bind (raisesOnly_insertRows (by decide) _ _) fun signatureBatch hsignatureBatch => ?_
  have hstaged : Staged index file.database _ (insertSignatures file.database index.signature) signatureBatch _ :=
    ⟨rfl, rfl, (Dict.insertRows_eq_ok.mp hsignatureBatch).2, rfl⟩
  refine .bind (raisesOnly_insertRows (by decide) _ _) fun signatureOwner _ => ?_
  refine .bind (.require fun _ => by decide) fun _ _ => ?_
  refine .bind (.require fun _ => by decide) fun _ _ => ?_
  refine .bind (.bind (.require fun _ => by decide) fun _ _ => .ok _) fun corpusGeneration _ => ?_
  refine .bind (.require fun _ => by decide) fun _ _ => ?_
  refine .bind (.require fun hcached => (hcached (h.cached_next hstaged he _ _)).elim) fun _ _ => ?_
  refine .bind (.require fun hnegative => (hnegative ?_).elim) fun _ _ => .ok _
  have hnonneg := h.negatives_next hstaged he (insertSignatures file.database index.signature).entries.length
  rw [hstaged.total_rollup] at hnonneg
  exact hnonneg

theorem raisesOnly_runSession (h : Sound index) (he : file.database.Reconciled) :
    RaisesOnly NotInternal (runSession sha256 call file index).2.2 := by
  have hreport : ∀ index ordinal state sha, RaisesOnly NotInternal (report index ordinal state sha) := by
    intro index ordinal state sha
    refine .bind ?_ fun _ _ => .ok _
    unfold generationDocument
    split
    · exact .error (by decide)
    · exact .ok _
  have hingest : RaisesOnly NotInternal (ingest sha256 call file index) := by
    refine .bind ?_ fun source _ => ?_
    · simp only [sourceMetadata]
      split
      · exact .error (by decide)
      · exact .ok _
    · split
      · exact .bind (.require fun _ => by decide) fun _ _ => .ok _
      · exact .bind (raisesOnly_applyDelta source h he) fun _ _ => .ok _
  unfold runSession
  split
  · rename_i e heq
    exact .error (hingest e heq)
  · exact hreport index _ _ _
  · split
    · rename_i e heq
      exact .error (hreport _ _ _ _ e heq)
    · exact .ok _

theorem raisesOnly_update (call : Call) (h : Reachable sha256 published) (he : file.database.Reconciled) :
    RaisesOnly NotInternal (updateCorpusHashIndex sha256 call (some file) published).2 := by
  cases published with
  | irregular => exact .error (by decide)
  | foreign => exact .error (by decide)
  | absent => exact raisesOnly_runSession (sound_createDatabase _) he
  | database index =>
    have hvalidate : RaisesOnly NotInternal (validateDatabase call.authority index) :=
      .bind (.require fun _ => by decide) fun _ _ =>
        .bind (.require fun _ => by decide) fun _ _ => .require fun _ => by decide
    simp only [updateCorpusHashIndex]
    split
    · rename_i e heq
      exact .error (hvalidate e heq)
    · exact raisesOnly_runSession (h.sound index rfl).sound he

end errors

/-- One generation is appended, numbered after the batches and linked to the latest one. -/
structure Appends (index next : Index) (ordinal : Nat) (g : Generation) : Prop where
  generations : next.corpusGeneration.entries = index.corpusGeneration.entries ++ [(ordinal, g)]
  ordinal : ordinal = nextId (index.corpusBatch.values.map (·.ordinal))
  previous : g.previousDigest = index.latest.map fun p => p.2.generationDigest

/-- A call leaves what is published as it was, or appends one generation. Over any calls the
generations form a hash chain, the cached false positives are those of its last generation,
an ingested evidence is reported again, and reconciled evidence never trips the internal checks. -/
theorem ingestion_atomic (sha256 : GenerationPayload → String) :
    (∀ call evidence published,
      (∃ e, updateCorpusHashIndex sha256 call evidence published = (published, .error e)) ∨
      (∃ index file source batch g, published = .database index ∧ evidence = some file ∧
        sourceMetadata file.database = .ok source ∧ batch ∈ index.corpusBatch.values ∧
        batch.sourceEvidenceSha256 = source.sourceDigest ∧ batch.runId = call.runId ∧
        index.corpusGeneration.get? batch.ordinal = some g ∧
        updateCorpusHashIndex sha256 call evidence published =
          (published, .ok ⟨batch.ordinal, g, "already-ingested", batch.sourceDatabaseSha256⟩)) ∨
      ∃ index next ordinal g sha, Opened call published index ∧ Appends index next ordinal g ∧
        updateCorpusHashIndex sha256 call evidence published =
          (.database next, .ok ⟨ordinal, g, "ingested", sha⟩)) ∧
    (∀ index, Reachable sha256 (.database index) →
      Chained sha256 index ∧
      (∃ g, index.latest = some (index.corpusGeneration.entries.length, g) ∧
        total (·.cumulativeFalsePositives) index.signatureState.values = g.totals.falsePositives ∧
        0 ≤ g.totals.trueNegatives) ∧
      ∀ call file source batch, validateDatabase call.authority index = .ok () →
        sourceMetadata file.database = .ok source → batch ∈ index.corpusBatch.values →
        batch.sourceEvidenceSha256 = source.sourceDigest → batch.runId = call.runId →
        ∃ g, index.corpusGeneration.get? batch.ordinal = some g ∧ g.sourceEvidenceSha256 = source.sourceDigest ∧
          updateCorpusHashIndex sha256 call (some file) (.database index) =
            (.database index, .ok ⟨batch.ordinal, g, "already-ingested", batch.sourceDatabaseSha256⟩)) ∧
    ∀ published, Reachable sha256 published → ∀ call file, file.database.Reconciled →
      (updateCorpusHashIndex sha256 call (some file) published).2 ≠ .error inconsistentCache ∧
        (updateCorpusHashIndex sha256 call (some file) published).2 ≠ .error negativePopulation := by
  refine ⟨?_, ?_, ?_⟩
  · intro call evidence published
    have hcases := update_ingestion sha256 call evidence published
    generalize updateCorpusHashIndex sha256 call evidence published = out at hcases ⊢
    cases hcases with
    | raised e => exact .inl ⟨e, rfl⟩
    | repeated hopened hfile hsource hbatch hdigest hrun hg =>
      exact .inr (.inl ⟨_, _, _, _, _, hopened, hfile, hsource, hbatch, hdigest, hrun, hg, rfl⟩)
    | ingested hopened hfile hsource hdigest ha =>
      obtain ⟨totals, hg⟩ := ha.generation
      exact .inr (.inr ⟨_, _, _, _, _, hopened, ⟨ha.corpusGeneration, ha.ordinal, by rw [hg]; rfl⟩, rfl⟩)
  · intro index h
    obtain ⟨hc, hs, hsources, hne⟩ := h.sound index rfl
    rcases hc.latest_cases with ⟨hnil, -⟩ | ⟨g, hlatest, -⟩
    · exact absurd hnil hne
    have htotals : index.totals = g.totals := by
      rw [Index.totals, hlatest]
      rfl
    refine ⟨hc, ⟨g, hlatest, htotals ▸ hs.cached, htotals ▸ hs.negatives⟩, ?_⟩
    intro call file source batch hvalid hsource hbatch hdigest hrun
    obtain ⟨g, hg, hgsource⟩ := hc.generation hbatch
    exact ⟨g, hg, hgsource.trans hdigest, update_repeated hsources hvalid hsource hbatch hdigest hrun hg⟩
  · intro published h call file he
    have hraises := raisesOnly_update call h he
    exact ⟨fun heq => (hraises _ heq).1 rfl, fun heq => (hraises _ heq).2 rfl⟩

def Sample.signature (hash : String) : Signature := ⟨"linux|elf|x86", "x86", hash, hash, 7, 8⟩

def Sample.unit : FoldUnit := ⟨"route", "treatment", "A"⟩

/-- One fold that recovers one signature of one owner and misses another. -/
def Sample.building (owner digest recovered missed : String) : Evidence :=
  { createEvidence "run" digest "method" "authority" with
    unitResult := Dict.ofList [((1, "A"), ⟨"route", "treatment", "query.jsonl", "0", 1, 1, 0, 1, 1, 0⟩)]
    hashObservation := Dict.ofList
      [(⟨Sample.signature recovered, .tp, owner, Sample.unit⟩, ⟨"0", "query", "reference", "reference.jsonl"⟩),
        (⟨Sample.signature missed, .fn, owner, Sample.unit⟩, ⟨"", "", "reference", "reference.jsonl"⟩)] }

def Sample.first : EvidenceFile := ⟨"first", sealEvidence (Sample.building "one@1" "a" "1" "2")⟩
def Sample.second : EvidenceFile := ⟨"second", sealEvidence (Sample.building "two@1" "b" "1" "3")⟩

def Sample.digest (payload : GenerationPayload) : String := String.ofList (List.replicate payload.ordinal 'f')

def Sample.callOf (runId : String) : Call := ⟨⟨"corpus", "authority"⟩, "validation", runId, "now", "now"⟩

def Sample.firstPublished : Published :=
  (updateCorpusHashIndex Sample.digest (Sample.callOf "1") (some Sample.first) .absent).1

def Sample.bothPublished : Published :=
  (updateCorpusHashIndex Sample.digest (Sample.callOf "2") (some Sample.second) Sample.firstPublished).1

def Published.opened : Published → Index
  | .database index => index
  | _ => createDatabase ⟨"", ""⟩

def Published.isDatabase : Published → Bool
  | .database _ => true
  | _ => false

theorem Published.eq_opened {p : Published} (h : p.isDatabase = true) : p = .database p.opened := by
  cases p with
  | database index => rfl
  | absent | irregular | foreign => cases h

theorem Sample.reachable_bothPublished : Reachable Sample.digest Sample.bothPublished := .update (.update .absent _ _) _ _

theorem ingestion_atomic_two_batches :
    Chained Sample.digest Sample.bothPublished.opened ∧ Sample.bothPublished.opened.totals.owners = 2 ∧
      (updateCorpusHashIndex Sample.digest (Sample.callOf "1") (some Sample.first) Sample.bothPublished).2 ≠
        .error negativePopulation := by
  have h := Published.eq_opened (p := Sample.bothPublished) (by decide)
  have hreachable := h ▸ Sample.reachable_bothPublished
  refine ⟨((ingestion_atomic Sample.digest).2.1 _ hreachable).1, by decide, ?_⟩
  refine ((ingestion_atomic Sample.digest).2.2 _ Sample.reachable_bothPublished (Sample.callOf "1") Sample.first ⟨?_, ?_⟩).2
  · decide
  · decide

end FidbPoc.Corpus
