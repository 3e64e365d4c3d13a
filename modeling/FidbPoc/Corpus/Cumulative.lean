import FidbPoc.Corpus.Ingestion
import Mathlib.Tactic.LinearCombination

namespace FidbPoc.Corpus

open FidbPoc.Lib FidbPoc.Lib.Checked FidbPoc.Lib.Sums

namespace Evidence

/-- The owners of a signature in one batch. -/
def ownerCount (s : Signature) (e : Evidence) : ℤ := (e.ownersOf s).length

/-- The query observations of a signature in one batch. -/
def queryCount (s : Signature) (e : Evidence) : ℤ := (e.unitsOf s).length

/-- The internal false positives of a signature in one batch. -/
def internalOf (s : Signature) (e : Evidence) : ℤ := (e.hashSummary.get? s).elim 0 (·.falsePositives)

def ownerTotal (e : Evidence) : ℤ := e.owners.length
def queryTotal (e : Evidence) : ℤ := e.observedUnits.length

/-- A column of `unit_result`, added up. -/
def unitTotal (c : UnitResult → ℤ) (e : Evidence) : ℤ := total c e.unitResult.values

section covered

variable {e : Evidence} {s : Signature}

theorem Covered.ownerCount_eq_zero (h : e.Covered) (hs : s ∉ e.hashSummary.keys) : ownerCount s e = 0 := by
  have hnil : e.ownersOf s = [] :=
    List.eq_nil_iff_forall_not_mem.mpr fun o ho => hs (h.referenced _ (mem_ownersOf.mp ho))
  simp [ownerCount, hnil]

theorem Covered.queryCount_eq_zero (h : e.Covered) (hs : s ∉ e.hashSummary.keys) : queryCount s e = 0 := by
  have hnil : e.unitsOf s = [] := by
    refine List.eq_nil_iff_forall_not_mem.mpr fun u hu => ?_
    obtain ⟨k, hk, rfl, -⟩ := mem_unitsOf.mp hu
    exact hs (h.observed k hk)
  simp [queryCount, hnil]

theorem internalOf_eq_zero (hs : s ∉ e.hashSummary.keys) : internalOf s e = 0 := by
  rw [internalOf, Dict.get?_eq_none_iff.mpr hs, Option.elim_none]

/-- The query counts of the signatures add up to all observed units. -/
theorem Covered.total_queryCount (h : e.Covered) : total (queryCount · e) e.hashSummary.keys = queryTotal e := by
  have hmem : ∀ u ∈ e.observedUnits, u.1 ∈ e.hashSummary.keys := by
    intro u hu
    obtain ⟨k, hk, rfl⟩ := List.mem_map.mp (List.mem_dedup.mp hu)
    exact h.observed k hk
  have hgroups := total_groups (fun u : Signature × FoldUnit => u.1) (fun _ => 1) e.hashSummary.nodup_keys hmem
  have hlength : ∀ us : List (Signature × FoldUnit), total (fun _ => 1) us = us.length := fun us => by
    simp [total]
  simp only [hlength] at hgroups
  rw [queryTotal, ← hgroups]
  exact total_congr fun s _ => by rw [queryCount, unitsOf, List.length_map]

end covered

end Evidence

open Evidence

/-- A sequence of evidence databases, each ingested as a new batch, from an absent index on. -/
inductive Ingests (sha256 : GenerationPayload → String) : List Evidence → Published → Prop
  | nil : Ingests sha256 [] .absent
  | concat {es : List Evidence} {published published' : Published} (h : Ingests sha256 es published) (call : Call)
      (file : EvidenceFile) {r : Report}
      (hcall : updateCorpusHashIndex sha256 call (some file) published = (published', .ok r))
      (hstate : r.state = "ingested") : Ingests sha256 (es ++ [file.database]) published'

/-- All signatures of the batches, each once. -/
def signaturesOf (es : List Evidence) : List Signature := (es.flatMap fun e => e.hashSummary.keys).dedup

/-- The false positives across batches: queries of one batch against the owners of another. -/
def crossPairs (es : List Evidence) (s : Signature) : ℤ := crossSum (queryCount s) (ownerCount s) es

/-- The row of `signature_state` of a signature. -/
def Index.stateOf (index : Index) (s : Signature) : Option SignatureState :=
  (index.signature.get? s).bind index.signatureState.get?

/-- The states of the signatures are those of the batch formula. -/
structure StatesOf (es : List Evidence) (index : Index) : Prop where
  signatures : ∀ s, s ∈ index.signature.keys ↔ ∃ e ∈ es, s ∈ e.hashSummary.keys
  states : ∀ s i, index.signature.get? s = some i → ∃ st, index.signatureState.get? i = some st ∧
    st.distinctOwners = total (ownerCount s) es ∧ st.queryObservations = total (queryCount s) es ∧
    st.cumulativeFalsePositives = total (internalOf s) es + crossPairs es s

/-- The totals are those of the batch formula. -/
structure TotalsOf (es : List Evidence) (t : Totals) : Prop where
  owners : t.owners = total ownerTotal es
  signatures : t.signatures = (signaturesOf es).length
  queries : t.queryObservations = total queryTotal es
  truePositives : t.truePositives = total (unitTotal (·.truePositives)) es
  falsePositives : t.falsePositives = total (unitTotal (·.falsePositives)) es + total (crossPairs es) (signaturesOf es)
  population : t.falsePositives + t.trueNegatives =
    total (unitTotal (·.falsePositives)) es + total (unitTotal (·.trueNegatives)) es +
      crossSum queryTotal ownerTotal es
  falseNegatives : t.falseNegatives = total (unitTotal (·.falseNegatives)) es

section rollup

variable {index : Index} {e : Evidence} {batchId : Nat} {signature : Dict Signature Nat}
  {signatureBatch : Dict (Nat × Nat) SignatureBatch} {rollup : List Rollup}

/-- What the rollup holds for a signature: its counts in the batch, or nothing where they are zero. -/
theorem Staged.find?_rollup (h : Staged index e batchId signature signatureBatch rollup)
    (hkeys : ∀ k ∈ index.signatureBatch.keys, k.1 ∈ index.corpusBatch.keys) (hids : signature.values.Nodup)
    (he : e.Covered) {s : Signature} {i : Nat} (hs : signature.get? s = some i) :
    (∃ r, rollup.find? (fun r => r.signatureId = i) = some r ∧ r.counts.queryObservations = queryCount s e ∧
        r.newOwners = ownerCount s e ∧ r.counts.internalFalsePositives = internalOf s e) ∨
      s ∉ e.hashSummary.keys ∧ rollup.find? (fun r => r.signatureId = i) = none ∧ queryCount s e = 0 ∧
        ownerCount s e = 0 ∧ internalOf s e = 0 := by
  have hrows := Dict.filter_join hids hs (fun row : Signature × HashSummary => row.1)
    (fun i row => ((batchId, i), (⟨((deltaQueryBySignature signature e).get? i).getD 0, row.2.truePositives,
      row.2.falsePositives, row.2.falseNegatives, row.2.unattributedObservations⟩ : SignatureBatch)))
    (fun row => decide (row.1.2 = i)) (fun _ _ => rfl) e.hashSummary.entries
  have hfind : rollup.find? (fun r => r.signatureId = i) =
      (e.hashSummary.entries.find? fun row => row.1 = s).map fun row =>
        { signatureId := i
          counts := ⟨((deltaQueryBySignature signature e).get? i).getD 0, row.2.truePositives,
            row.2.falsePositives, row.2.falseNegatives, row.2.unattributedObservations⟩
          newOwners := ((deltaOwnerBySignature signature e).entries.filter fun owner => owner.1.1 = i).length
          referenceCount := total (fun owner => owner.2.referenceObservations)
            ((deltaOwnerBySignature signature e).entries.filter fun owner => owner.1.1 = i) } := by
    rw [h.rollup_eq, deltaRollup, h.filter_rows hkeys, List.find?_map, ← List.head?_filter, ← List.head?_filter]
    simp only [Function.comp_def]
    rw [signatureBatchRows, hrows, List.head?_map, Option.map_map]
    rfl
  rw [hfind]
  cases hrow : e.hashSummary.entries.find? fun row => row.1 = s with
  | none =>
    have hnot : s ∉ e.hashSummary.keys := by
      rw [← Dict.get?_eq_none_iff, Dict.get?, hrow, Option.map_none]
    exact .inr ⟨hnot, rfl, he.queryCount_eq_zero hnot, he.ownerCount_eq_zero hnot, internalOf_eq_zero hnot⟩
  | some row =>
    have hget : e.hashSummary.get? s = some row.2 := by rw [Dict.get?, hrow, Option.map_some]
    refine .inl ⟨_, rfl, getD_deltaQuery hids hs, ?_, ?_⟩
    · have howners := length_ownersUnder (e := e) hids hs
      rw [ownersUnder, List.length_map] at howners
      exact congrArg Nat.cast howners
    · rw [internalOf, hget, Option.elim_some]

/-- The new queries of a covered batch are its observed units. -/
theorem Staged.total_newQueries (h : Staged index e batchId signature signatureBatch rollup)
    (hkeys : ∀ k ∈ index.signatureBatch.keys, k.1 ∈ index.corpusBatch.keys) (hids : signature.values.Nodup)
    (he : e.Covered) : total (·.counts.queryObservations) rollup = queryTotal e := by
  have hrow : ∀ row ∈ e.hashSummary.entries, ∃ i, signature.get? row.1 = some i := fun row hrow =>
    Dict.mem_keys.mp (h.mem_keys_signature.mpr (.inr (Dict.mem_keys_of_mem hrow)))
  rw [h.total_rollup (·.queryObservations), h.filter_rows hkeys, ← he.total_queryCount, Dict.keys, total_map,
    signatureBatchRows]
  generalize e.hashSummary.entries = entries at hrow ⊢
  induction entries with
  | nil => rfl
  | cons row entries ih =>
    obtain ⟨⟨i, hi⟩, hrest⟩ := List.forall_mem_cons.mp hrow
    simp only [hi, List.filterMap_cons, Option.map_some, total_cons, getD_deltaQuery hids hi, queryCount]
    exact congrArg (_ + ·) (ih hrest)

end rollup

section step

variable {sha256 : GenerationPayload → String} {call : Call} {file : EvidenceFile} {source : SourceMetadata}
  {index next : Index} {batchId : Nat} {batch : CorpusBatch} {g : Generation} {rollup : List Rollup}
  {es : List Evidence}

theorem total_eq_zero_of_not_mem {s : Signature} {f : Evidence → ℤ} (hs : ¬∃ e ∈ es, s ∈ e.hashSummary.keys)
    (hf : ∀ e ∈ es, s ∉ e.hashSummary.keys → f e = 0) : total f es = 0 :=
  total_zero fun e he => hf e he fun hmem => hs ⟨e, he, hmem⟩

/-- The state of a signature before the update: its row, or the zero row of a new signature. -/
theorem StatesOf.initial (h : StatesOf es index) (hsound : Sound index) (hcovered : ∀ e ∈ es, e.Covered)
    (ha : Applied sha256 call file source index batchId batch g rollup next)
    {s : Signature} {i : Nat} (hs : next.signature.get? s = some i)
    (hr : s ∈ file.database.hashSummary.keys → ∃ r ∈ rollup, r.signatureId = i) :
    ∃ st, (Staged.initial index batchId rollup).get? i = some st ∧
      st.distinctOwners = total (ownerCount s) es ∧ st.queryObservations = total (queryCount s) es ∧
      st.cumulativeFalsePositives = total (internalOf s) es + crossPairs es s := by
  have hids : next.signature.values.Nodup := ha.staged.signature_eq ▸ nodup_insertSignatures hsound.ids
  by_cases hold : s ∈ index.signature.keys
  · obtain ⟨j, hj⟩ := Dict.mem_keys.mp hold
    have hji : j = i := by
      have hkeep := get?_insertSignatures_of_some (e := file.database) hj
      rw [← ha.staged.signature_eq, hs] at hkeep
      exact (Option.some.inj hkeep).symm
    obtain ⟨st, hst, hcolumns⟩ := h.states s j hj
    exact ⟨st, Dict.get?_fill_of_some (hji ▸ hst), hcolumns⟩
  · have hnew : s ∈ file.database.hashSummary.keys :=
      (ha.staged.mem_keys_signature.mp (Dict.mem_keys.mpr ⟨i, hs⟩)).resolve_left hold
    obtain ⟨r, hmem, rfl⟩ := hr hnew
    obtain ⟨st, hst⟩ := Staged.mem_initial index batchId hmem
    have hfresh : r.signatureId ∉ index.signature.values :=
      insertSignatures_fresh hsound.ids hold (ha.staged.signature_eq ▸ hs)
    have hnone : index.signatureState.get? r.signatureId = none := by
      refine Dict.get?_eq_none_iff.mpr fun hk => hfresh ?_
      obtain ⟨row, hrow, heq⟩ := List.mem_map.mp hk
      exact heq ▸ (hsound.foreign.2.2.2.1 row hrow).1
    have hzero : st = ⟨0, 0, 0, 0, 0, 0, 0, batchId⟩ := by
      rcases Staged.get?_initial hst with h | h
      · rw [hnone] at h
        cases h
      · exact h
    have hnot : ¬∃ e ∈ es, s ∈ e.hashSummary.keys := fun hex => hold ((h.signatures s).mpr hex)
    have howners := total_eq_zero_of_not_mem hnot fun e he hs => (hcovered e he).ownerCount_eq_zero hs
    have hqueries := total_eq_zero_of_not_mem hnot fun e he hs => (hcovered e he).queryCount_eq_zero hs
    have hinternal := total_eq_zero_of_not_mem (f := internalOf s) hnot fun e _ hs => internalOf_eq_zero hs
    have hdiagonal : total (fun e => queryCount s e * ownerCount s e) es = 0 :=
      total_eq_zero_of_not_mem hnot fun e he hs => by rw [(hcovered e he).queryCount_eq_zero hs, zero_mul]
    refine ⟨st, hst, ?_⟩
    rw [hzero, howners, hqueries, hinternal, crossPairs, crossSum_eq, hqueries, hdiagonal]
    exact ⟨rfl, rfl, by simp⟩

theorem Applied.statesOf (ha : Applied sha256 call file source index batchId batch g rollup next) (hsound : Sound index)
    (hcovered : ∀ e ∈ es, e.Covered) (he : file.database.Covered) (h : StatesOf es index) :
    StatesOf (es ++ [file.database]) next := by
  have hids : next.signature.values.Nodup := ha.staged.signature_eq ▸ nodup_insertSignatures hsound.ids
  refine ⟨fun s => ?_, fun s i hs => ?_⟩
  · rw [ha.staged.mem_keys_signature, h.signatures]
    simp [or_and_right, exists_or]
  · have hcounts := ha.staged.find?_rollup (fun k hk => (hsound.foreign.2.1 k hk).1) hids he hs
    obtain ⟨st, hst, howners, hqueries, hcumulative⟩ := h.initial hsound hcovered ha hs fun hmem => by
      rcases hcounts with ⟨r, hr, -⟩ | ⟨hnot, -⟩
      · exact ⟨r, List.mem_of_find?_eq_some hr, by simpa using List.find?_some hr⟩
      · exact absurd hmem hnot
    rw [ha.signatureState, Staged.get?_advanceStates, hst, Option.map_some]
    refine ⟨_, rfl, ?_⟩
    simp only [total_concat, crossPairs, crossSum_concat] at hcumulative ⊢
    rcases hcounts with ⟨r, hr, hq, ho, hi⟩ | ⟨-, hr, hq, ho, hi⟩
    · rw [hr, Option.elim_some]
      simp only [advance, crossFalsePositives, howners, hqueries, hcumulative, hq, ho, hi, true_and]
      ring
    · rw [hr, Option.elim_none, hq, ho, hi]
      simp only [howners, hqueries, hcumulative]
      exact ⟨by ring, by ring, by ring⟩

end step

section totals

variable {sha256 : GenerationPayload → String} {call : Call} {file : EvidenceFile} {source : SourceMetadata}
  {index next : Index} {batchId : Nat} {batch : CorpusBatch} {g : Generation} {rollup : List Rollup}
  {es : List Evidence}

theorem StatesOf.perm_keys (h : StatesOf es index) : index.signature.keys.Perm (signaturesOf es) := by
  refine (List.perm_ext_iff_of_nodup index.signature.nodup_keys (List.nodup_dedup _)).mpr fun s => ?_
  simp only [h.signatures, List.mem_dedup, List.mem_flatMap]

/-- Every state is that of one signature. -/
theorem StatesOf.perm_ids (h : StatesOf es index) (hsound : Sound index) :
    index.signatureState.keys.Perm index.signature.values := by
  refine (List.perm_ext_iff_of_nodup index.signatureState.nodup_keys hsound.ids).mpr fun i => ⟨fun hi => ?_, fun hi => ?_⟩
  · obtain ⟨row, hrow, rfl⟩ := List.mem_map.mp hi
    exact (hsound.foreign.2.2.2.1 row hrow).1
  · obtain ⟨s, hs⟩ := Dict.mem_values.mp hi
    obtain ⟨st, hst, -⟩ := h.states s i hs
    exact Dict.mem_keys.mpr ⟨st, hst⟩

theorem StatesOf.total_cumulative (h : StatesOf es index) (hsound : Sound index) :
    total (·.cumulativeFalsePositives) index.signatureState.values =
      total (fun s => total (internalOf s) es + crossPairs es s) (signaturesOf es) := by
  let ofId (i : Nat) : ℤ := (index.signatureState.get? i).elim 0 (·.cumulativeFalsePositives)
  calc total (·.cumulativeFalsePositives) index.signatureState.values
      = total ofId index.signatureState.keys := Dict.total_values _ _ index.signatureState.nodup_keys fun _ h => h
    _ = total ofId index.signature.values := total_perm (h.perm_ids hsound)
    _ = total (fun s => (index.signature.get? s).elim 0 ofId) index.signature.keys :=
        Dict.total_values _ _ index.signature.nodup_keys fun _ h => h
    _ = total (fun s => total (internalOf s) es + crossPairs es s) index.signature.keys := by
        refine total_congr fun s hs => ?_
        obtain ⟨i, hi⟩ := Dict.mem_keys.mp hs
        obtain ⟨st, hst, -, -, hcumulative⟩ := h.states s i hi
        rw [hi, Option.elim_some, ← hcumulative]
        simp only [ofId, hst, Option.elim_some]
    _ = _ := total_perm h.perm_keys

theorem total_internalOf {e : Evidence} (he : e ∈ es) :
    total (internalOf · e) (signaturesOf es) = total (·.falsePositives) e.hashSummary.values := by
  refine (Dict.total_values _ _ (List.nodup_dedup _) fun s hs => ?_).symm
  exact List.mem_dedup.mpr (List.mem_flatMap.mpr ⟨e, he, hs⟩)

/-- The internal false positives of a committed batch are those of its units. -/
theorem Applied.internal_eq (ha : Applied sha256 call file source index batchId batch g rollup next)
    (hsound : Sound index) :
    total (·.falsePositives) file.database.hashSummary.values = unitTotal (·.falsePositives) file.database := by
  have hcached := ha.cached
  have hrows : total (·.counts.internalFalsePositives) rollup =
      total (·.falsePositives) file.database.hashSummary.values := by
    rw [ha.staged.total_rollup (·.internalFalsePositives),
      ha.staged.filter_rows fun k hk => (hsound.foreign.2.1 k hk).1]
    exact ha.staged.total_rows fun _ _ => rfl
  rw [ha.signatureState, ha.staged.total_cumulativeFalsePositives, ha.totals, hsound.cached, hrows] at hcached
  simp only [cumulate] at hcached
  rw [unitTotal]
  omega

/-- An index is the one of the batches ingested so far. -/
structure Accounts (es : List Evidence) (index : Index) : Prop where
  states : StatesOf es index
  totals : TotalsOf es index.totals
  internal : ∀ e ∈ es, total (·.falsePositives) e.hashSummary.values = unitTotal (·.falsePositives) e
  count : index.corpusGeneration.entries.length = es.length

theorem accounts_createDatabase (authority : Authority) : Accounts [] (createDatabase authority) := by
  refine ⟨⟨fun s => ?_, fun s i h => (by cases h)⟩, ⟨rfl, rfl, rfl, rfl, rfl, rfl, rfl⟩, fun e h => (by cases h), rfl⟩
  simp [createDatabase, Dict.keys_empty]

theorem Applied.accounts (ha : Applied sha256 call file source index batchId batch g rollup next)
    (hc : Chained sha256 index) (hsound : Sound index) (hcovered : ∀ e ∈ es, e.Covered) (he : file.database.Covered)
    (h : Accounts es index) : Accounts (es ++ [file.database]) next := by
  have hids : next.signature.values.Nodup := ha.staged.signature_eq ▸ nodup_insertSignatures hsound.ids
  have hnext := ha.sound hc hsound
  have hstates := ha.statesOf hsound hcovered he h.states
  have htotals := ha.totals_next hc
  have hqueries := ha.staged.total_newQueries (fun k hk => (hsound.foreign.2.1 k hk).1) hids he
  have hinternal : ∀ e ∈ es ++ [file.database],
      total (·.falsePositives) e.hashSummary.values = unitTotal (·.falsePositives) e := by
    intro e hmem
    rcases List.mem_append.mp hmem with hmem | hmem
    · exact h.internal e hmem
    · obtain rfl := List.mem_singleton.mp hmem
      exact ha.internal_eq hsound
  refine ⟨hstates, ?_, hinternal, by simp [ha.corpusGeneration, h.count]⟩
  have hfalse : next.totals.falsePositives = total (unitTotal (·.falsePositives)) (es ++ [file.database]) +
      total (crossPairs (es ++ [file.database])) (signaturesOf (es ++ [file.database])) := by
    rw [← hnext.cached, hstates.total_cumulative hnext, total_add, total_comm]
    refine congrArg (· + _) (total_congr fun e hmem => ?_)
    rw [total_internalOf hmem, hinternal e hmem]
  refine ⟨?_, ?_, ?_, ?_, hfalse, ?_, ?_⟩
  · rw [htotals, ha.totals, cumulate, h.totals.owners, total_concat, ownerTotal]
  · have hlength := hstates.perm_keys.length_eq
    rw [Dict.keys, List.length_map] at hlength
    rw [htotals, ha.totals, cumulate, hlength]
  · rw [htotals, ha.totals, cumulate, h.totals.queries, total_concat, hqueries]
  · rw [htotals, ha.totals, cumulate, h.totals.truePositives, total_concat, unitTotal]
  · have hpopulation := h.totals.population
    rw [htotals, ha.totals, crossSum_concat, total_concat, total_concat]
    simp only [cumulate, hqueries, h.totals.owners, h.totals.queries, unitTotal, ownerTotal] at hpopulation ⊢
    linear_combination hpopulation
  · rw [htotals, ha.totals, cumulate, h.totals.falseNegatives, total_concat, unitTotal]

end totals

section sequence

variable {sha256 : GenerationPayload → String}

theorem Ingests.accounts {es : List Evidence} {published : Published} (h : Ingests sha256 es published)
    (hcovered : ∀ e ∈ es, e.Covered) :
    ∀ call index, Opened call published index → Chained sha256 index ∧ Sound index ∧ Accounts es index := by
  induction h with
  | nil =>
    rintro call index (h | ⟨-, rfl⟩)
    · cases h
    · exact ⟨chained_createDatabase _, sound_createDatabase _, accounts_createDatabase _⟩
  | @concat es published published' h call file r hcall hstate ih =>
    have hcases := update_ingestion sha256 call (some file) published
    rw [hcall] at hcases
    rintro call' index hopened'
    cases hcases with
    | repeated => exact absurd hstate (by simp)
    | ingested hopened hfile _ _ ha =>
      obtain rfl := Option.some.inj hfile
      obtain ⟨hc, hs, haccounts⟩ := ih (fun e he => hcovered e (by simp [he])) call _ hopened
      rcases hopened' with h | ⟨h, -⟩
      · obtain rfl := Published.database.inj h
        exact ⟨ha.chained hc, ha.sound hc hs,
          ha.accounts hc hs (fun e he => hcovered e (by simp [he])) (hcovered _ (by simp)) haccounts⟩
      · cases h

theorem Ingests.reachable {es : List Evidence} {published : Published} (h : Ingests sha256 es published) :
    Reachable sha256 published := by
  induction h with
  | nil => exact .absent
  | concat _ call file hcall _ ih =>
    have hreach := ih.update call (some file)
    rwa [hcall] at hreach

theorem Ingests.eq_nil {es : List Evidence} (h : Ingests sha256 es .absent) : es = [] := by
  generalize hp : Published.absent = published at h
  cases h with
  | nil => rfl
  | @concat es published _ h call file r hcall hstate =>
    have hcases := update_ingestion sha256 call (some file) published
    rw [hcall, ← hp] at hcases
    cases hcases with
    | repeated => exact absurd hstate (by simp)

end sequence

end FidbPoc.Corpus
