import FidbPoc.Lanes.Compaction
import FidbPoc.Lanes.Preservation

namespace FidbPoc.Lanes

open FidbPoc.Lib FidbPoc.Lib.Checked

section Tables

variable {ν : Type} {table : Dict Nat ν}

theorem ordered_perm (table : Dict Nat ν) : (ordered table).Perm table.entries := List.mergeSort_perm ..

theorem mem_ordered {e : Nat × ν} : e ∈ ordered table ↔ e ∈ table.entries := (ordered_perm table).mem_iff

theorem nodup_ordered (table : Dict Nat ν) : ((ordered table).map Prod.fst).Nodup :=
  ((ordered_perm table).map Prod.fst).nodup_iff.mpr table.nodup

end Tables

section Inserts

variable {signatures table : Dict Nat Signature} {rows : List Signature}

/-- New signatures are listed behind the old ones. -/
theorem insertSignatures_total (hrows : rows.Nodup) (hfresh : ∀ row ∈ rows, row ∉ table.values) :
    ∃ table', rows.foldlM insertSignature table = .ok table' ∧ table'.values = table.values ++ rows := by
  induction rows generalizing table with
  | nil => exact ⟨table, rfl, by simp⟩
  | cons row rows ih =>
    obtain ⟨hrow, hrows⟩ := List.nodup_cons.mp hrows
    obtain ⟨hnew, hfresh⟩ := List.forall_mem_cons.mp hfresh
    have hinsert : insertSignature table row = .ok (table.set (nextRowid table) row) := by
      simp only [insertSignature, bind_eq_ok, require_eq_ok, pure_eq_ok]
      exact ⟨(), hnew, trivial⟩
    obtain ⟨table', htable', hvalues⟩ := ih hrows fun row' hrow' hmem => by
      rw [values_append, List.mem_append, List.mem_singleton] at hmem
      obtain hmem | rfl := hmem
      · exact hfresh row' hrow' hmem
      · exact hrow hrow'
    refine ⟨table', ?_, ?_⟩
    · rw [List.foldlM_cons, hinsert, ok_bind, htable']
    · rw [hvalues, values_append, List.append_assoc, List.singleton_append]

end Inserts

section Tables

variable {raw : RawLane} {signatures : Dict Nat Signature} {occurrences : Dict Nat SignatureOccurrence}

/-- The signatures of the observations, each once. -/
structure Signed (raw : RawLane) (signatures : Dict Nat Signature) : Prop where
  nodup : signatures.values.Nodup
  mem_values : ∀ signature, signature ∈ signatures.values ↔ ∃ row ∈ raw.observations.values, row.signature = signature
  count : signatures.keys.length = (raw.observations.values.map Observation.signature).dedup.length

theorem signatures_total (raw : RawLane) :
    ∃ signatures, (distinctSignatures raw).foldlM insertSignature Dict.empty = .ok signatures ∧ Signed raw signatures := by
  have hperm : (distinctSignatures raw).Perm (raw.observations.values.map Observation.signature).dedup :=
    List.mergeSort_perm ..
  have hnodup : (distinctSignatures raw).Nodup := hperm.nodup_iff.mpr (List.nodup_dedup _)
  have hfresh : ∀ row ∈ distinctSignatures raw, row ∉ (Dict.empty : Dict Nat Signature).values := by simp
  obtain ⟨signatures, hsignatures, hvalues⟩ := insertSignatures_total hnodup hfresh
  have hvalues : signatures.values = distinctSignatures raw := hvalues
  refine ⟨signatures, hsignatures, ?_, ?_, ?_⟩
  · rw [hvalues]
    exact hnodup
  · intro signature
    rw [hvalues, hperm.mem_iff, List.mem_dedup, List.mem_map]
  · have hlength : signatures.keys.length = signatures.values.length := by simp [Dict.keys, Dict.values]
    rw [hlength, hvalues, hperm.length_eq]

/-- Every observation is joined with exactly one signature. -/
theorem Signed.exists_signature (h : Signed raw signatures) {row : Nat × Observation} (hrow : row ∈ raw.observations.entries) :
    ∃ id, signatures.get? id = some row.2.signature ∧
      (signatures.entries.filter fun signature => signature.2 = row.2.signature) = [(id, row.2.signature)] := by
  have hmem : row.2.signature ∈ signatures.values :=
    (h.mem_values _).mpr ⟨row.2, List.mem_map_of_mem hrow, rfl⟩
  obtain ⟨id, hid⟩ := Dict.mem_values.mp hmem
  exact ⟨id, hid, Table.filter_key h.nodup (Dict.get?_eq_some_iff.mp hid)⟩

/-- The occurrence of an observation, and what it is joined with. -/
theorem Signed.joinSignatures_eq (h : Signed raw signatures) {row : Nat × Observation} (hrow : row ∈ ordered raw.observations) :
    ∃ id, signatures.get? id = some row.2.signature ∧
      joinSignatures signatures row = [splitObservation row (id, row.2.signature)] := by
  obtain ⟨id, hid, hfilter⟩ := h.exists_signature (mem_ordered.mp hrow)
  refine ⟨id, hid, ?_⟩
  rw [joinSignatures, hfilter]
  rfl

theorem Signed.keys_joinSignatures (h : Signed raw signatures) :
    ((ordered raw.observations).flatMap (joinSignatures signatures)).map Prod.fst = (ordered raw.observations).map Prod.fst := by
  have hrow : ∀ row ∈ ordered raw.observations, (joinSignatures signatures row).map Prod.fst = [row.1] := by
    intro row hrow
    obtain ⟨id, -, hjoin⟩ := h.joinSignatures_eq hrow
    rw [hjoin]
    rfl
  rw [List.map_flatMap, List.flatMap_congr hrow, ← List.map_eq_flatMap]

theorem Signed.mem_joinSignatures {row : Nat × SignatureOccurrence}
    (hrow : row ∈ (ordered raw.observations).flatMap (joinSignatures signatures)) : row.2.signatureId ∈ signatures.keys := by
  obtain ⟨observation, -, hrow⟩ := List.mem_flatMap.mp hrow
  obtain ⟨signature, hsignature, rfl⟩ := List.mem_map.mp hrow
  exact Dict.mem_keys_of_mem (List.mem_filter.mp hsignature).1

/-- Joining the occurrences with their signatures gives the observations back. -/
theorem Signed.joinedObservations_eq (h : Signed raw signatures)
    (hoccurrences : occurrences.entries = (ordered raw.observations).flatMap (joinSignatures signatures)) :
    joinedObservations signatures occurrences = ordered raw.observations := by
  have hrow : ∀ row ∈ ordered raw.observations,
      (joinSignatures signatures row).flatMap (fun occurrence =>
        (signatures.entries.filter fun signature => signature.1 = occurrence.2.signatureId).map
          (rebuildObservation occurrence)) = [row] := by
    intro row hrow
    obtain ⟨id, hid, hjoin⟩ := h.joinSignatures_eq hrow
    have hkey : (signatures.entries.filter fun signature => signature.1 = id) = [(id, row.2.signature)] :=
      Table.filter_key signatures.nodup (Dict.get?_eq_some_iff.mp hid)
    rw [hjoin, List.flatMap_singleton, splitObservation, hkey]
    rfl
  rw [joinedObservations, hoccurrences, List.flatMap_assoc, List.flatMap_congr hrow, ← List.map_eq_flatMap, List.map_id']

end Tables

/-- What a compact database keeps of a raw one. -/
structure Lossless (raw : RawLane) (db : Compact) : Prop where
  observations : (joinedObservations db.signatures db.occurrences).Perm raw.observations.entries
  signatures_nodup : db.signatures.values.Nodup
  signatures : ∀ signature, signature ∈ db.signatures.values ↔ ∃ row ∈ raw.observations.values, row.signature = signature
  relationships : db.relationships.entries.Perm raw.relationships.entries
  admissions : db.admissions.keys.Perm db.signatures.keys
  rawObservations : db.generation.rawObservations = db.occurrences.keys.length
  uniqueSignatures : db.generation.uniqueSignatures = db.signatures.keys.length
  repeatedObservations : db.generation.rawObservations = db.generation.uniqueSignatures + db.generation.repeatedObservations
  preview : previewCompaction raw = ⟨db.generation.sourceGenerationId, raw.generation.laneId, raw.generation.evidenceKind,
    db.generation.rawObservations, db.generation.uniqueSignatures, db.generation.repeatedObservations⟩

section Transaction

variable {raw : RawLane} {signatures : Dict Nat Signature} {occurrences : Dict Nat SignatureOccurrence}

theorem occurrences_total (h : Signed raw signatures) :
    ∃ occurrences, ((ordered raw.observations).flatMap (joinSignatures signatures)).foldlM (insertOccurrence signatures)
        Dict.empty = .ok occurrences ∧
      occurrences.entries = (ordered raw.observations).flatMap (joinSignatures signatures) := by
  apply Dict.foldlM_set
  · rw [h.keys_joinSignatures]
    exact nodup_ordered raw.observations
  · intro before row after table hrows _ hnew
    have hrow : row ∈ (ordered raw.observations).flatMap (joinSignatures signatures) := by simp [hrows]
    simp only [insertOccurrence, bind_eq_ok, require_eq_ok, Dict.insertRow_eq_ok]
    exact ⟨(), Signed.mem_joinSignatures hrow, hnew, trivial⟩

theorem relationships_total (raw : RawLane) (hkeys : ∀ id ∈ raw.observations.keys, id ∈ occurrences.keys) :
    ∃ relationships, (ordered raw.relationships).foldlM (insertRelationship occurrences) Dict.empty = .ok relationships ∧
      relationships.entries = ordered raw.relationships := by
  apply Dict.foldlM_set
  · exact nodup_ordered raw.relationships
  · intro before row after table hrows hentries hnew
    have hperm : (before ++ row :: after).Perm raw.relationships.entries := hrows ▸ ordered_perm raw.relationships
    have hnodup : ((before ++ row :: after).map Prod.snd).Nodup := (hperm.map Prod.snd).nodup_iff.mpr raw.distinct
    have hrow : row.2 ∈ raw.relationships.values := List.mem_map_of_mem (hperm.mem_iff.mp (by simp))
    obtain ⟨hsource, htarget⟩ := raw.related row.2 hrow
    have hvalues : table.values = before.map Prod.snd := congrArg (List.map Prod.snd) hentries
    have hfresh : row.2 ∉ table.values := by
      rw [List.map_append, List.map_cons, List.nodup_append] at hnodup
      intro hmem
      exact hnodup.2.2 row.2 (hvalues ▸ hmem) row.2 List.mem_cons_self rfl
    simp only [insertRelationship, bind_eq_ok, require_eq_ok, Dict.insertRow_eq_ok]
    exact ⟨(), hfresh, (), ⟨hkeys _ hsource, hkeys _ htarget⟩, hnew, trivial⟩

theorem admissions_total (signatures : Dict Nat Signature) :
    ∃ admissions, Dict.insertRows (uniqueFailed "admission_decision.signature_id") Dict.empty (admissionRows signatures) =
        .ok admissions ∧ admissions.keys.Perm signatures.keys := by
  have hkeys : (admissionRows signatures).map Prod.fst = (ordered signatures).map Prod.fst := by
    rw [admissionRows, List.map_map]
    rfl
  have hnodup : ((admissionRows signatures).map Prod.fst).Nodup := hkeys ▸ nodup_ordered signatures
  have hfresh : ∀ row ∈ admissionRows signatures, row.1 ∉ (Dict.empty : Dict Nat Admission).keys := by simp [Dict.keys_empty]
  obtain ⟨admissions, hadmissions⟩ := Dict.insertRows_total (uniqueFailed "admission_decision.signature_id") hnodup hfresh
  refine ⟨admissions, hadmissions, ?_⟩
  rw [Dict.keys_of_insertRows hadmissions, Dict.keys_empty, List.nil_append, hkeys]
  exact (ordered_perm signatures).map Prod.fst

theorem mismatches_eq_zero (hjoined : joinedObservations signatures occurrences = ordered raw.observations) :
    mismatches raw signatures occurrences = 0 := by
  unfold mismatches
  rw [hjoined, List.length_eq_zero_iff, List.flatMap_eq_nil_iff]
  intro observation hobservation
  rw [List.filter_eq_nil_iff]
  intro joined hmem hdiffers
  simp only [decide_eq_true_eq] at hdiffers
  have hsame : joined = observation := Table.key_injective (nodup_ordered raw.observations) hmem hobservation hdiffers.1
  exact hdiffers.2 (congrArg (fun row : Nat × Observation => row.2.signature) hsame)

/-- The transaction always commits, and its tables lose nothing. -/
theorem compactTables_total (request : CompactionRequest) (raw : RawLane) (sourceDigest : Digest) :
    ∃ db, compactTables request raw sourceDigest = .ok db ∧ Lossless raw db := by
  obtain ⟨signatures, hsignatures, hsigned⟩ := signatures_total raw
  obtain ⟨occurrences, hoccurrences, hentries⟩ := occurrences_total hsigned
  have hjoined := hsigned.joinedObservations_eq hentries
  have hkeys : occurrences.keys = (ordered raw.observations).map Prod.fst := by
    rw [← hsigned.keys_joinSignatures, ← hentries]
    rfl
  have hkeysPerm : occurrences.keys.Perm raw.observations.keys := hkeys ▸ (ordered_perm raw.observations).map Prod.fst
  obtain ⟨relationships, hrelationships, hrelated⟩ :=
    relationships_total raw fun id hid => hkeysPerm.mem_iff.mpr hid
  obtain ⟨admissions, hadmissions, hadmitted⟩ := admissions_total signatures
  have hcount : occurrences.keys.length = (previewCompaction raw).rawObservations := hkeysPerm.length_eq
  refine ⟨⟨compactGeneration request raw sourceDigest, raw.policies, raw.sublanes, raw.families, raw.releases, raw.builds,
    signatures, occurrences, relationships, admissions⟩, ?_, ?_⟩
  · simp only [compactTables, bind_eq_ok, require_eq_ok, pure_eq_ok]
    exact ⟨signatures, hsignatures, occurrences, hoccurrences, relationships, hrelationships, admissions, hadmissions, (),
      hcount, (), mismatches_eq_zero hjoined, rfl⟩
  · have hunique : (raw.observations.values.map Observation.signature).dedup.length ≤ raw.observations.keys.length := by
      have hlength := (List.dedup_sublist (raw.observations.values.map Observation.signature)).length_le
      simpa [Dict.values, Dict.keys] using hlength
    refine ⟨?_, hsigned.nodup, hsigned.mem_values, ?_, ?_, hcount.symm, hsigned.count.symm, ?_, rfl⟩
    · rw [hjoined]
      exact ordered_perm raw.observations
    · rw [hrelated]
      exact ordered_perm raw.relationships
    · exact hadmitted
    · exact (Nat.add_sub_cancel' hunique).symm

end Transaction

section Files

variable (sha256 : RawLane → Digest) (request : CompactionRequest) (others : LaneFiles → LaneFiles) (files : LaneFiles)

end Files

end FidbPoc.Lanes
