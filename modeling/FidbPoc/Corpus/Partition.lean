import FidbPoc.Corpus.Folds

namespace FidbPoc.Corpus

open FidbPoc.Lib FidbPoc.Lib.Checked FidbPoc.Lib.Sums

/-- A signature of a reference with its owner. -/
def ReferenceRow.pair (r : ReferenceRow) : Identity × String := (r.identity, r.owner)

def MatchRow.pair (m : MatchRow) : Identity × String := (m.query.1, m.reference.owner)

/-- A finer column of a list has no repetition where a coarser one has none. -/
theorem nodup_map_of_imp {α β γ : Type} {f : α → β} {g : α → γ} {xs : List α} (hg : ∀ x y, g x = g y → f x = f y)
    (h : (xs.map f).Nodup) : (xs.map g).Nodup :=
  List.pairwise_map.mpr ((List.pairwise_map.mp h).imp fun hne heq => hne (hg _ _ heq))

/-- The signatures of the reference table with their present owners. -/
def presentReferences (db : ReferenceDatabase) (call : FoldCall) : List (Identity × String) :=
  (((referenceRows db call).map ReferenceRow.pair).filter fun p => p.2 ∈ call.present).dedup

section joins

/-- A reference table lists a signature once for an owner. -/
theorem nodup_referenceRows (db : ReferenceDatabase) (call : FoldCall) :
    ((referenceRows db call).map ReferenceRow.pair).Nodup := by
  unfold referenceRows
  split
  · have hkeys := db.unitReference.nodup_keys
    rw [List.map_map]
    exact hkeys
  · rw [List.map_map]
    refine List.Nodup.map_on ?_ (db.referenceIdentity.nodup_keys.of_map.filter _)
    intro row hrow row' hrow' heq
    have hcolumns := of_decide_eq_true (List.mem_filter.mp hrow).2
    have hcolumns' := of_decide_eq_true (List.mem_filter.mp hrow').2
    simp only [Function.comp_apply, ReferenceRow.pair, Prod.mk.injEq] at heq
    have hkey : row.1 = row'.1 := by
      obtain ⟨⟨_, _, _, _, _, _⟩, _⟩ := row
      obtain ⟨⟨_, _, _, _, _, _⟩, _⟩ := row'
      simp_all
    exact List.inj_on_of_nodup_map db.referenceIdentity.nodup_keys (List.mem_filter.mp hrow).1 (List.mem_filter.mp hrow').1 hkey

variable {query : Query} {references : List ReferenceRow} {foldOwner : Dict String Bool}

theorem mem_matchRows {m : MatchRow} :
    m ∈ matchRows query references foldOwner ↔
      m.query ∈ query.entries ∧ m.reference ∈ references ∧ m.reference.identity = m.query.1 ∧
        foldOwner.get? m.reference.owner = some m.isPresent := by
  simp only [matchRows, List.mem_flatMap, List.mem_filterMap, List.mem_filter, decide_eq_true_eq, Option.map_eq_some_iff]
  constructor
  · rintro ⟨q, hq, r, ⟨hr, hidentity⟩, isPresent, howner, rfl⟩
    exact ⟨hq, hr, hidentity, howner⟩
  · rintro ⟨hq, hr, hidentity, howner⟩
    exact ⟨_, hq, _, ⟨hr, hidentity⟩, _, howner, rfl⟩

/-- The pairs that one query signature is joined with. -/
theorem pairs_joined (q : Identity × QueryFunction) (rs : List ReferenceRow) :
    ((rs.filter fun r => r.identity = q.1).filterMap fun r =>
        (foldOwner.get? r.owner).map fun isPresent => (⟨q, r, isPresent⟩ : MatchRow)).map MatchRow.pair =
      (rs.filter fun r => r.identity = q.1 ∧ (foldOwner.get? r.owner).isSome).map ReferenceRow.pair := by
  induction rs with
  | nil => rfl
  | cons r rs ih =>
    by_cases hr : r.identity = q.1
    · cases howner : foldOwner.get? r.owner with
      | none => simpa [hr, howner] using ih
      | some isPresent => simpa [hr, howner, MatchRow.pair, ReferenceRow.pair] using ih
    · simpa [hr] using ih

/-- A join lists a query signature once for an owner. -/
theorem nodup_matchRows (h : (references.map ReferenceRow.pair).Nodup) :
    ((matchRows query references foldOwner).map MatchRow.pair).Nodup := by
  rw [matchRows, List.map_flatMap]
  refine List.nodup_flatMap.mpr ⟨fun q _ => ?_, ?_⟩
  · rw [pairs_joined]
    exact h.sublist (List.filter_sublist.map _)
  · refine (List.pairwise_map.mp query.nodup_keys).imp ?_
    intro q q' hne p hp hp'
    simp only [List.mem_map, List.mem_filterMap, Option.map_eq_some_iff] at hp hp'
    obtain ⟨m, ⟨_, _, _, _, rfl⟩, rfl⟩ := hp
    obtain ⟨m', ⟨_, _, _, _, rfl⟩, heq⟩ := hp'
    exact hne (congrArg Prod.fst heq).symm

end joins

theorem OwnersOf.get?_eq_some {call : FoldCall} {foldOwner : Dict String Bool} (h : OwnersOf call foldOwner) {o : String}
    {isPresent : Bool} :
    foldOwner.get? o = some isPresent ↔ o ∈ call.cohort ∧ decide (o ∈ call.present) = isPresent := by
  rw [h.get?]
  split
  · rename_i ho
    simp [ho]
  · rename_i ho
    simp [ho]

namespace Fold

variable {fold : Fold} {p : Identity × String}

theorem nodup_references : (fold.references.map ReferenceRow.pair).Nodup := nodup_referenceRows _ _

theorem nodup_joined : (fold.joined.map MatchRow.pair).Nodup := nodup_matchRows nodup_references

theorem mem_joined (fold : Fold) (p : Identity × String) (isPresent : Bool) :
    (∃ m ∈ fold.joined, m.isPresent = isPresent ∧ m.pair = p) ↔
      p.1 ∈ fold.query.keys ∧ p ∈ fold.references.map ReferenceRow.pair ∧ p.2 ∈ fold.call.cohort ∧
        decide (p.2 ∈ fold.call.present) = isPresent := by
  constructor
  · rintro ⟨m, hm, rfl, rfl⟩
    obtain ⟨hquery, hreference, hidentity, howner⟩ := mem_matchRows.mp hm
    refine ⟨Dict.mem_keys_of_mem hquery, List.mem_map.mpr ⟨_, hreference, ?_⟩, fold.owners.get?_eq_some.mp howner⟩
    rw [ReferenceRow.pair, MatchRow.pair, hidentity]
  · rintro ⟨hquery, hreference, howner⟩
    obtain ⟨q, hq, hkey⟩ := List.mem_map.mp hquery
    obtain ⟨r, hr, rfl⟩ := List.mem_map.mp hreference
    refine ⟨⟨q, r, isPresent⟩, mem_matchRows.mpr ⟨hq, hr, hkey.symm, fold.owners.get?_eq_some.mpr howner⟩, rfl, ?_⟩
    exact Prod.ext hkey rfl

theorem mem_hits : p ∈ fold.hits.map MatchRow.pair ↔ p.1 ∈ fold.query.keys ∧
    p ∈ fold.references.map ReferenceRow.pair ∧ p.2 ∈ fold.call.cohort ∧ p.2 ∈ fold.call.present := by
  have h := mem_joined fold p true
  rw [decide_eq_true_eq] at h
  rw [← h]
  simp [hits, and_assoc]

theorem mem_falseHits : p ∈ fold.falseHits.map MatchRow.pair ↔ p.1 ∈ fold.query.keys ∧
    p ∈ fold.references.map ReferenceRow.pair ∧ p.2 ∈ fold.call.cohort ∧ p.2 ∉ fold.call.present := by
  have h := mem_joined fold p false
  rw [decide_eq_false_iff_not] at h
  rw [← h]
  simp [falseHits, and_assoc]

theorem mem_misses : p ∈ fold.misses.map ReferenceRow.pair ↔ p.1 ∉ fold.query.keys ∧
    p ∈ fold.references.map ReferenceRow.pair ∧ p.2 ∈ fold.call.cohort ∧ p.2 ∈ fold.call.present := by
  simp only [misses, missRows, List.mem_map, List.mem_filter, decide_eq_true_eq, fold.owners.get?_eq_some,
    Dict.get?_eq_none_iff]
  constructor
  · rintro ⟨r, ⟨hr, howner, hquery⟩, rfl⟩
    exact ⟨hquery, ⟨r, hr, rfl⟩, howner⟩
  · rintro ⟨hquery, ⟨r, hr, rfl⟩, howner⟩
    exact ⟨r, ⟨hr, howner, hquery⟩, rfl⟩

theorem nodup_hits : (fold.hits.map MatchRow.pair).Nodup := nodup_joined.sublist (List.filter_sublist.map _)

theorem nodup_falseHits : (fold.falseHits.map MatchRow.pair).Nodup := nodup_joined.sublist (List.filter_sublist.map _)

theorem nodup_misses : (fold.misses.map ReferenceRow.pair).Nodup := nodup_references.sublist (List.filter_sublist.map _)

/-- Hits and misses share out the references of the present owners. -/
theorem hits_add_misses (hpresent : fold.call.present ⊆ fold.call.cohort) :
    fold.hits.length + fold.misses.length = (presentReferences fold.db fold.call).length := by
  have hdisjoint : (fold.hits.map MatchRow.pair ++ fold.misses.map ReferenceRow.pair).Nodup := by
    refine List.nodup_append.mpr ⟨nodup_hits, nodup_misses, ?_⟩
    rintro p hp p' hp' rfl
    exact (mem_misses.mp hp').1 (mem_hits.mp hp).1
  have hperm : (fold.hits.map MatchRow.pair ++ fold.misses.map ReferenceRow.pair).Perm
      (presentReferences fold.db fold.call) := by
    refine (List.perm_ext_iff_of_nodup hdisjoint (List.nodup_dedup _)).mpr fun p => ?_
    rw [List.mem_append, mem_hits, mem_misses, List.mem_dedup, List.mem_filter, decide_eq_true_eq]
    constructor
    · rintro (⟨-, hreference, -, ho⟩ | ⟨-, hreference, -, ho⟩)
      · exact ⟨hreference, ho⟩
      · exact ⟨hreference, ho⟩
    · rintro ⟨hreference, ho⟩
      by_cases hquery : p.1 ∈ fold.query.keys
      · exact .inl ⟨hquery, hreference, hpresent ho, ho⟩
      · exact .inr ⟨hquery, hreference, hpresent ho, ho⟩
  simpa using hperm.length_eq

/-- No more false positives than query signatures times absent owners. -/
theorem falseHits_le : fold.falseHits.length ≤ fold.query.entries.length * fold.call.absent.length := by
  have hsub : fold.falseHits.map MatchRow.pair ⊆ fold.query.keys ×ˢ fold.call.absent := by
    intro p hp
    obtain ⟨hquery, -, hcohort, habsent⟩ := mem_falseHits.mp hp
    refine List.mem_product.mpr ⟨hquery, List.mem_filter.mpr ⟨List.mem_dedup.mpr hcohort, ?_⟩⟩
    simpa using habsent
  have hlength := (List.subperm_of_subset nodup_falseHits hsub).length_le
  rw [List.length_product, List.length_map, Dict.keys, List.length_map] at hlength
  exact hlength

theorem trueNegatives_nonneg : 0 ≤ fold.trueNegatives :=
  sub_nonneg.mpr (by exact_mod_cast fold.falseHits_le)

end Fold

section keys

/-- The key of an observation of a signature and an owner. -/
def FoldCall.key (call : FoldCall) (o : Outcome) (p : Identity × String) : ObservationKey :=
  ⟨call.signature p.1, o, p.2, call.unit⟩

theorem FoldCall.signature_injective (call : FoldCall) : Function.Injective call.signature := by
  rintro ⟨_, _, _, _, _⟩ ⟨_, _, _, _, _⟩ h
  simp only [signature, Signature.mk.injEq] at h
  obtain ⟨-, rfl, rfl, rfl, rfl, rfl⟩ := h
  rfl

theorem FoldCall.key_inj {call : FoldCall} {o o' : Outcome} {p p' : Identity × String} (h : call.key o p = call.key o' p') :
    o = o' ∧ p = p' := by
  obtain ⟨hsignature, ho, howner, -⟩ := ObservationKey.mk.inj h
  exact ⟨ho, Prod.ext (call.signature_injective hsignature) howner⟩

namespace Fold

variable {fold : Fold}

theorem keys_rows : fold.rows.map Prod.fst =
    fold.joined.map (fun m => fold.call.key (if m.isPresent then .tp else .fp) m.pair) ++
      fold.uncovered.map (fun q => fold.call.key .unattributed (q.1, "")) ++
      fold.misses.map (fun r => fold.call.key .fn r.pair) := by
  simp only [rows, List.map_append, List.map_map]
  rfl

theorem nodup_rows : (fold.rows.map Prod.fst).Nodup := by
  have hjoined : (fold.joined.map fun m => fold.call.key (if m.isPresent then .tp else .fp) m.pair).Nodup :=
    nodup_map_of_imp (fun _ _ h => (FoldCall.key_inj h).2) nodup_joined
  have huncovered : (fold.uncovered.map fun q => fold.call.key .unattributed (q.1, "")).Nodup :=
    nodup_map_of_imp (f := Prod.fst) (fun _ _ h => congrArg (fun p => p.1) (FoldCall.key_inj h).2)
      (fold.query.nodup_keys.sublist (List.filter_sublist.map _))
  have hmisses : (fold.misses.map fun r => fold.call.key .fn r.pair).Nodup :=
    nodup_map_of_imp (fun _ _ h => (FoldCall.key_inj h).2) nodup_misses
  rw [keys_rows]
  refine List.nodup_append.mpr ⟨List.nodup_append.mpr ⟨hjoined, huncovered, ?_⟩, hmisses, ?_⟩
  · intro k hk k' hk' heq
    obtain ⟨m, -, rfl⟩ := List.mem_map.mp hk
    obtain ⟨q, -, rfl⟩ := List.mem_map.mp hk'
    have ho := (FoldCall.key_inj heq).1
    split at ho <;> cases ho
  · intro k hk k' hk' heq
    obtain ⟨r, -, rfl⟩ := List.mem_map.mp hk'
    rcases List.mem_append.mp hk with hk | hk
    · obtain ⟨m, -, rfl⟩ := List.mem_map.mp hk
      have ho := (FoldCall.key_inj heq).1
      split at ho <;> cases ho
    · obtain ⟨q, -, rfl⟩ := List.mem_map.mp hk
      cases (FoldCall.key_inj heq).1

/-- The pairs that the fold observes with an outcome. -/
def pairs (fold : Fold) : Outcome → List (Identity × String)
  | .tp => fold.hits.map MatchRow.pair
  | .fp => fold.falseHits.map MatchRow.pair
  | .unattributed => fold.uncovered.map fun q => (q.1, "")
  | .fn => fold.misses.map ReferenceRow.pair

theorem mem_keys_rows {k : ObservationKey} :
    k ∈ fold.rows.map Prod.fst ↔ ∃ o, ∃ p ∈ fold.pairs o, fold.call.key o p = k := by
  rw [keys_rows]
  constructor
  · intro hk
    rcases List.mem_append.mp hk with hk | hk
    · rcases List.mem_append.mp hk with hk | hk
      · obtain ⟨m, hm, rfl⟩ := List.mem_map.mp hk
        cases hpresent : m.isPresent with
        | true => exact ⟨.tp, _, List.mem_map_of_mem (List.mem_filter.mpr ⟨hm, hpresent⟩), rfl⟩
        | false => exact ⟨.fp, _, List.mem_map_of_mem (List.mem_filter.mpr ⟨hm, by simp [hpresent]⟩), rfl⟩
      · obtain ⟨q, hq, rfl⟩ := List.mem_map.mp hk
        exact ⟨.unattributed, _, List.mem_map_of_mem hq, rfl⟩
    · obtain ⟨r, hr, rfl⟩ := List.mem_map.mp hk
      exact ⟨.fn, _, List.mem_map_of_mem hr, rfl⟩
  · rintro ⟨o, p, hp, rfl⟩
    cases o with
    | tp =>
      obtain ⟨m, hm, rfl⟩ := List.mem_map.mp hp
      obtain ⟨hm, hpresent⟩ := List.mem_filter.mp hm
      exact List.mem_append_left _ (List.mem_append_left _ (List.mem_map.mpr ⟨m, hm, by rw [if_pos hpresent]⟩))
    | fp =>
      obtain ⟨m, hm, rfl⟩ := List.mem_map.mp hp
      obtain ⟨hm, habsent⟩ := List.mem_filter.mp hm
      refine List.mem_append_left _ (List.mem_append_left _ (List.mem_map.mpr ⟨m, hm, ?_⟩))
      rw [if_neg (by simpa using habsent)]
    | unattributed =>
      obtain ⟨q, hq, rfl⟩ := List.mem_map.mp hp
      exact List.mem_append_left _ (List.mem_append_right _ (List.mem_map.mpr ⟨q, hq, rfl⟩))
    | fn =>
      obtain ⟨r, hr, rfl⟩ := List.mem_map.mp hp
      exact List.mem_append_right _ (List.mem_map.mpr ⟨r, hr, rfl⟩)

theorem key_mem_keys_rows {o : Outcome} {p : Identity × String} :
    fold.call.key o p ∈ fold.rows.map Prod.fst ↔ p ∈ fold.pairs o := by
  rw [mem_keys_rows]
  constructor
  · rintro ⟨o', p', hp, heq⟩
    obtain ⟨rfl, rfl⟩ := FoldCall.key_inj heq
    exact hp
  · exact fun hp => ⟨o, p, hp, rfl⟩

theorem nodup_pairs (o : Outcome) : (fold.pairs o).Nodup := by
  cases o with
  | tp => exact nodup_hits
  | fp => exact nodup_falseHits
  | unattributed =>
    exact nodup_map_of_imp (f := Prod.fst) (fun _ _ h => congrArg (fun p => p.1) h)
      (fold.query.nodup_keys.sublist (List.filter_sublist.map _))
  | fn => exact nodup_misses

/-- The rows of an outcome are its pairs. -/
theorem sumOutcome_rows (o : Outcome) : sumOutcome o fold.rows = (fold.pairs o).length := by
  have hkeys : ((fold.rows.filter (hasOutcome o)).map Prod.fst).Nodup := nodup_rows.sublist (List.filter_sublist.map _)
  have hperm : ((fold.rows.filter (hasOutcome o)).map Prod.fst).Perm ((fold.pairs o).map (fold.call.key o)) := by
    refine (List.perm_ext_iff_of_nodup hkeys
      ((nodup_pairs o).map fun _ _ h => (FoldCall.key_inj h).2)).mpr fun k => ?_
    constructor
    · intro hk
      obtain ⟨row, hrow, rfl⟩ := List.mem_map.mp hk
      obtain ⟨hrow, ho⟩ := List.mem_filter.mp hrow
      obtain ⟨o', p, hp, heq⟩ := mem_keys_rows.mp (List.mem_map_of_mem hrow)
      have ho' : o' = o := by simpa [hasOutcome, ← heq, FoldCall.key] using ho
      exact List.mem_map.mpr ⟨p, ho' ▸ hp, ho' ▸ heq⟩
    · intro hk
      obtain ⟨p, hp, rfl⟩ := List.mem_map.mp hk
      obtain ⟨row, hrow, heq⟩ := List.mem_map.mp (key_mem_keys_rows.mpr hp)
      exact List.mem_map.mpr ⟨row, List.mem_filter.mpr ⟨hrow, by simp [hasOutcome, heq, FoldCall.key]⟩, heq⟩
  have hlength := hperm.length_eq
  rw [List.length_map, List.length_map] at hlength
  rw [sumOutcome, ← length_filter_eq_total, hlength]

end Fold

end keys

section partition

/-- The rows of a fold for a query signature with an outcome. -/
def FoldCall.rowsOf (call : FoldCall) (e : Evidence) (i : Identity) (o : Outcome) : List ObservationKey :=
  e.hashObservation.keys.filter fun k => k.signature = call.signature i ∧ k.outcome = o ∧ k.unit = call.unit

/-- The fold has not been classified before. -/
def FoldCall.Fresh (call : FoldCall) (output : Evidence) : Prop := ∀ k ∈ output.hashObservation.keys, k.unit ≠ call.unit

/-- The counters and the rows of a fold share out its references and its query. -/
structure Partitioned (db : ReferenceDatabase) (call : FoldCall) (queries : List Identity) (output output' : Evidence)
    (result : FoldResult) : Prop where
  queryCount : result.queryDistinctSignatures = queries.dedup.length
  references : result.truePositives + result.falseNegatives = (presentReferences db call).length
  population : result.falsePositives + result.trueNegatives = queries.dedup.length * call.absent.length
  trueNegatives : 0 ≤ result.trueNegatives
  unattributed : result.unattributedQuerySignatures =
    (queries.dedup.filter fun i => i ∉ (presentReferences db call).map Prod.fst).length
  rows : call.Fresh output → ∀ i ∈ queries,
    1 ≤ (call.rowsOf output' i .tp).length ∧ (call.rowsOf output' i .unattributed).length = 0 ∨
      (call.rowsOf output' i .tp).length = 0 ∧ (call.rowsOf output' i .unattributed).length = 1

namespace Fold

variable {fold : Fold} {output : Evidence}

theorem keys_write (h : fold.call.Fresh output) :
    (fold.write output).hashObservation.keys = output.hashObservation.keys ++ fold.rows.map Prod.fst := by
  have hnodup : (output.hashObservation.keys ++ fold.rows.map Prod.fst).Nodup := by
    refine List.nodup_append.mpr ⟨output.hashObservation.nodup_keys, nodup_rows, ?_⟩
    rintro k hk k' hk' rfl
    obtain ⟨o, p, -, rfl⟩ := mem_keys_rows.mp hk'
    exact h _ hk rfl
  rw [write, Dict.keys, Dict.entries_replaceRows hnodup, List.map_append]
  rfl

/-- A fold writes a row for each of its pairs. -/
theorem length_rowsOf (h : fold.call.Fresh output) (i : Identity) (o : Outcome) :
    (fold.call.rowsOf (fold.write output) i o).length = ((fold.pairs o).map Prod.fst).count i := by
  have hperm : (fold.call.rowsOf (fold.write output) i o).Perm
      (((fold.pairs o).filter fun p => p.1 = i).map (fold.call.key o)) := by
    refine (List.perm_ext_iff_of_nodup ((fold.write output).hashObservation.nodup_keys.filter _)
      (((nodup_pairs o).filter _).map fun _ _ h => (FoldCall.key_inj h).2)).mpr fun k => ?_
    simp only [keys_write h, List.mem_filter, List.mem_append, decide_eq_true_eq]
    constructor
    · rintro ⟨hk | hk, hsignature, rfl, hunit⟩
      · exact absurd hunit (h k hk)
      · obtain ⟨o, p, hp, rfl⟩ := mem_keys_rows.mp hk
        refine List.mem_map_of_mem (List.mem_filter.mpr ⟨hp, ?_⟩)
        exact decide_eq_true (fold.call.signature_injective hsignature)
    · intro hk
      obtain ⟨p, hp, rfl⟩ := List.mem_map.mp hk
      obtain ⟨hp, hi⟩ := List.mem_filter.mp hp
      exact ⟨.inr (key_mem_keys_rows.mpr hp), congrArg fold.call.signature (of_decide_eq_true hi), rfl, rfl⟩
  rw [hperm.length_eq, List.length_map, List.count_eq_length_filter, List.filter_map, List.length_map]
  exact congrArg List.length (List.filter_congr fun p _ => (beq_eq_decide ..).symm)

/-- The unattributed signatures are those of the query without a true positive. -/
theorem pairs_unattributed : (fold.pairs .unattributed).map Prod.fst =
    fold.query.keys.filter fun i => ((fold.pairs .tp).map Prod.fst).count i = 0 := by
  have hhits : (fold.pairs .tp).map Prod.fst = fold.hits.map (·.query.1) := by
    rw [pairs, List.map_map]
    rfl
  rw [hhits, pairs, List.map_map, Dict.keys, List.filter_map]
  refine congrArg (List.map Prod.fst) (List.filter_congr fun q _ => ?_)
  rw [Function.comp_apply, ← decide_not]
  exact decide_eq_decide.mpr List.count_eq_zero.symm

/-- A query signature has a true positive if some present owner references it. -/
theorem mem_presentReferences (hpresent : fold.call.present ⊆ fold.call.cohort) {i : Identity} (hi : i ∈ fold.query.keys) :
    i ∈ (presentReferences fold.db fold.call).map Prod.fst ↔ i ∈ (fold.pairs .tp).map Prod.fst := by
  simp only [List.mem_map, presentReferences, List.mem_dedup, List.mem_filter, decide_eq_true_eq, pairs]
  constructor
  · rintro ⟨p, ⟨hreference, ho⟩, rfl⟩
    exact ⟨p, List.mem_map.mp (mem_hits.mpr ⟨hi, List.mem_map.mpr hreference, hpresent ho, ho⟩), rfl⟩
  · rintro ⟨p, hp, rfl⟩
    obtain ⟨-, hreference, -, ho⟩ := mem_hits.mp (List.mem_map.mpr hp)
    exact ⟨p, ⟨List.mem_map.mp hreference, ho⟩, rfl⟩

theorem partitioned (hpresent : fold.call.present ⊆ fold.call.cohort) {queries : List Identity}
    (hqueries : ∀ i, i ∈ fold.query.keys ↔ i ∈ queries) (output : Evidence) :
    Partitioned fold.db fold.call queries output (fold.write output) fold.result := by
  have hperm : fold.query.keys.Perm queries.dedup :=
    (List.perm_ext_iff_of_nodup fold.query.nodup_keys (List.nodup_dedup _)).mpr fun i => by
      rw [List.mem_dedup, hqueries]
  have hcount : fold.query.entries.length = queries.dedup.length := by
    rw [← hperm.length_eq, Dict.keys, List.length_map]
  refine ⟨congrArg Nat.cast hcount, ?_, ?_, trueNegatives_nonneg, ?_, fun h i hi => ?_⟩
  · exact congrArg Nat.cast (hits_add_misses hpresent)
  · simp only [result, trueNegatives, ← hcount]
    ring
  · have hlength : fold.uncovered.length =
        (fold.query.keys.filter fun i => ((fold.pairs .tp).map Prod.fst).count i = 0).length := by
      rw [← pairs_unattributed, List.length_map, pairs, List.length_map]
    rw [← (hperm.filter _).length_eq, result, hlength]
    refine congrArg (fun is : List Identity => (is.length : ℤ)) (List.filter_congr fun i hi => decide_eq_decide.mpr ?_)
    rw [mem_presentReferences hpresent hi, List.count_eq_zero]
  · have hquery := (hqueries i).mpr hi
    rw [length_rowsOf h, length_rowsOf h, pairs_unattributed, (fold.query.nodup_keys.filter _).count]
    by_cases hcovered : ((fold.pairs .tp).map Prod.fst).count i = 0
    · exact .inr ⟨hcovered, if_pos (List.mem_filter.mpr ⟨hquery, decide_eq_true hcovered⟩)⟩
    · refine .inl ⟨Nat.pos_of_ne_zero hcovered, if_neg fun hk => ?_⟩
      exact hcovered (of_decide_eq_true (List.mem_filter.mp hk).2)

end Fold

end partition

end FidbPoc.Corpus
