import FidbPoc.Corpus.Reconciliation
import Mathlib.Data.List.Sort

namespace FidbPoc.Corpus

open FidbPoc.Lib FidbPoc.Lib.Checked FidbPoc.Lib.Sums

/-- A row of `hash_summary` under its signature. -/
abbrev SummaryRow := Signature × HashSummary

/-- `_signature_text`. -/
def Signature.text (s : Signature) : String := s!"{s.fullHash}:{s.specificHash}:{s.additionalSize}:{s.codeSize}"

/-- The `WHERE` of `_summary_rows`. -/
def isListed (noisy : Bool) (row : SummaryRow) : Bool :=
  if noisy then 0 < row.2.falsePositives
  else 1 < row.2.distinctReferenceOwners || 0 < row.2.unattributedObservations

/-- The columns that `_summary_rows` orders by. -/
def listOrder (noisy : Bool) (row : SummaryRow) : Int × Int × Int :=
  if noisy then (row.2.falsePositives, row.2.distinctReferenceOwners, row.2.truePositives)
  else (row.2.distinctReferenceOwners, row.2.unattributedObservations, row.2.falsePositives)

/-- `ORDER BY` three columns, all of them descending. -/
def precedes (a b : Int × Int × Int) : Bool :=
  b.1 < a.1 || (a.1 = b.1 && (b.2.1 < a.2.1 || (a.2.1 = b.2.1 && b.2.2 ≤ a.2.2)))

/-- The rows that `_summary_rows` reads. -/
def listedRows (e : Evidence) (noisy : Bool) (limit : Nat) : List SummaryRow :=
  ((e.hashSummary.entries.filter (isListed noisy)).insertionSort fun a b =>
    precedes (listOrder noisy a) (listOrder noisy b)).take limit

/-- `SUM(distinct_reference_owners > 1)`, reported as `multi_owner_signatures`. -/
def multiOwnerSignatures (e : Evidence) : Int :=
  total (fun row => if 1 < row.2.distinctReferenceOwners then 1 else 0) e.hashSummary.entries

/-- The observations of a signature. -/
def observationsOf (e : Evidence) (s : Signature) : List Observation :=
  e.hashObservation.entries.filter fun row => row.1.signature = s

/-- The owners that rows other than unattributed ones name. -/
def namedOwners (rows : List Observation) : List String :=
  (((rows.filter fun row => !hasOutcome .unattributed row).map (·.1.owner)).filter fun owner => owner ≠ "").dedup

/-- The owners of a signature's observations. -/
def referenceOwners (e : Evidence) (s : Signature) : List String := namedOwners (observationsOf e s)

/-- The owners are counted, and only they. -/
structure OwnersCounted (e : Evidence) : Prop where
  counts : ∀ row ∈ e.hashSummary.entries, row.2.distinctReferenceOwners = (referenceOwners e row.1).length
  multi : multiOwnerSignatures e =
    ((e.hashObservation.keys.map ObservationKey.signature).dedup.filter fun s =>
      2 ≤ (referenceOwners e s).length).length
  lowInformation : ∀ limit, ∀ row ∈ listedRows e false limit, 1 < row.2.distinctReferenceOwners →
    ∃ o ∈ referenceOwners e row.1, ∃ o' ∈ referenceOwners e row.1, o ≠ o'

section Counting

variable {rows : List Observation} {e : Evidence}

/-- Rows that all name an owner have as many distinct owners as are named. -/
theorem countDistinct_of_named (hnamed : ∀ row ∈ rows, row.1.owner ≠ "")
    (hattributed : ∀ row ∈ rows, hasOutcome .unattributed row = false) :
    countDistinct (·.1.owner) rows = (namedOwners rows).length := by
  have hfilter : (rows.filter fun row => !hasOutcome .unattributed row) = rows := by
    apply List.filter_eq_self.mpr
    intro row hrow
    rw [hattributed row hrow]
    rfl
  have howners : ((rows.map (·.1.owner)).filter fun owner => owner ≠ "") = rows.map (·.1.owner) := by
    apply List.filter_eq_self.mpr
    intro owner howner
    obtain ⟨row, hrow, rfl⟩ := List.mem_map.mp howner
    simpa using hnamed row hrow
  rw [countDistinct, namedOwners, hfilter, howners]

/-- The empty owner is counted as one more owner than is named. -/
theorem countDistinct_of_unnamed {row : Observation} (hrow : row ∈ rows) (hempty : row.1.owner = "") :
    ((namedOwners rows).length : Int) < countDistinct (·.1.owner) rows := by
  have hnodup : ("" :: namedOwners rows).Nodup := by
    apply List.nodup_cons.mpr
    simp [namedOwners, List.nodup_dedup]
  have hsubset : "" :: namedOwners rows ⊆ (rows.map (·.1.owner)).dedup := by
    intro owner howner
    rw [List.mem_dedup]
    rcases List.mem_cons.mp howner with rfl | howner
    · exact List.mem_map.mpr ⟨row, hrow, hempty⟩
    · have hmem := List.mem_dedup.mp howner
      obtain ⟨row', hrow', rfl⟩ := List.mem_map.mp (List.mem_filter.mp hmem).1
      exact List.mem_map_of_mem (List.mem_filter.mp hrow').1
  have hlength := (hnodup.subperm hsubset).length_le
  rw [List.length_cons] at hlength
  simp only [countDistinct]
  omega

theorem mem_hashSummary {row : SummaryRow} (h : row ∈ (sealEvidence e).hashSummary.entries) :
    (∃ o ∈ e.hashObservation.entries, o.1.signature = row.1) ∧ summarize (observationsOf e row.1) = row.2 :=
  Dict.get?_groupBy.mp (Dict.get?_eq_some_iff.mpr h)

theorem summary_mem {o : Observation} (h : o ∈ e.hashObservation.entries) :
    (o.1.signature, summarize (observationsOf e o.1.signature)) ∈ (sealEvidence e).hashSummary.entries :=
  Dict.get?_eq_some_iff.mp (Dict.get?_groupBy.mpr ⟨⟨o, h, rfl⟩, rfl⟩)

end Counting

section Owners

variable {e : Evidence}

/-- Every observation names an owner, and none is unattributed. -/
def AllNamed (e : Evidence) : Prop :=
  ∀ o ∈ e.hashObservation.entries, o.1.owner ≠ "" ∧ o.1.outcome ≠ .unattributed

theorem listedRows_subset {noisy : Bool} {limit : Nat} {row : SummaryRow} (h : row ∈ listedRows e noisy limit) :
    row ∈ e.hashSummary.entries :=
  (List.mem_filter.mp ((List.mem_insertionSort _).mp (List.mem_of_mem_take h))).1

theorem exists_ne_of_two {owners : List String} (hnodup : owners.Nodup) (h : 2 ≤ owners.length) :
    ∃ o ∈ owners, ∃ o' ∈ owners, o ≠ o' := by
  match owners, hnodup, h with
  | o :: o' :: rest, hnodup, _ =>
    refine ⟨o, by simp, o', by simp, ?_⟩
    rintro rfl
    simp at hnodup

theorem ownersCounted_of_named (h : AllNamed e) : OwnersCounted (sealEvidence e) := by
  have hcount (s : Signature) : countDistinct (·.1.owner) (observationsOf e s) = (referenceOwners (sealEvidence e) s).length := by
    have hmem : ∀ o ∈ observationsOf e s, o ∈ e.hashObservation.entries := fun o ho => (List.mem_filter.mp ho).1
    exact countDistinct_of_named (fun o ho => (h o (hmem o ho)).1)
      fun o ho => decide_eq_false (h o (hmem o ho)).2
  have hrow : ∀ row ∈ (sealEvidence e).hashSummary.entries,
      row.2.distinctReferenceOwners = (referenceOwners (sealEvidence e) row.1).length := by
    intro row hrow
    rw [← (mem_hashSummary hrow).2]
    exact hcount row.1
  refine ⟨hrow, ?_, ?_⟩
  · rw [length_filter_eq_total]
    have hkeys : e.hashObservation.keys.map ObservationKey.signature =
        e.hashObservation.entries.map (·.1.signature) := List.map_map ..
    rw [multiOwnerSignatures, total_congr fun row hmem => by rw [hrow row hmem]]
    change total _ (((e.hashObservation.entries.map (·.1.signature)).dedup).map _) = _
    rw [total_map, ← hkeys]
    apply total_congr
    intro s _
    simp only
    by_cases htwo : 2 ≤ (referenceOwners (sealEvidence e) s).length
    · rw [if_pos (by omega), if_pos (by simpa using htwo)]
    · rw [if_neg (by omega), if_neg (by simpa using htwo)]
  · intro limit row hlisted howners
    rw [hrow row (listedRows_subset hlisted)] at howners
    exact exists_ne_of_two (List.nodup_dedup _) (by omega)

theorem named_of_ownersCounted (h : OwnersCounted (sealEvidence e))
    (hunattributed : ∀ o ∈ e.hashObservation.entries, o.1.outcome = .unattributed → o.1.owner = "") : AllNamed e := by
  have hnamed : ∀ o ∈ e.hashObservation.entries, o.1.owner ≠ "" := by
    intro o ho hempty
    have hcounts := h.counts _ (summary_mem ho)
    have hmem : o ∈ observationsOf e o.1.signature := List.mem_filter.mpr ⟨ho, by simp⟩
    have hlt := countDistinct_of_unnamed hmem hempty
    have heq : countDistinct (·.1.owner) (observationsOf e o.1.signature) =
      (namedOwners (observationsOf e o.1.signature)).length := hcounts
    omega
  exact fun o ho => ⟨hnamed o ho, fun hout => hnamed o ho (hunattributed o ho hout)⟩

end Owners

section Folds

/-- Each query signature is in the reference of a present owner, and the empty owner takes no part. -/
structure Attributed (db : ReferenceDatabase) (call : FoldCall) (queries : List Identity) : Prop where
  covered : ∀ i ∈ queries, ∃ o ∈ call.cohort, o ∈ call.present ∧ (i, o) ∈ (referenceRows db call).map ReferenceRow.pair
  named : ∀ i, (i, "") ∈ (referenceRows db call).map ReferenceRow.pair → "" ∈ call.cohort →
    i ∉ queries ∧ "" ∉ call.present

theorem Fold.uncovered_eq_nil {fold : Fold} :
    fold.uncovered = [] ↔ ∀ i ∈ fold.query.keys, ∃ o ∈ fold.call.cohort, o ∈ fold.call.present ∧
      (i, o) ∈ fold.references.map ReferenceRow.pair := by
  simp only [Fold.uncovered, List.filter_eq_nil_iff, Bool.not_eq_true', Bool.not_eq_false, decide_eq_true_eq]
  have hhit (i : Identity) : i ∈ fold.hits.map (·.query.1) ↔ ∃ o, (i, o) ∈ fold.hits.map MatchRow.pair := by
    constructor
    · intro hi
      obtain ⟨m, hm, rfl⟩ := List.mem_map.mp hi
      exact ⟨m.reference.owner, List.mem_map_of_mem hm⟩
    · rintro ⟨o, ho⟩
      obtain ⟨m, hm, hpair⟩ := List.mem_map.mp ho
      exact List.mem_map.mpr ⟨m, hm, congrArg Prod.fst hpair⟩
  constructor
  · intro h i hi
    obtain ⟨q, hq, rfl⟩ := List.mem_map.mp hi
    obtain ⟨o, ho⟩ := (hhit q.1).mp (by simpa using h q hq)
    obtain ⟨-, hreference, hcohort, hpresent⟩ := Fold.mem_hits.mp ho
    exact ⟨o, hcohort, hpresent, hreference⟩
  · intro h q hq
    obtain ⟨o, hcohort, hpresent, hreference⟩ := h q.1 (List.mem_map_of_mem hq)
    have hmem := (hhit q.1).mpr ⟨o, Fold.mem_hits.mpr ⟨List.mem_map_of_mem hq, hreference, hcohort, hpresent⟩⟩
    simpa using hmem

/-- The rows of a fold name their owners if the fold is attributed. -/
theorem Fold.named_iff {fold : Fold} :
    (∀ k ∈ fold.rows.map Prod.fst, k.owner ≠ "" ∧ k.outcome ≠ .unattributed) ↔
      Attributed fold.db fold.call fold.query.keys := by
  have hrows (o : Outcome) (p : Identity × String) (hp : p ∈ fold.pairs o)
      (h : ∀ k ∈ fold.rows.map Prod.fst, k.owner ≠ "" ∧ k.outcome ≠ .unattributed) : p.2 ≠ "" ∧ o ≠ .unattributed :=
    h (fold.call.key o p) (Fold.key_mem_keys_rows.mpr hp)
  constructor
  · intro h
    refine ⟨Fold.uncovered_eq_nil.mp ?_, fun i hreference hcohort => ?_⟩
    · apply List.eq_nil_iff_forall_not_mem.mpr
      intro q hq
      exact (hrows .unattributed (q.1, "") (List.mem_map_of_mem hq) h).2 rfl
    · by_cases hquery : i ∈ fold.query.keys
      · by_cases hpresent : "" ∈ fold.call.present
        · exact absurd rfl (hrows .tp (i, "") (Fold.mem_hits.mpr ⟨hquery, hreference, hcohort, hpresent⟩) h).1
        · exact absurd rfl (hrows .fp (i, "") (Fold.mem_falseHits.mpr ⟨hquery, hreference, hcohort, hpresent⟩) h).1
      · refine ⟨hquery, fun hpresent => ?_⟩
        exact absurd rfl (hrows .fn (i, "") (Fold.mem_misses.mpr ⟨hquery, hreference, hcohort, hpresent⟩) h).1
  · rintro ⟨hcovered, hnamed⟩ k hk
    obtain ⟨o, ⟨i, owner⟩, hp, rfl⟩ := Fold.mem_keys_rows.mp hk
    have hempty : ∀ owner', owner' = "" → (i, owner') ∈ fold.references.map ReferenceRow.pair → owner' ∈ fold.call.cohort →
        i ∉ fold.query.keys ∧ owner' ∉ fold.call.present := by
      rintro _ rfl hreference hcohort
      exact hnamed i hreference hcohort
    cases o with
    | tp =>
      obtain ⟨hquery, hreference, hcohort, -⟩ := Fold.mem_hits.mp hp
      exact ⟨fun howner => (hempty owner howner hreference hcohort).1 hquery, by simp [FoldCall.key]⟩
    | fp =>
      obtain ⟨hquery, hreference, hcohort, -⟩ := Fold.mem_falseHits.mp hp
      exact ⟨fun howner => (hempty owner howner hreference hcohort).1 hquery, by simp [FoldCall.key]⟩
    | fn =>
      obtain ⟨-, hreference, hcohort, hpresent⟩ := Fold.mem_misses.mp hp
      exact ⟨fun howner => (hempty owner howner hreference hcohort).2 hpresent, by simp [FoldCall.key]⟩
    | unattributed =>
      simp [Fold.pairs, Fold.uncovered_eq_nil.mpr hcovered] at hp

theorem mem_keys_classifyFolds {folds : List Fold} {sourceRunId sourceDigest methodId methodDigest : String}
    {k : ObservationKey} :
    k ∈ (folds.foldl (fun output f => f.write output)
      (createEvidence sourceRunId sourceDigest methodId methodDigest)).hashObservation.keys ↔
      ∃ fold ∈ folds, k ∈ fold.rows.map Prod.fst := by
  rw [hashObservation_foldl_write, Dict.mem_keys_replaceRows, List.map_flatMap, List.mem_flatMap]
  exact or_iff_right (by simp [createEvidence, Dict.keys_empty])

/-- The owners of all signatures are counted when every fold is attributed, and only then. -/
theorem ownersCounted_iff {sourceRunId sourceDigest methodId methodDigest : String}
    {calls : List (ReferenceDatabase × FoldCall)} {e : Evidence}
    (h : classifyFolds (createEvidence sourceRunId sourceDigest methodId methodDigest) calls = .ok e) :
    OwnersCounted (sealEvidence e) ↔
      ∀ c ∈ calls, ∀ query, loadQuery c.2.query = .ok query → Attributed c.1 c.2 query.keys := by
  obtain ⟨folds, rfl, rfl⟩ := classifyFolds_eq_ok h
  have hfolds : (∀ fold ∈ folds, Attributed fold.db fold.call fold.query.keys) ↔
      ∀ c ∈ folds.map (fun f => (f.db, f.call)), ∀ query, loadQuery c.2.query = .ok query →
        Attributed c.1 c.2 query.keys := by
    simp only [List.forall_mem_map, Fold.load, Except.ok.injEq, forall_eq']
  rw [← hfolds, forall_congr' fun fold => imp_congr_right fun _ => Fold.named_iff.symm]
  have hunattributed : ∀ o ∈ (folds.foldl (fun output f => f.write output)
      (createEvidence sourceRunId sourceDigest methodId methodDigest)).hashObservation.entries,
      o.1.outcome = .unattributed → o.1.owner = "" := by
    intro o ho hout
    obtain ⟨fold, -, hk⟩ := mem_keys_classifyFolds.mp (Dict.mem_keys_of_mem ho)
    obtain ⟨out, p, hp, hkey⟩ := Fold.mem_keys_rows.mp hk
    rw [← hkey] at hout ⊢
    obtain rfl : out = .unattributed := hout
    obtain ⟨q, -, rfl⟩ := List.mem_map.mp hp
    rfl
  constructor
  · intro hcounted fold hfold k hk
    obtain ⟨o, ho, rfl⟩ := List.mem_map.mp (mem_keys_classifyFolds.mpr ⟨fold, hfold, hk⟩)
    exact named_of_ownersCounted hcounted hunattributed o ho
  · intro hall
    apply ownersCounted_of_named
    intro o ho
    obtain ⟨fold, hfold, hk⟩ := mem_keys_classifyFolds.mp (Dict.mem_keys_of_mem ho)
    exact hall fold hfold o.1 hk

end Folds

namespace Sample

/-- Both query signatures belong to the one present owner. -/
def attributedFolds : List (ReferenceDatabase × FoldCall) :=
  [(references [("1", "one@1"), ("2", "one@1"), ("1", "two@1")],
    foldCall "A" ["one@1"] ["one@1", "two@1"] ["1", "2"])]

/-- A signature that its owner's fold recovers, and that nobody owns in the other fold. -/
def unattributedFolds : List (ReferenceDatabase × FoldCall) :=
  [(references [("1", "one@1")], foldCall "A" ["one@1"] ["one@1", "two@1"] ["1"]),
    (references [], foldCall "B" ["two@1"] ["one@1", "two@1"] ["1"])]

theorem attributed_counted : OwnersCounted (sealed "a" attributedFolds) := by
  have hrun : ∃ e, classifyFolds (createEvidence "run" "a" "method" "authority") attributedFolds = .ok e := ⟨_, rfl⟩
  obtain ⟨e, he⟩ := hrun
  rw [sealed, he]
  refine (ownersCounted_iff he).mpr ?_
  intro c hc query hquery
  obtain rfl := List.mem_singleton.mp hc
  obtain rfl := Except.ok.inj hquery
  exact ⟨by decide, fun _ _ hcohort => absurd hcohort (by decide)⟩

/-- One owner is reported as two. -/
theorem unattributed_counts_twice :
    (sealed "a" unattributedFolds).hashSummary.entries.map (fun row => row.2.distinctReferenceOwners) = [2] ∧
      multiOwnerSignatures (sealed "a" unattributedFolds) = 1 ∧
      ∀ row ∈ (sealed "a" unattributedFolds).hashSummary.entries,
        referenceOwners (sealed "a" unattributedFolds) row.1 = ["one@1"] := by
  decide

end Sample

end FidbPoc.Corpus
