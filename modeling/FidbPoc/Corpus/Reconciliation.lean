import FidbPoc.Corpus.Partition

namespace FidbPoc.Corpus

open FidbPoc.Lib FidbPoc.Lib.Checked FidbPoc.Lib.Sums

section runs

/-- Each unit is classified once, and a position numbers one work unit. -/
structure Separate (calls : List FoldCall) : Prop where
  units : (calls.map FoldCall.unit).Nodup
  positions : ∀ c ∈ calls, ∀ c' ∈ calls, c.position = c'.position → c.routeId = c'.routeId ∧ c.treatmentId = c'.treatmentId

theorem Separate.keys {calls : List FoldCall} (h : Separate calls) :
    (calls.map fun c => (c.position, c.fold)).Nodup := by
  refine List.Nodup.map_on ?_ h.units.of_map
  intro c hc c' hc' heq
  obtain ⟨hroute, htreatment⟩ := h.positions c hc c' hc' (Prod.mk.inj heq).1
  have hunit : c.unit = c'.unit := by
    rw [FoldCall.unit, FoldCall.unit, hroute, htreatment, (Prod.mk.inj heq).2]
  exact List.inj_on_of_nodup_map h.units hc hc' hunit

variable {folds : List Fold} {output : Evidence}

theorem hashObservation_foldl_write (folds : List Fold) (output : Evidence) :
    (folds.foldl (fun output f => f.write output) output).hashObservation =
      output.hashObservation.replaceRows (folds.flatMap Fold.rows) := by
  rw [← Dict.replaceRows_flatMap]
  induction folds generalizing output with
  | nil => rfl
  | cons fold folds ih => rw [List.foldl_cons, ih]; rfl

theorem unitResult_foldl_write (folds : List Fold) (output : Evidence) :
    (folds.foldl (fun output f => f.write output) output).unitResult =
      output.unitResult.replaceRows (folds.map fun f => ((f.call.position, f.call.fold), f.unitResult)) := by
  induction folds generalizing output with
  | nil => rfl
  | cons fold folds ih => rw [List.foldl_cons, ih]; rfl

theorem nodup_keys_flatMap (hunits : (folds.map fun f => f.call.unit).Nodup) :
    ((folds.flatMap Fold.rows).map Prod.fst).Nodup := by
  rw [List.map_flatMap]
  refine List.nodup_flatMap.mpr ⟨fun fold _ => Fold.nodup_rows, (List.pairwise_map.mp hunits).imp ?_⟩
  intro fold fold' hne k hk hk'
  obtain ⟨o, p, -, rfl⟩ := Fold.mem_keys_rows.mp hk
  obtain ⟨o', p', -, heq⟩ := Fold.mem_keys_rows.mp hk'
  exact hne (congrArg ObservationKey.unit heq).symm

/-- What a run from empty tables has written. -/
theorem entries_classifyFolds {sourceRunId sourceDigest methodId methodDigest : String}
    {calls : List (ReferenceDatabase × FoldCall)} {e : Evidence} (hcalls : Separate (calls.map Prod.snd))
    (h : classifyFolds (createEvidence sourceRunId sourceDigest methodId methodDigest) calls = .ok e) :
    ∃ folds : List Fold, folds.map (fun f => (f.db, f.call)) = calls ∧
      e.hashObservation.entries = folds.flatMap Fold.rows ∧
      e.unitResult.entries = folds.map fun f => ((f.call.position, f.call.fold), f.unitResult) := by
  obtain ⟨folds, rfl, rfl⟩ := classifyFolds_eq_ok h
  have hkeys := hcalls.keys
  have hunits := hcalls.units
  rw [List.map_map, List.map_map] at hkeys hunits
  refine ⟨folds, rfl, ?_, ?_⟩
  · rw [hashObservation_foldl_write]
    exact Dict.entries_replaceRows (nodup_keys_flatMap hunits)
  · rw [unitResult_foldl_write]
    refine Dict.entries_replaceRows ?_
    rw [List.map_map]
    exact hkeys

end runs

section columns

/-- The column of `hash_summary` that counts an outcome. -/
def HashSummary.column (o : Outcome) (row : HashSummary) : Int :=
  match o with
  | .tp => row.truePositives
  | .fp => row.falsePositives
  | .fn => row.falseNegatives
  | .unattributed => row.unattributedObservations

/-- The column of `unit_result` that counts an outcome. -/
def UnitResult.column (o : Outcome) (row : UnitResult) : Int :=
  match o with
  | .tp => row.truePositives
  | .fp => row.falsePositives
  | .fn => row.falseNegatives
  | .unattributed => row.unattributedQuerySignatures

theorem column_summarize (o : Outcome) (rows : List Observation) : (summarize rows).column o = sumOutcome o rows := by
  cases o <;> rfl

theorem Fold.column_unitResult (fold : Fold) (o : Outcome) : fold.unitResult.column o = sumOutcome o fold.rows := by
  rw [sumOutcome_rows]
  cases o <;> simp [UnitResult.column, unitResult, pairs]

/-- The rows of an outcome and the two columns that count it agree. -/
structure Agrees (e : Evidence) (o : Outcome) : Prop where
  summary : ((e.hashObservation.entries.filter (hasOutcome o)).length : ℤ) = total (·.column o) e.hashSummary.values
  units : ((e.hashObservation.entries.filter (hasOutcome o)).length : ℤ) = total (·.column o) e.unitResult.values

theorem agrees_sealEvidence {sourceRunId sourceDigest methodId methodDigest : String}
    {calls : List (ReferenceDatabase × FoldCall)} {e : Evidence} (hcalls : Separate (calls.map Prod.snd))
    (h : classifyFolds (createEvidence sourceRunId sourceDigest methodId methodDigest) calls = .ok e) (o : Outcome) :
    Agrees (sealEvidence e) o := by
  obtain ⟨folds, -, hrows, hunits⟩ := entries_classifyFolds hcalls h
  refine ⟨?_, ?_⟩
  · rw [length_filter_eq_total]
    exact (Dict.total_groupBy _ _ (column_summarize o)).symm
  · rw [length_filter_eq_total]
    simp only [sealEvidence, Dict.values, hrows, hunits, total_flatMap, total_map, Fold.column_unitResult]
    rfl

end columns

section claim

variable {sourceRunId sourceDigest methodId methodDigest : String} {calls : List (ReferenceDatabase × FoldCall)}
  {e : Evidence}

theorem mem_keys_loadQuery {lines : List SignatureLine} {rows : List SignatureRow} {query : Query}
    (hrows : lines.mapM signatureRow = .ok rows) (h : loadQuery lines = .ok query) (i : Identity) :
    i ∈ query.keys ↔ i ∈ rows.map (·.identity) := by
  simp only [loadQuery, hrows, ok_bind, pure_eq_ok] at h
  subst h
  rw [Dict.mem_keys_insertOrIgnore, List.map_map]
  simp [Dict.keys_empty, Function.comp_def]

/-- Sealed evidence of a run satisfies what the index asks of its columns. -/
theorem reconciled_sealEvidence (hcalls : Separate (calls.map Prod.snd))
    (h : classifyFolds (createEvidence sourceRunId sourceDigest methodId methodDigest) calls = .ok e) :
    (sealEvidence e).Reconciled := by
  have hagrees := agrees_sealEvidence hcalls h .fp
  refine ⟨hagrees.summary.symm.trans hagrees.units, fun u hu => ?_⟩
  obtain ⟨folds, -, -, hunits⟩ := entries_classifyFolds hcalls h
  have hvalues : (sealEvidence e).unitResult.values = folds.map Fold.unitResult := by
    rw [sealEvidence, Dict.values, hunits, List.map_map]
    rfl
  rw [hvalues] at hu
  obtain ⟨fold, -, rfl⟩ := List.mem_map.mp hu
  exact fold.trueNegatives_nonneg

/-- A fold is classified into a partition of its references and of its query, and over a run
the rows, the summary and the units count the same. -/
theorem fold_classification_partition :
    (∀ (output : Evidence) (db : ReferenceDatabase) (call : FoldCall) (rows : List SignatureRow),
      call.referenceTable = "reference_identity" ∨ call.referenceTable = "unit_reference" →
      call.query.mapM signatureRow = .ok rows → call.cohort.Nodup → call.present ⊆ call.cohort →
      ∃ output' result, classifyFold output db call = .ok (output', result) ∧
        Partitioned db call (rows.map (·.identity)) output output' result) ∧
    ∀ (sourceRunId sourceDigest methodId methodDigest : String) (calls : List (ReferenceDatabase × FoldCall))
      (e : Evidence), Separate (calls.map Prod.snd) →
      classifyFolds (createEvidence sourceRunId sourceDigest methodId methodDigest) calls = .ok e →
      ∀ o, Agrees (sealEvidence e) o := by
  refine ⟨fun output db call rows htable hrows hcohort hpresent => ?_, fun _ _ _ _ _ _ => agrees_sealEvidence⟩
  have hquery : ∃ query, loadQuery call.query = .ok query := by
    simp only [loadQuery, hrows, ok_bind, pure_eq_ok, exists_eq']
  obtain ⟨query, hquery⟩ := hquery
  obtain ⟨output', result, hclassify⟩ := classifyFold_total output db htable hquery hcohort
  refine ⟨output', result, hclassify, ?_⟩
  obtain ⟨fold, rfl, rfl, rfl, rfl⟩ := classifyFold_eq_ok hclassify
  exact fold.partitioned hpresent (mem_keys_loadQuery hrows fold.load) output

def Sample.identity (hash : String) : Identity := ⟨"x86", hash, hash, 7, 8⟩

def Sample.line (hash : String) : SignatureLine :=
  ⟨some "0", some "query", none, some "x86", none, some hash, some hash, some 7, some 8⟩

/-- The reference tables of some hashes with their owners. -/
def Sample.references (rows : List (String × String)) : ReferenceDatabase :=
  ⟨Dict.empty, Dict.ofList (rows.map fun r => ((Sample.identity r.1, r.2), ⟨"reference", "reference.jsonl"⟩))⟩

/-- A fold of some query hashes, with the present owners and all owners. -/
def Sample.foldCall (fold : String) (present cohort hashes : List String) : FoldCall :=
  ⟨1, "route", "treatment", "linux", "elf", fold, present, cohort, hashes.map Sample.line, "0", "query.jsonl",
    "unit_reference", none⟩

def Sample.folds : List (ReferenceDatabase × FoldCall) :=
  let references := Sample.references [("1", "one@1"), ("2", "one@1"), ("3", "two@1")]
  [(references, Sample.foldCall "A" ["one@1"] ["one@1", "two@1"] ["1", "3", "4"]),
    (references, Sample.foldCall "B" ["two@1"] ["one@1", "two@1"] ["2", "3"])]

/-- What is sealed once some folds are classified. -/
def Sample.sealed (sourceDigest : String) (calls : List (ReferenceDatabase × FoldCall)) : Evidence :=
  match classifyFolds (createEvidence "run" sourceDigest "method" "authority") calls with
  | .ok e => sealEvidence e
  | .error _ => createEvidence "" "" "" ""

theorem Sample.separate_folds : Separate (Sample.folds.map Prod.snd) := ⟨by decide, by decide⟩

theorem fold_classification_partition_two_folds :
    (∃ output' result, classifyFold (createEvidence "run" "a" "method" "authority")
      (Sample.references [("1", "one@1"), ("2", "one@1"), ("3", "two@1")])
      (Sample.foldCall "A" ["one@1"] ["one@1", "two@1"] ["1", "3", "4"]) = .ok (output', result) ∧
      Partitioned (Sample.references [("1", "one@1"), ("2", "one@1"), ("3", "two@1")])
        (Sample.foldCall "A" ["one@1"] ["one@1", "two@1"] ["1", "3", "4"])
        [Sample.identity "1", Sample.identity "3", Sample.identity "4"]
        (createEvidence "run" "a" "method" "authority") output' result) ∧
    ∀ o, Agrees (Sample.sealed "a" Sample.folds) o := by
  refine ⟨fold_classification_partition.1 _ _ _
    [⟨"0", "query", Sample.identity "1"⟩, ⟨"0", "query", Sample.identity "3"⟩, ⟨"0", "query", Sample.identity "4"⟩]
    (.inr rfl) rfl (by decide) (by decide), ?_⟩
  have hrun : ∃ e, classifyFolds (createEvidence "run" "a" "method" "authority") Sample.folds = .ok e := ⟨_, rfl⟩
  obtain ⟨e, he⟩ := hrun
  rw [Sample.sealed, he]
  exact fold_classification_partition.2 _ _ _ _ _ e Sample.separate_folds he

end claim

section workUnits

variable {signatures : Dict (String × String × String) SignatureFile} {cohort : List String} {output e : Evidence}
  {units : List WorkUnit}

/-- The loop over the work units is a run of their folds. -/
theorem classifyUnits_eq_ok (h : classifyUnits signatures cohort output units = .ok e) :
    ∃ calls : List (ReferenceDatabase × FoldCall),
      calls.map Prod.snd = units.flatMap (fun work => work.folds.map (work.foldCall cohort)) ∧
        classifyFolds output calls = .ok e := by
  induction units generalizing output with
  | nil => exact ⟨[], rfl, h⟩
  | cons work units ih =>
    simp only [classifyUnits, List.foldlM_cons, bind_eq_ok] at h
    obtain ⟨next, ⟨unitReference, -, hwork⟩, hrest⟩ := h
    obtain ⟨calls, hcalls, hrun⟩ := ih hrest
    refine ⟨work.folds.map (fun input => (⟨Dict.empty, unitReference⟩, work.foldCall cohort input)) ++ calls, ?_, ?_⟩
    · rw [List.map_append, List.map_map, hcalls, List.flatMap_cons]
      rfl
    · rw [classifyFolds, List.foldlM_append]
      exact bind_eq_ok.mpr ⟨next, hwork, hrun⟩

/-- Work units with positions and identities of their own, and folds of their own names. -/
structure Enumerated (units : List WorkUnit) : Prop where
  positions : (units.map (·.position)).Nodup
  identities : (units.map fun work => (work.routeId, work.treatmentId)).Nodup
  folds : ∀ work ∈ units, (work.folds.map (·.fold)).Nodup

theorem Enumerated.separate (h : Enumerated units) :
    Separate (units.flatMap fun work => work.folds.map (work.foldCall cohort)) := by
  refine ⟨?_, ?_⟩
  · rw [List.map_flatMap]
    refine List.nodup_flatMap.mpr ⟨fun work hwork => ?_, (List.pairwise_map.mp h.identities).imp ?_⟩
    · rw [List.map_map]
      exact nodup_map_of_imp (fun _ _ heq => congrArg FoldUnit.fold heq) (h.folds work hwork)
    · intro work work' hne u hu hu'
      simp only [List.mem_map] at hu hu'
      obtain ⟨_, ⟨_, -, rfl⟩, rfl⟩ := hu
      obtain ⟨_, ⟨_, -, rfl⟩, heq⟩ := hu'
      exact hne (Prod.ext (congrArg FoldUnit.routeId heq).symm (congrArg FoldUnit.treatmentId heq).symm)
  · intro c hc c' hc' hposition
    simp only [List.mem_flatMap, List.mem_map] at hc hc'
    obtain ⟨work, hwork, _, -, rfl⟩ := hc
    obtain ⟨work', hwork', _, -, rfl⟩ := hc'
    obtain rfl := List.inj_on_of_nodup_map h.positions hwork hwork' hposition
    exact ⟨rfl, rfl⟩

/-- What the whole analysis seals can be ingested into a corpus index. -/
theorem classifyUnits_sealed {sourceRunId sourceDigest methodId methodDigest : String} (hunits : Enumerated units)
    (h : classifyUnits signatures cohort (createEvidence sourceRunId sourceDigest methodId methodDigest) units = .ok e) :
    (sealEvidence e).Covered ∧ (sealEvidence e).Reconciled := by
  obtain ⟨calls, hcalls, hrun⟩ := classifyUnits_eq_ok h
  exact ⟨covered_sealEvidence e, reconciled_sealEvidence (hcalls ▸ hunits.separate) hrun⟩

end workUnits

end FidbPoc.Corpus
