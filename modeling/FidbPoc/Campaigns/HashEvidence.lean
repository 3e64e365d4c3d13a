import FidbPoc.Campaigns.Evidence
import FidbPoc.Lib.Aggregation
import FidbPoc.Matching.Decisions

namespace FidbPoc.Campaigns.HashEvidence

open FidbPoc.Lib FidbPoc.Lib.Sums FidbPoc.Matching

/-- The numbers of `hash_owner`; the three outcomes have a column each. -/
inductive Column
  | observations
  | decided (outcome : Matching.Outcome)
  | sharedCode
  | ambiguousAttribution
  | incorrectConfidentAttribution
  deriving DecidableEq

abbrev Counts := Column → ℤ

/-- The primary key of `hash_owner`. -/
structure Key where
  scope : String
  hashType : String
  value : String
  owner : String
  deriving DecidableEq

abbrev HashOwner := Dict Key Counts

/-- A value of a hash type in a scope. -/
structure Value where
  scope : String
  hashType : String
  value : String
  deriving DecidableEq

def Key.hash (key : Key) : Value := ⟨key.scope, key.hashType, key.value⟩

structure Population where
  distinctOwners : Nat
  counts : Counts

/-- What the summary of a case says of the target; `None` reads "unknown". -/
structure Scope where
  targetOs : Option String
  binaryFormat : Option String
  languageId : Option String
  compilerSpecId : Option String

def Scope.text (scope : Scope) : String :=
  "|".intercalate ([scope.targetOs, scope.binaryFormat, scope.languageId, scope.compilerSpecId].map fun part =>
    part.getD "unknown")

/-- A summary on disk with the classification that it names, which is what `classify_matches`
returned and whose matrix and truth the summary repeats. -/
structure Retained where
  summary : Summary
  scope : Scope
  classification : Classification
  produced : ∃ document owners portable, classifyMatches document owners portable = .ok classification
  truePositives : (summary.confusionMatrix.truePositives : ℤ) = classification.confusionMatrix.truePositives
  falsePositives : (summary.confusionMatrix.falsePositives : ℤ) = classification.confusionMatrix.falsePositives
  falseNegatives : (summary.confusionMatrix.falseNegatives : ℤ) = classification.confusionMatrix.falseNegatives
  labelled : summary.labelledFunctions = classification.labelledFunctions

section Publish

/-- The numbers of one observation. -/
def counted (observation : Observation) : Counts
  | .observations => 1
  | .decided outcome => if observation.outcome = outcome then 1 else 0
  | .sharedCode => if observation.category = "shared-code-evidence" then 1 else 0
  | .ambiguousAttribution => if observation.category = "ambiguous-attribution" then 1 else 0
  | .incorrectConfidentAttribution => if observation.category = "incorrect-confident-attribution" then 1 else 0

def ownerRow (scope : String) (observation : Observation) : Key × Counts :=
  (⟨scope, observation.hashType, observation.value, observation.candidateOwner⟩, counted observation)

/-- The rows of the cases that have a summary, in the order of the cases. -/
def ownerRows (cases : List Case) (retained : Case → Option Retained) : List (Key × Counts) :=
  cases.flatMap fun c =>
    match retained c with
    | none => []
    | some evidence => evidence.classification.observations.map (ownerRow evidence.scope.text)

/-- `INSERT … ON CONFLICT … DO UPDATE`: the numbers of a listed key are added to. -/
def hashOwner (rows : List (Key × Counts)) : HashOwner := Tally.tally .empty rows

def populationRow (rows : List (Key × Counts)) : Population :=
  ⟨rows.length, fun column => total (fun row => row.2 column) rows⟩

def hashPopulation (owners : HashOwner) : Dict Value Population :=
  Dict.groupBy (fun row => row.1.hash) populationRow owners.entries

def ownersOf (owners : HashOwner) (hashType : String) : List (Key × Counts) :=
  owners.entries.filter fun row => row.1.hashType = hashType

def populationOf (owners : HashOwner) (hashType : String) : List (Value × Population) :=
  (hashPopulation owners).entries.filter fun row => row.1.hashType = hashType

structure Share where
  distinctValues : Nat
  fractionOfValues : ℚ

/-- The distribution of the values over the numbers of their owners. -/
def distribution (owners : HashOwner) (hashType : String) : List (Nat × Share) :=
  (Dict.groupBy (fun row => row.2.distinctOwners)
    (fun rows => (⟨rows.length, rows.length / (populationOf owners hashType).length⟩ : Share))
    (populationOf owners hashType)).ordered

structure Library where
  distinctValues : Nat
  multiOwnerValues : Nat
  ambiguousFraction : ℚ
  referenceObservations : ℤ
  missedObservations : ℤ
  falsePositiveObservations : ℤ

/-- The rows of `hash_owner` with the population of their value. -/
def joined (owners : HashOwner) (hashType : String) : List ((Key × Counts) × Population) :=
  (ownersOf owners hashType).filterMap fun row => ((hashPopulation owners).get? row.1.hash).map (row, ·)

def libraryRow (rows : List ((Key × Counts) × Population)) : Library :=
  let multiOwner := rows.countP fun row => 1 < row.2.distinctOwners
  ⟨rows.length, multiOwner, multiOwner / rows.length, total (fun row => row.1.2 .observations) rows,
    total (fun row => row.1.2 (.decided .fn)) rows, total (fun row => row.1.2 (.decided .fp)) rows⟩

def libraries (owners : HashOwner) (hashType : String) : List (String × Library) :=
  (Dict.groupBy (fun row => row.1.1.owner) libraryRow (joined owners hashType)).ordered

/-- A row of `hash_type_analysis`, the list of the most ambiguous values aside. -/
structure Analysis where
  hashType : String
  distinctValues : Nat
  singletonValues : Nat
  multiOwnerValues : Nat
  multiOwnerFraction : ℚ
  ownerLinks : ℤ
  ambiguousOwnerLinks : ℤ
  referenceObservations : ℤ
  falsePositiveObservations : ℤ
  maximumDistinctOwners : Nat
  falsePositiveValues : Nat
  distribution : List (Nat × Share)
  libraries : List (String × Library)

def analysis (owners : HashOwner) (hashType : String) : Analysis :=
  let population := populationOf owners hashType
  let multiOwner := population.countP fun row => 1 < row.2.distinctOwners
  { hashType
    distinctValues := population.length
    singletonValues := population.countP fun row => row.2.distinctOwners = 1
    multiOwnerValues := multiOwner
    multiOwnerFraction := multiOwner / population.length
    ownerLinks := total (fun row => (row.2.distinctOwners : ℤ)) population
    ambiguousOwnerLinks := total (fun row => if 1 < row.2.distinctOwners then (row.2.distinctOwners : ℤ) else 0) population
    referenceObservations := total (fun row => row.2.counts .observations) population
    falsePositiveObservations := total (fun row => row.2.counts (.decided .fp)) population
    maximumDistinctOwners := (population.map fun row => row.2.distinctOwners).foldr max 0
    falsePositiveValues := population.countP fun row => 0 < row.2.counts (.decided .fp)
    distribution := distribution owners hashType
    libraries := libraries owners hashType }

def hashTypes : List String := ["full", "specific", "complete"]

/-- `_publish_hash_evidence`: the table of the owners and the analysis of the three types. -/
def publishHashEvidence (a : Authorities) (mode : Mode) (retained : Case → Option Retained) :
    HashOwner × List Analysis :=
  let owners := hashOwner (ownerRows (expectedCases a.campaign mode) retained)
  (owners, hashTypes.map (analysis owners))

end Publish

section Columns

variable {owners owners' : HashOwner} {hashType : String}

theorem distinctOwners_pos {row : Value × Population} (h : row ∈ populationOf owners hashType) :
    0 < row.2.distinctOwners := by
  obtain ⟨hgroup, hrow⟩ := Dict.get?_groupBy.mp (Dict.get?_of_mem (List.mem_filter.mp h).1)
  obtain ⟨entry, hentry, hkey⟩ := hgroup
  rw [← hrow]
  exact List.length_pos_of_mem (List.mem_filter.mpr ⟨hentry, decide_eq_true hkey⟩)

/-- A number of the values of a type, taken over their owners, is that number over the owners of the type. -/
theorem total_population (f : Key × Counts → ℤ) (c : Population → ℤ)
    (hc : ∀ rows, c (populationRow rows) = total f rows) :
    total (fun row => c row.2) (populationOf owners hashType) = total f (ownersOf owners hashType) := by
  rw [populationOf, total_filter, ownersOf, total_filter]
  refine Dict.total_groupBy_entries
    (fun row : Key × Counts => if decide (row.1.hashType = hashType) = true then f row else 0)
    (fun row : Value × Population => if decide (row.1.hashType = hashType) = true then c row.2 else 0) fun key => ?_
  by_cases htype : key.hashType = hashType
  · rw [if_pos (by simpa using htype), hc]
    refine total_congr fun row hrow => ?_
    have hkey : row.1.hash = key := of_decide_eq_true (List.mem_filter.mp hrow).2
    have hrowType : row.1.hashType = hashType := (congrArg Value.hashType hkey).trans htype
    rw [if_pos (by simpa using hrowType)]
  · rw [if_neg (by simpa using htype)]
    refine (total_zero fun row hrow => ?_).symm
    have hkey : row.1.hash = key := of_decide_eq_true (List.mem_filter.mp hrow).2
    have hrowType : ¬row.1.hashType = hashType := fun h => htype ((congrArg Value.hashType hkey).symm.trans h)
    rw [if_neg (by simpa using hrowType)]

/-- Every owner of a type has the population of its value. -/
theorem joined_fst (owners : HashOwner) (hashType : String) :
    (joined owners hashType).map Prod.fst = ownersOf owners hashType := by
  have hall : ∀ row ∈ ownersOf owners hashType, ∃ population,
      (hashPopulation owners).get? row.1.hash = some population :=
    fun row hrow => ⟨_, Dict.get?_groupBy.mpr ⟨⟨row, (List.mem_filter.mp hrow).1, rfl⟩, rfl⟩⟩
  unfold joined
  generalize ownersOf owners hashType = rows at hall ⊢
  induction rows with
  | nil => rfl
  | cons row rows ih =>
    obtain ⟨⟨population, hpopulation⟩, hrows⟩ := List.forall_mem_cons.mp hall
    rw [List.filterMap_cons, hpopulation, Option.map_some, List.map_cons, ih hrows]

theorem total_libraries (f : Key × Counts → ℤ) (c : Library → ℤ)
    (hc : ∀ rows, c (libraryRow rows) = total (fun row => f row.1) rows) :
    total (fun row => c row.2) (libraries owners hashType) = total f (ownersOf owners hashType) := by
  rw [libraries, total_perm (Dict.ordered_perm _)]
  have hgroup := @Dict.total_groupBy_entries _ _ _ _ (fun row => row.1.1.owner) libraryRow (joined owners hashType)
    (fun row : (Key × Counts) × Population => f row.1) (fun row : String × Library => c row.2) fun owner => hc _
  rw [hgroup, ← joined_fst, total_map]

/-- Every value has one owner or more than one. -/
theorem singleton_add_multiOwner (owners : HashOwner) (hashType : String) :
    (analysis owners hashType).singletonValues + (analysis owners hashType).multiOwnerValues =
      (analysis owners hashType).distinctValues :=
  Dict.countP_one_add_countP_more fun _ h => distinctOwners_pos h

theorem total_distribution (owners : HashOwner) (hashType : String) :
    total (fun row => (row.2.distinctValues : ℤ)) (analysis owners hashType).distribution =
      (analysis owners hashType).distinctValues := by
  simp only [analysis, distribution]
  rw [total_perm (Dict.ordered_perm _)]
  have hgroup := @Dict.total_groupBy_entries _ _ _ _ (fun row => row.2.distinctOwners)
    (fun rows => ⟨rows.length, rows.length / (populationOf owners hashType).length⟩) (populationOf owners hashType)
    (fun _ : Value × Population => (1 : ℤ)) (fun row : Nat × Share => (row.2.distinctValues : ℤ))
    fun count => by simp [total]
  rw [hgroup]
  simp [total]

theorem ownerLinks_eq (owners : HashOwner) (hashType : String) :
    (analysis owners hashType).ownerLinks = (ownersOf owners hashType).length := by
  have h := @total_population owners hashType (fun _ => (1 : ℤ)) (fun population => (population.distinctOwners : ℤ))
    fun rows => by simp [populationRow, total]
  simp only [analysis]
  rw [h]
  simp [total]

end Columns

section Order

variable {owners owners' : HashOwner} {hashType : String}

/-- Tables of owners with the same rows come to the same analysis. -/
theorem analysis_congr (h : ∀ key, owners'.get? key = owners.get? key) :
    analysis owners' hashType = analysis owners hashType := by
  have hentries := Dict.entries_perm h
  have hrow : ∀ xs ys : List (Key × Counts), xs.Perm ys → populationRow xs = populationRow ys := fun xs ys hperm =>
    Population.mk.injEq .. ▸ ⟨hperm.length_eq, funext fun column => total_perm hperm⟩
  have hvalues : ∀ value, (hashPopulation owners').get? value = (hashPopulation owners).get? value :=
    Dict.groupBy_congr hentries hrow
  have hpopulation : (populationOf owners' hashType).Perm (populationOf owners hashType) :=
    (Dict.entries_perm hvalues).filter _
  have hdistribution : distribution owners' hashType = distribution owners hashType := by
    unfold distribution
    rw [hpopulation.length_eq]
    exact Dict.ordered_congr (Dict.groupBy_congr hpopulation fun xs ys hperm => by rw [hperm.length_eq])
  have hjoined : (joined owners' hashType).Perm (joined owners hashType) := by
    unfold joined
    rw [show (hashPopulation owners').get? = (hashPopulation owners).get? from funext hvalues]
    exact (hentries.filter _).filterMap _
  have hlibraries : libraries owners' hashType = libraries owners hashType := by
    refine Dict.ordered_congr (Dict.groupBy_congr hjoined fun xs ys hperm => ?_)
    simp only [libraryRow, hperm.length_eq, hperm.countP_eq, total_perm hperm]
  have hmaximum : ((populationOf owners' hashType).map fun row => row.2.distinctOwners).foldr max 0 =
      ((populationOf owners hashType).map fun row => row.2.distinctOwners).foldr max 0 :=
    (hpopulation.map _).foldr_eq 0
  simp only [analysis, hpopulation.length_eq, hpopulation.countP_eq, total_perm hpopulation, hmaximum, hdistribution,
    hlibraries]

end Order

section Outcomes

def countOf (matrix : Matching.Matrix) : Matching.Outcome → ℤ
  | .tp => matrix.truePositives
  | .fp => matrix.falsePositives
  | .fn => matrix.falseNegatives

def decided (hashType : String) (outcome : Matching.Outcome) (observation : Observation) : Bool :=
  observation.hashType = hashType ∧ observation.outcome = outcome

/-- What the loop over the functions keeps: each type has an observation for every decision of the matrix. -/
structure Evidenced (tally : Matching.Tally) : Prop where
  decided : ∀ hashType ∈ hashTypes, ∀ outcome,
    (tally.observations.countP (decided hashType outcome) : ℤ) = countOf tally.matrix outcome
  positives : countOf tally.matrix .tp + countOf tally.matrix .fn = tally.labelled
  unlabelled : tally.labelled = 0 → tally.observations = []

variable {function : TruthFunction} {truthOwner : String} {accepted : Nat} {decisions : List OwnerOutcome}
  {tally tally' : Matching.Tally} {found : List OwnedMatch} {owners : List String} {portable : PortableDecisions}
  {hashType : String} {outcome : Matching.Outcome}

theorem countP_observe_decided (h : hashType ∈ hashTypes) (decision : OwnerOutcome) :
    (observe function truthOwner accepted decision).countP (decided hashType outcome) =
      if decision.outcome = outcome then 1 else 0 := by
  simp only [hashTypes, List.mem_cons, List.not_mem_nil, or_false] at h
  obtain rfl | rfl | rfl := h
  all_goals
    by_cases houtcome : decision.outcome = outcome
    · simp [observe, hashValues, decided, houtcome]
    · simp [observe, hashValues, decided, houtcome]

/-- Recording decisions changes the categories and adds the observations of each. -/
theorem foldl_recordOutcome_eq : ∃ categoryCounts,
    decisions.foldl (recordOutcome function truthOwner accepted) tally = { tally with
      categoryCounts
      observations := tally.observations ++ decisions.flatMap (observe function truthOwner accepted) } := by
  induction decisions generalizing tally with
  | nil => exact ⟨tally.categoryCounts, by simp⟩
  | cons decision decisions ih =>
    obtain ⟨categoryCounts, hrest⟩ := @ih (recordOutcome function truthOwner accepted tally decision)
    refine ⟨categoryCounts, ?_⟩
    rw [List.foldl_cons, hrest, List.flatMap_cons, ← List.append_assoc, recordOutcome]

theorem countP_flatMap_observe (h : hashType ∈ hashTypes) :
    (decisions.flatMap (observe function truthOwner accepted)).countP (decided hashType outcome) =
      decisions.countP fun decision => decision.outcome = outcome := by
  induction decisions with
  | nil => rfl
  | cons decision decisions ih =>
    rw [List.flatMap_cons, List.countP_append, ih, countP_observe_decided h, List.countP_cons]
    simp only [decide_eq_true_eq]
    omega

/-- The owner decisions of a function are what the matrix counts for it. -/
theorem countOf_countMatrix (matrix : Matching.Matrix) :
    countOf (countMatrix owners truthOwner found matrix) outcome =
      countOf matrix outcome + (ownerOutcomes truthOwner found).countP fun decision => decision.outcome = outcome := by
  have hfalse : ∀ wrong : List String,
      (wrong.map fun owner => (⟨owner, .fp, firstMatch found owner⟩ : OwnerOutcome)).countP
        (fun decision => decision.outcome = outcome) = if outcome = .fp then wrong.length else 0 := by
    intro wrong
    rw [List.countP_map]
    by_cases h : outcome = .fp
    · subst h
      simp [Function.comp_def]
    · simp [Function.comp_def, Ne.symm h, h]
  rw [ownerOutcomes, List.countP_cons, hfalse, List.length_insertionSort]
  by_cases hrecovered : truthOwner ∈ acceptedOwners found
  · cases outcome <;> simp [countOf, countMatrix, hrecovered]
  · cases outcome <;> simp [countOf, countMatrix, hrecovered]

theorem Evidenced.step (h : Evidenced tally) (hstep : classifyFunction owners portable tally function = .ok tally') :
    Evidenced tally' := by
  cases hlabel : labelOf owners function with
  | none =>
    simp only [classifyFunction, hlabel, Checked.pure_eq_ok] at hstep
    subst hstep
    exact ⟨h.decided, h.positives, h.unlabelled⟩
  | some truthOwner =>
    simp only [classifyFunction, hlabel, Checked.bind_eq_ok, Checked.pure_eq_ok, countLabelled] at hstep
    obtain ⟨found, -, rfl⟩ := hstep
    obtain ⟨categoryCounts, hcounted⟩ := @foldl_recordOutcome_eq function truthOwner (acceptedOwners found).length
      (ownerOutcomes truthOwner found) { tally with
        matrix := countMatrix owners truthOwner found tally.matrix
        labelled := tally.labelled + 1
        basisCounts := bump tally.basisCounts function.truthBasis }
    rw [hcounted]
    refine ⟨fun hashType hmem outcome => ?_, ?_, fun hzero => absurd hzero (Nat.succ_ne_zero _)⟩
    · rw [List.countP_append, countP_flatMap_observe hmem, countOf_countMatrix, Nat.cast_add, h.decided hashType hmem]
    · have hpositives := h.positives
      by_cases hrecovered : truthOwner ∈ acceptedOwners found
      · simp only [countOf, countMatrix, hrecovered, if_true] at hpositives ⊢
        push_cast
        omega
      · simp only [countOf, countMatrix, hrecovered, if_false] at hpositives ⊢
        push_cast
        omega

/-- What a classification returns: the matrix counts the observations of each type. -/
structure Counted (classification : Classification) : Prop where
  decided : ∀ hashType ∈ hashTypes, ∀ outcome,
    (classification.observations.countP (decided hashType outcome) : ℤ) = countOf classification.confusionMatrix outcome
  positives : countOf classification.confusionMatrix .tp + countOf classification.confusionMatrix .fn =
    classification.labelledFunctions
  unlabelled : classification.labelledFunctions = 0 → classification.observations = []

theorem classifyMatches_counted {document : TruthDocument} {portable : Option (List (Matching.Decision OwnedMatch))}
    {classification : Classification} (h : classifyMatches document owners portable = .ok classification) :
    Counted classification := by
  simp only [classifyMatches, Checked.bind_eq_ok, Checked.pure_eq_ok] at h
  obtain ⟨-, -, decisions, -, -, -, tally, hrun, rfl⟩ := h
  have hinitial : Evidenced .initial := ⟨fun _ _ outcome => by cases outcome <;> rfl, rfl, fun _ => rfl⟩
  have hevidenced : Evidenced tally :=
    Checked.foldlM_invariant (fun _ _ _ _ hevidenced hstep => hevidenced.step hstep) hinitial hrun
  exact ⟨hevidenced.decided, hevidenced.positives, hevidenced.unlabelled⟩

end Outcomes

section Publication

/-- A campaign directory whose summaries have their classifications. -/
structure Evidence (a : Authorities) where
  directory : Directory
  retained : Case → Option Retained
  named : ∀ c, directory.summaries a.campaign.sourceRunId c = (retained c).map Retained.summary

def reported (matrix : Campaigns.Matrix) : Matching.Outcome → ℤ
  | .tp => matrix.truePositives
  | .fp => matrix.falsePositives
  | .fn => matrix.falseNegatives

variable (a : Authorities) (mode : Mode) (evidence : Evidence a)

/-- The hash evidence reconciles with the confusion matrix of the report. -/
structure Reconciled : Prop where
  owners : ∀ hashType ∈ hashTypes, ∀ outcome,
    total (fun row => row.2 (.decided outcome)) (ownersOf (publishHashEvidence a mode evidence.retained).1 hashType) =
      reported (aggregate a evidence.directory mode).confusionMatrix outcome
  values : ∀ hashType ∈ hashTypes, ∀ outcome,
    total (fun row => row.2.counts (.decided outcome))
        (populationOf (publishHashEvidence a mode evidence.retained).1 hashType) =
      reported (aggregate a evidence.directory mode).confusionMatrix outcome
  libraries : ∀ row ∈ (publishHashEvidence a mode evidence.retained).2,
    total (fun row => row.2.missedObservations) row.libraries =
        reported (aggregate a evidence.directory mode).confusionMatrix .fn ∧
      total (fun row => row.2.falsePositiveObservations) row.libraries =
        reported (aggregate a evidence.directory mode).confusionMatrix .fp ∧
      total (fun row => row.2.referenceObservations) row.libraries =
        reported (aggregate a evidence.directory mode).confusionMatrix .tp +
          reported (aggregate a evidence.directory mode).confusionMatrix .fp +
          reported (aggregate a evidence.directory mode).confusionMatrix .fn
  distinct : ∀ row ∈ (publishHashEvidence a mode evidence.retained).2,
    row.singletonValues + row.multiOwnerValues = row.distinctValues ∧
      total (fun row => (row.2.distinctValues : ℤ)) row.distribution = row.distinctValues
  links : ∀ row ∈ (publishHashEvidence a mode evidence.retained).2,
    row.ownerLinks = (ownersOf (publishHashEvidence a mode evidence.retained).1 row.hashType).length
  order : ∀ rows, rows.Perm (ownerRows (expectedCases a.campaign mode) evidence.retained) →
    (∀ key, (hashOwner rows).get? key = (publishHashEvidence a mode evidence.retained).1.get? key) ∧
      hashTypes.map (analysis (hashOwner rows)) = (publishHashEvidence a mode evidence.retained).2

/-- What the evidence of a case adds to an outcome. -/
def added (outcome : Matching.Outcome) (c : Case) : ℤ :=
  ((evidence.retained c).map fun retained => countOf retained.classification.confusionMatrix outcome).getD 0

def addedQualified (outcome : Matching.Outcome) (c : Case) : ℤ :=
  if (evidence.retained c).any fun retained => retained.summary.state = .qualified then added a evidence outcome c else 0

variable {a mode evidence} {hashType : String} {outcome : Matching.Outcome}

theorem Retained.counted (retained : Retained) : Counted retained.classification := by
  obtain ⟨document, owners, portable, h⟩ := retained.produced
  exact classifyMatches_counted h

theorem Retained.reported_eq (retained : Retained) (outcome : Matching.Outcome) :
    reported retained.summary.confusionMatrix outcome = countOf retained.classification.confusionMatrix outcome := by
  cases outcome with
  | tp => exact retained.truePositives
  | fn => exact retained.falseNegatives
  | fp => exact retained.falsePositives

theorem Retained.countOf_nonneg (retained : Retained) (outcome : Matching.Outcome) :
    0 ≤ countOf retained.classification.confusionMatrix outcome := by
  rw [← retained.counted.decided "full" (by decide)]
  exact Int.natCast_nonneg _

theorem reported_sum (matrices : List Campaigns.Matrix) :
    reported matrices.sum outcome = total (fun matrix => reported matrix outcome) matrices := by
  induction matrices with
  | nil => cases outcome <;> rfl
  | cons matrix matrices ih =>
    rw [total_cons, ← ih]
    cases outcome <;> rfl

/-- The report adds up the qualified cases. -/
theorem reported_aggregate : reported (aggregate a evidence.directory mode).confusionMatrix outcome =
    total (addedQualified a evidence outcome) (expectedCases a.campaign mode) := by
  rw [aggregate_confusionMatrix, reported_sum, total_map, qualifiedSummaries, total_filterMap]
  refine total_congr fun c _ => ?_
  rw [qualifiedSummary, evidence.named, addedQualified, added]
  cases evidence.retained c with
  | none => rfl
  | some retained =>
    by_cases hstate : retained.summary.state = .qualified
    · simp [Option.filter, hstate, retained.reported_eq]
    · simp [Option.filter, hstate]

/-- A column of the owners of a type adds up that column of the inserted rows. -/
theorem total_column (rows : List (Key × Counts)) (column : Column) :
    total (fun row => row.2 column) (ownersOf (hashOwner rows) hashType) =
      total (fun row => if row.1.hashType = hashType then row.2 column else 0) rows := by
  have htally := @Dict.total_tally _ _ _ _ rows
    (fun (key : Key) (counts : Counts) => if key.hashType = hashType then counts column else 0) (fun _ => ite_self 0)
    fun key x y => by by_cases htype : key.hashType = hashType <;> simp [htype]
  rw [← htally, ownersOf, total_filter, hashOwner]
  simp only [decide_eq_true_eq]

/-- The table of the owners adds up all cases that have a summary. -/
theorem total_ownersOf (h : hashType ∈ hashTypes) :
    total (fun row => row.2 (.decided outcome)) (ownersOf (publishHashEvidence a mode evidence.retained).1 hashType) =
      total (added a evidence outcome) (expectedCases a.campaign mode) := by
  rw [publishHashEvidence, total_column, ownerRows, total_flatMap]
  refine total_congr fun c _ => ?_
  rw [added]
  cases evidence.retained c with
  | none => rfl
  | some retained =>
    rw [Option.map_some, Option.getD_some, ← retained.counted.decided hashType h, total_map,
      List.countP_eq_length_filter, length_filter_eq_total]
    refine total_congr fun observation _ => ?_
    by_cases htype : observation.hashType = hashType <;> simp [ownerRow, counted, decided, htype]

theorem total_populationOf (h : hashType ∈ hashTypes) :
    total (fun row => row.2.counts (.decided outcome))
        (populationOf (publishHashEvidence a mode evidence.retained).1 hashType) =
      total (added a evidence outcome) (expectedCases a.campaign mode) :=
  (total_population (fun row => row.2 (.decided outcome)) (fun population => population.counts (.decided outcome))
    fun _ => rfl).trans (total_ownersOf h)

/-- Every observation has one of the three outcomes. -/
theorem total_observations (h : hashType ∈ hashTypes) :
    total (fun row => row.2 .observations) (ownersOf (publishHashEvidence a mode evidence.retained).1 hashType) =
      total (added a evidence .tp) (expectedCases a.campaign mode) +
        total (added a evidence .fp) (expectedCases a.campaign mode) +
        total (added a evidence .fn) (expectedCases a.campaign mode) := by
  have hrow : ∀ row ∈ ownerRows (expectedCases a.campaign mode) evidence.retained,
      row.2 .observations = row.2 (.decided .tp) + row.2 (.decided .fp) + row.2 (.decided .fn) := by
    intro row hrow
    obtain ⟨c, -, hrow⟩ := List.mem_flatMap.mp hrow
    cases hretained : evidence.retained c with
    | none => simp [hretained] at hrow
    | some retained =>
      rw [hretained] at hrow
      obtain ⟨observation, -, rfl⟩ := List.mem_map.mp hrow
      cases houtcome : observation.outcome <;> simp [ownerRow, counted, houtcome]
  rw [← total_ownersOf h, ← total_ownersOf h, ← total_ownersOf h, publishHashEvidence, total_column, total_column,
    total_column, total_column, ← total_add, ← total_add]
  refine total_congr fun row hmem => ?_
  by_cases htype : row.1.hashType = hashType <;> simp [htype, hrow row hmem]

/-- The report leaves out what a case adds that is not qualified. -/
theorem addedQualified_le (c : Case) : addedQualified a evidence outcome c ≤ added a evidence outcome c := by
  rw [addedQualified]
  split
  · exact le_rfl
  · rw [added]
    cases evidence.retained c with
    | none => exact le_rfl
    | some retained => exact retained.countOf_nonneg outcome

theorem addedQualified_eq_iff {c : Case} :
    (∀ outcome, addedQualified a evidence outcome c = added a evidence outcome c) ↔
      ∀ retained, evidence.retained c = some retained → retained.summary.state ≠ .qualified →
        retained.summary.labelledFunctions = 0 := by
  cases hretained : evidence.retained c with
  | none => simp [addedQualified, added, hretained]
  | some retained =>
    by_cases hstate : retained.summary.state = .qualified
    · simp [addedQualified, hretained, hstate]
    · have hcounted := retained.counted
      simp only [addedQualified, added, hretained, Option.any_some, hstate, decide_false, Bool.false_eq_true, if_false,
        Option.map_some, Option.getD_some, Option.some.injEq, forall_eq', ne_eq, not_false_eq_true, forall_const,
        retained.labelled]
      constructor
      · intro hzero
        have hpositives := hcounted.positives
        rw [← hzero .tp, ← hzero .fn] at hpositives
        omega
      · intro hlabelled outcome
        rw [← hcounted.decided "full" (by decide), hcounted.unlabelled hlabelled]
        rfl

/-- The evidence takes every summary and the report the qualified ones; they reconcile when the others have no
labelled function. -/
theorem reconciled_iff : Reconciled a mode evidence ↔
    ∀ c ∈ expectedCases a.campaign mode, ∀ retained, evidence.retained c = some retained →
      retained.summary.state ≠ .qualified → retained.summary.labelledFunctions = 0 := by
  have hsame (outcome : Matching.Outcome) : (reported (aggregate a evidence.directory mode).confusionMatrix outcome =
      total (added a evidence outcome) (expectedCases a.campaign mode)) ↔
      ∀ c ∈ expectedCases a.campaign mode, addedQualified a evidence outcome c = added a evidence outcome c := by
    rw [reported_aggregate, total_eq_total_iff fun c _ => addedQualified_le c]
  have hcases : (∀ outcome, reported (aggregate a evidence.directory mode).confusionMatrix outcome =
      total (added a evidence outcome) (expectedCases a.campaign mode)) ↔
      ∀ c ∈ expectedCases a.campaign mode, ∀ retained, evidence.retained c = some retained →
        retained.summary.state ≠ .qualified → retained.summary.labelledFunctions = 0 := by
    simp only [hsame, ← addedQualified_eq_iff]
    exact ⟨fun h c hc outcome => h outcome c hc, fun h outcome c hc => h c hc outcome⟩
  rw [← hcases]
  refine ⟨fun h outcome => ?_, fun h =>
    ⟨fun hashType hmem outcome => ?_, fun hashType hmem outcome => ?_, ?_, ?_, ?_, ?_⟩⟩
  · rw [← h.owners "full" (by decide), total_ownersOf (by decide)]
  · rw [total_ownersOf hmem, h]
  · rw [total_populationOf hmem, h]
  · intro row hrow
    obtain ⟨hashType, hmem, rfl⟩ := List.mem_map.mp hrow
    refine ⟨?_, ?_, ?_⟩
    · rw [h, ← total_ownersOf hmem]
      exact total_libraries (fun row => row.2 (.decided .fn)) _ fun _ => rfl
    · rw [h, ← total_ownersOf hmem]
      exact total_libraries (fun row => row.2 (.decided .fp)) _ fun _ => rfl
    · rw [h, h, h, ← total_observations hmem]
      exact total_libraries (fun row => row.2 .observations) _ fun _ => rfl
  · intro row hrow
    obtain ⟨hashType, -, rfl⟩ := List.mem_map.mp hrow
    exact ⟨singleton_add_multiOwner _ _, total_distribution _ _⟩
  · intro row hrow
    obtain ⟨hashType, -, rfl⟩ := List.mem_map.mp hrow
    exact ownerLinks_eq _ _
  · intro rows hperm
    have hget : ∀ key, (hashOwner rows).get? key = (publishHashEvidence a mode evidence.retained).1.get? key :=
      fun key => Tally.get?_tally_perm hperm key
    exact ⟨hget, List.map_congr_left fun hashType _ => analysis_congr hget⟩

end Publication

namespace Differing

open Rerun

def found : List OwnedMatch := [⟨"zlib@1", "main"⟩, ⟨"xz@5", "main"⟩]

/-- The backend differs from the oracle in one decision. -/
def execution : Execution := ⟨none, "population", ⟨1, 1, 0, 0⟩, 1, 0, 1⟩

theorem classified : ∃ classification,
    classifyMatches (TwoOwners.document found) TwoOwners.owners none = .ok classification ∧
      classification.confusionMatrix = ⟨1, 1, 0, 0⟩ ∧ classification.labelledFunctions = 1 :=
  ⟨_, rfl, by decide, rfl⟩

/-- The evidence of a case whose summary is a mismatch counts its function, and the report does not. -/
theorem differing_unreconciled : ∃ evidence : Evidence (authorities "first"),
    (∀ c, evidence.directory.summaries "run" c =
      if c = unit then some (qualifyRetainedValidation (authorities "first") unit execution) else none) ∧
      ¬ Reconciled (authorities "first") .canary evidence := by
  obtain ⟨classification, hclassified, hmatrix, hlabelled⟩ := classified
  let retained : Retained := {
    summary := qualifyRetainedValidation (authorities "first") unit execution
    scope := ⟨some "linux", some "elf", some "x86:LE:64:default", some "gcc"⟩
    classification
    produced := ⟨_, _, _, hclassified⟩
    truePositives := by rw [hmatrix]; rfl
    falsePositives := by rw [hmatrix]; rfl
    falseNegatives := by rw [hmatrix]; rfl
    labelled := by rw [hlabelled]; rfl }
  let evidence : Evidence (authorities "first") := {
    directory := { emptyDirectory with summaries := fun _ c => if c = unit then some retained.summary else none }
    retained := fun c => if c = unit then some retained else none
    named := fun c => by by_cases hc : c = unit <;> simp [hc] }
  refine ⟨evidence, fun _ => rfl, fun h => ?_⟩
  have howners := h.owners "full" (by decide) .tp
  have hadded : added (authorities "first") evidence .tp unit = 1 := by simp [added, evidence, retained, hmatrix, countOf]
  have hreported : addedQualified (authorities "first") evidence .tp unit = 0 := rfl
  have hcases : expectedCases (authorities "first").campaign .canary = [unit] := rfl
  rw [total_ownersOf (by decide), reported_aggregate, hcases, total_cons, total_cons, hadded, hreported] at howners
  cases howners

end Differing

end FidbPoc.Campaigns.HashEvidence
