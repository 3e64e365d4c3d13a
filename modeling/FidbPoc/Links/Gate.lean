import FidbPoc.Links.Report
import Mathlib.Data.List.Nodup

namespace FidbPoc.Links

open Lib Lib.Checked

section Slices

/-- The slices of a list make up the list. -/
theorem flatten_batches {α : Type} {size : Nat} (hsize : 0 < size) (xs : List α) : (batches size xs).flatten = xs := by
  have htaken (k : Nat) : ((List.range k).map fun i => (xs.drop (i * size)).take size).flatten = xs.take (k * size) := by
    induction k with
    | zero => simp
    | succ k ih =>
      rw [List.range_succ, List.map_append, List.flatten_append, ih, Nat.succ_mul, List.take_add]
      simp
  unfold batches
  rw [htaken]
  apply List.take_of_length_le
  have hdiv := Nat.div_add_mod (xs.length + size - 1) size
  have hmod := Nat.mod_lt (xs.length + size - 1) hsize
  rw [Nat.mul_comm] at hdiv
  omega

end Slices

section Attempts

variable {attempts : List Attempt} {row : Attempt} {id : String}

theorem cell_id_ne (cell : Cell) : cell.id ≠ "" := by
  intro h
  have hlength := congrArg String.length h
  cases hfold : cell.fold <;> simp [Cell.id, hfold, Fold.text, toString] at hlength

theorem latestAttempt_concat (hrow : row.id ≠ "") (id : String) :
    latestAttempt (attempts ++ [row]) id = if row.id = id then some row else latestAttempt attempts id := by
  unfold latestAttempt listedAttempts
  have hlisted : [row].filter (fun row => row.id ≠ "") = [row] := List.filter_eq_self.mpr (by simpa using hrow)
  rw [List.filter_append, hlisted, List.reverse_append, List.reverse_singleton, List.singleton_append, List.find?_cons]
  by_cases hid : row.id = id <;> simp [hid]

theorem mem_of_latestAttempt (h : latestAttempt attempts id = some row) : row ∈ attempts ∧ row.id = id := by
  have hid : row.id = id := by simpa using List.find?_some h
  have hmem := List.mem_reverse.mp (List.mem_of_find?_eq_some h)
  exact ⟨List.mem_of_mem_filter hmem, hid⟩

theorem isQualified_iff {cell : Cell} :
    isQualified attempts cell = true ↔ ∃ row, latestAttempt attempts cell.id = some row ∧ row.outcome.isQualified = true := by
  unfold isQualified
  exact Option.any_eq_true _ _

end Attempts

section Summaries

variable {plan : Plan} {project : Project plan} {attempts : List Attempt} {report report' : Report}

def AllQualified (plan : Plan) (attempts : List Attempt) : Prop := ∀ cell ∈ plan.cells, isQualified attempts cell = true

theorem countQualified_eq_length : countQualified plan attempts = plan.cells.length ↔ AllQualified plan attempts :=
  List.countP_eq_length

theorem cellOutput_ok {cell : Cell} (h : isQualified attempts cell = true) : ∃ output, cellOutput attempts cell = .ok output := by
  obtain ⟨row, hrow, houtcome⟩ := isQualified_iff.mp h
  unfold cellOutput sealedOutput
  rw [hrow]
  cases hcase : row.outcome with
  | qualified => simp [hcase]
  | failed => simp [hcase, Outcome.isQualified] at houtcome

theorem sealBody_ok (h : AllQualified plan attempts) : ∃ body, sealBody plan attempts = .ok body := by
  obtain ⟨outputs, houtputs⟩ := mapM_total fun cell hcell => cellOutput_ok (h cell hcell)
  unfold sealBody
  rw [houtputs]
  exact ⟨_, rfl⟩

theorem summarize_ok (project : Project plan) (report : Report) : ∃ report', summarize project report = .ok report' := by
  unfold summarize
  simp only
  split
  · rename_i hcount
    obtain ⟨body, hbody⟩ := sealBody_ok (countQualified_eq_length.mp hcount)
    rw [hbody]
    exact ⟨_, rfl⟩
  · exact ⟨_, rfl⟩

/-- What a summary leaves as it was, and what it makes of the rest. -/
theorem summarize_cases (h : summarize project report = .ok report') :
    report'.identity = report.identity ∧ report'.attempts = report.attempts ∧
      report'.circuitBreaker = report.circuitBreaker ∧ report'.summary = summaryOf plan report.attempts ∧
      summarize project report' = .ok report' := by
  unfold summarize at h ⊢
  simp only at h
  split at h
  · rename_i hcount
    obtain ⟨body, hbody, h⟩ := bind_eq_ok.mp h
    obtain rfl := Except.ok.inj h
    refine ⟨rfl, rfl, rfl, rfl, ?_⟩
    simp [hcount, hbody]
  · rename_i hcount
    obtain rfl := Except.ok.inj h
    refine ⟨rfl, rfl, rfl, rfl, ?_⟩
    simp [hcount]
    rfl

/-- Every row is of a cell, and a qualified one names the marker of the cell. -/
def RowsOf (plan : Plan) (attempts : List Attempt) : Prop :=
  ∀ row ∈ attempts, ∃ cell ∈ plan.cells, row.id = cell.id ∧
    ∀ preparedPath truthSha256 querySha256 linkAuditSha256,
      row.outcome = .qualified preparedPath truthSha256 querySha256 linkAuditSha256 → preparedPath = preparedFoldPath plan cell

/-- A report as the runs of the plan write it. -/
structure Consistent (project : Project plan) (report : Report) : Prop where
  identity : report.identity = plan.identity
  rows : RowsOf plan report.attempts
  summarized : summarize project report = .ok report

theorem Consistent.qualified_iff (h : Consistent project report) :
    report.state = .qualified ↔ AllQualified plan report.attempts := by
  have hsummarized := h.summarized
  unfold summarize at hsummarized
  simp only at hsummarized
  split at hsummarized
  · rename_i hcount
    obtain ⟨body, -, hreport⟩ := bind_eq_ok.mp hsummarized
    have hstate := congrArg Report.state (Except.ok.inj hreport)
    exact ⟨fun _ => countQualified_eq_length.mp hcount, fun _ => hstate.symm⟩
  · rename_i hcount
    have hstate := congrArg Report.state (Except.ok.inj hsummarized)
    refine ⟨fun hqualified => ?_, fun hall => absurd (countQualified_eq_length.mpr hall) hcount⟩
    rw [← hstate] at hqualified
    simp only [unsealedState] at hqualified
    split at hqualified
    · cases hqualified
    · split at hqualified <;> cases hqualified

/-- The seal of a report of which every cell is qualified is the one expected. -/
theorem Consistent.sealed (h : Consistent project report) (hall : AllQualified plan report.attempts) :
    ∃ digest, expectedSeal project report = .ok (some digest) ∧ isSealed report (some digest) = true := by
  have hcount := countQualified_eq_length.mpr hall
  obtain ⟨body, hbody⟩ := sealBody_ok hall
  have hsummarized := h.summarized
  have hsummary := (summarize_cases h.summarized).2.2.2.1
  refine ⟨project.canonicalDigest body, ?_, ?_⟩
  · unfold expectedSeal
    rw [hsummary, if_pos (by exact hcount), hbody]
    rfl
  · unfold summarize at hsummarized
    simp only at hsummarized
    rw [if_pos (by exact hcount), hbody] at hsummarized
    have hsealing := congrArg Report.sealing (Except.ok.inj hsummarized)
    unfold isSealed
    rw [← hsealing]
    simp

end Summaries

section Gate

variable {plan : Plan} {project : Project plan} {report : Report} {outputs : Outputs}

/-- The marker, the binaries it names and its audit are the recorded ones. -/
def Recorded (project : Project plan) (cell : Cell) (files : Files) (outcome : Outcome) : Prop :=
  ∃ preparedPath truthSha256 querySha256 linkAuditSha256 path prepared truth query linkAudit,
    outcome = .qualified preparedPath truthSha256 querySha256 linkAuditSha256 ∧
      project.inside (.str preparedPath) = some path ∧
      loadPreparedFold project cell files path = .ok (some prepared) ∧
      namedBinary project files prepared "truth_binary" = some truth ∧ (Json.str truth.sha256).same truthSha256 = true ∧
      namedBinary project files prepared "query_binary" = some query ∧ (Json.str query.sha256).same querySha256 = true ∧
      prepared.get? "link_audit" = some linkAudit ∧ project.canonicalDigest linkAudit = linkAuditSha256

/-- The latest attempt of the cell is qualified, and what it recorded stands there. -/
def Verified (project : Project plan) (outputs : Outputs) (attempts : List Attempt) (cell : Cell) : Prop :=
  ∃ row, latestAttempt attempts cell.id = some row ∧ Recorded project cell (outputs cell.id) row.outcome

theorem field_eq_ok {fields : Json.Fields} {key : String} {value : Json} :
    field fields key = .ok value ↔ fields.get? key = some value := by
  unfold field
  cases fields.get? key <;> simp

theorem sameOutput_eq_ok {files : Files} {prepared : Json.Fields} {truthSha256 querySha256 : Json}
    {linkAuditSha256 : String} : sameOutput project files prepared truthSha256 querySha256 linkAuditSha256 = .ok true ↔
      ∃ truth query linkAudit,
        namedBinary project files prepared "truth_binary" = some truth ∧ (Json.str truth.sha256).same truthSha256 = true ∧
        namedBinary project files prepared "query_binary" = some query ∧ (Json.str query.sha256).same querySha256 = true ∧
        prepared.get? "link_audit" = some linkAudit ∧ project.canonicalDigest linkAudit = linkAuditSha256 := by
  unfold sameOutput
  cases namedBinary project files prepared "truth_binary" with
  | none => simp
  | some truth =>
    cases namedBinary project files prepared "query_binary" with
    | none => simp
    | some query =>
      simp only [Option.some.injEq, exists_and_left, exists_eq_left']
      by_cases hsame : (Json.str truth.sha256).same truthSha256 = true ∧ (Json.str query.sha256).same querySha256 = true
      · simp [hsame.1, hsame.2, map_eq_ok, field_eq_ok]
      · have hdiffer : ((Json.str truth.sha256).same truthSha256 && (Json.str query.sha256).same querySha256) = false := by
          simpa using hsame
        rw [hdiffer]
        constructor
        · exact fun h => by cases h
        · rintro ⟨htruth, hquery, -⟩
          exact absurd ⟨htruth, hquery⟩ hsame

theorem verifyOutput_eq_ok {cell : Cell} {files : Files} {outcome : Outcome} (hqualified : outcome.isQualified = true)
    (hpath : ∀ preparedPath truthSha256 querySha256 linkAuditSha256,
      outcome = .qualified preparedPath truthSha256 querySha256 linkAuditSha256 → preparedPath ≠ "") :
    verifyOutput project cell files outcome = .ok true ↔ Recorded project cell files outcome := by
  cases outcome with
  | failed => cases hqualified
  | qualified preparedPath truthSha256 querySha256 linkAuditSha256 =>
    have hne := hpath preparedPath truthSha256 querySha256 linkAuditSha256 rfl
    constructor
    · intro h
      simp only [verifyOutput, if_neg hne] at h
      split at h
      · cases h
      · rename_i path hinside
        obtain ⟨found, hfound, h⟩ := bind_eq_ok.mp h
        cases found with
        | none => cases h
        | some prepared =>
          obtain ⟨truth, query, linkAudit, hsame⟩ := sameOutput_eq_ok.mp h
          exact ⟨_, _, _, _, path, prepared, truth, query, linkAudit, rfl, hinside, hfound, hsame⟩
    · rintro ⟨_, _, _, _, path, prepared, truth, query, linkAudit, houtcome, hinside, hfound, hsame⟩
      cases houtcome
      simp only [verifyOutput, if_neg hne, hinside, hfound]
      exact sameOutput_eq_ok.mpr ⟨truth, query, linkAudit, hsame⟩

theorem foldPath_ne (plan : Plan) (cell : Cell) (name : String) : foldPath plan cell name ≠ "" := by
  intro h
  have hlength := congrArg String.length h
  simp [foldPath, toString] at hlength

theorem expectedSeal_some {digest : String} (h : expectedSeal project report = .ok (some digest)) :
    report.summary.qualified = plan.cells.length := by
  unfold expectedSeal at h
  split at h
  · assumption
  · cases h

/-- The gate of a report that stands for its attempts. -/
theorem gate_of_qualified {digest : String} (h : Consistent project report) (hall : AllQualified plan report.attempts)
    (hsealed : isSealed report (some digest) = true) :
    gate plan report 0 (some digest) = ⟨"qualified", report.summary, true, some digest, []⟩ := by
  have hsummary := (summarize_cases h.summarized).2.2.2.1
  have hfailed : countFailed plan report.attempts = 0 := by
    refine List.countP_eq_zero.mpr fun cell hcell => ?_
    obtain ⟨row, hrow, houtcome⟩ := isQualified_iff.mp (hall cell hcell)
    simp [hrow, houtcome]
  have hremaining : (summaryOf plan report.attempts).remaining = 0 := by
    simp [summaryOf, hfailed, countQualified_eq_length.mpr hall]
  have hblockers : summaryBlockers report.summary 0 = [] := by
    rw [hsummary, summaryBlockers, if_pos rfl, if_pos (by exact hfailed), if_pos hremaining]
    rfl
  simp [gate, hsealed, hblockers]

theorem Consistent.expected (h : Consistent project report) :
    ((listedAttempts report.attempts).any fun row => row.id ∉ plan.cells.map Cell.id) = false := by
  refine List.any_eq_false.mpr fun row hrow => ?_
  obtain ⟨cell, hcell, hid, -⟩ := h.rows row (List.mem_of_mem_filter hrow)
  simpa [hid] using ⟨cell, hcell, rfl⟩

theorem Consistent.latest (h : Consistent project report) {cell : Cell} (hcell : cell ∈ plan.cells) {row : Attempt}
    (hrow : latestAttempt report.attempts cell.id = some row) :
    ∀ preparedPath truthSha256 querySha256 linkAuditSha256,
      row.outcome = .qualified preparedPath truthSha256 querySha256 linkAuditSha256 → preparedPath = preparedFoldPath plan cell := by
  obtain ⟨hmem, hid⟩ := mem_of_latestAttempt hrow
  obtain ⟨cell', hcell', hid', hpath⟩ := h.rows row hmem
  obtain rfl : cell' = cell := List.inj_on_of_nodup_map plan.ids hcell' hcell (hid'.symm.trans hid)
  exact hpath

theorem Consistent.verifyCell_eq_ok (h : Consistent project report) {cell : Cell} (hcell : cell ∈ plan.cells) {row : Attempt}
    (hrow : latestAttempt report.attempts cell.id = some row) (hqualified : row.outcome.isQualified = true) :
    verifyCell project outputs report.attempts cell = .ok true ↔ Recorded project cell (outputs cell.id) row.outcome := by
  unfold verifyCell
  rw [hrow]
  refine verifyOutput_eq_ok hqualified fun preparedPath _ _ _ houtcome => ?_
  rw [h.latest hcell hrow _ _ _ _ houtcome]
  exact foldPath_ne plan cell _

theorem Recorded.isQualified {cell : Cell} {files : Files} {outcome : Outcome} (h : Recorded project cell files outcome) :
    outcome.isQualified = true := by
  obtain ⟨_, _, _, _, _, _, _, _, _, rfl, -⟩ := h
  rfl

theorem Consistent.status_eq (h : Consistent project report) : linkQualificationStatus project outputs (some report) =
    (plan.cells.mapM (verifyCell project outputs report.attempts) >>= fun verified =>
      expectedSeal project report >>= fun expected => pure (gate plan report (verified.count false) expected)) := by
  simp only [linkQualificationStatus, h.identity, ne_eq, not_true_eq_false, if_false, h.expected, Bool.false_eq_true]

/-- A report of which every cell is verified satisfies the gate. -/
theorem status_of_verified (h : Consistent project report)
    (hverified : ∀ cell ∈ plan.cells, Verified project outputs report.attempts cell) :
    ∃ digest, linkQualificationStatus project outputs (some report) =
        .ok ⟨"qualified", report.summary, true, some digest, []⟩ ∧ isSealed report (some digest) = true := by
  have hall : AllQualified plan report.attempts := by
    intro cell hcell
    obtain ⟨row, hrow, hrecorded⟩ := hverified cell hcell
    exact isQualified_iff.mpr ⟨row, hrow, hrecorded.isQualified⟩
  have hcells : plan.cells.mapM (verifyCell project outputs report.attempts) = .ok (plan.cells.map fun _ => true) := by
    refine mapM_of_ok fun cell hcell => ?_
    obtain ⟨row, hrow, hrecorded⟩ := hverified cell hcell
    exact (h.verifyCell_eq_ok hcell hrow hrecorded.isQualified).mpr hrecorded
  have hcount : (plan.cells.map fun _ => true).count false = 0 := List.count_eq_zero.mpr (by simp)
  obtain ⟨digest, hexpected, hsealed⟩ := h.sealed hall
  refine ⟨digest, ?_, hsealed⟩
  rw [h.status_eq, hcells, hexpected, ok_bind, ok_bind, hcount, gate_of_qualified h hall hsealed]
  rfl

theorem gate_satisfied {invalidOutputs : Nat} {expected : Option String}
    (h : (gate plan report invalidOutputs expected).satisfied = true) : invalidOutputs = 0 ∧ ∃ digest, expected = some digest := by
  simp only [gate, Bool.and_eq_true, List.isEmpty_iff, List.append_eq_nil_iff] at h
  obtain ⟨⟨hsummary, -⟩, hsealed⟩ := h
  refine ⟨?_, ?_⟩
  · simp only [summaryBlockers, List.append_eq_nil_iff] at hsummary
    by_contra hne
    simp [if_neg hne] at hsummary
  · unfold isSealed at hsealed
    obtain ⟨sealing, -, hdigest⟩ := (Option.any_eq_true _ _).mp hsealed
    simp only [Bool.decide_and, Bool.and_eq_true, decide_eq_true_eq] at hdigest
    exact ⟨_, hdigest.2.symm⟩

/-- The gate is satisfied only by cells that are verified. -/
theorem verified_of_satisfied (h : Consistent project report) {status : Status}
    (hstatus : linkQualificationStatus project outputs (some report) = .ok status) (hsatisfied : status.satisfied = true) :
    ∀ cell ∈ plan.cells, Verified project outputs report.attempts cell := by
  rw [h.status_eq] at hstatus
  obtain ⟨verified, hverified, hstatus⟩ := bind_eq_ok.mp hstatus
  obtain ⟨expected, hexpected, hstatus⟩ := bind_eq_ok.mp hstatus
  obtain rfl := Except.ok.inj hstatus
  obtain ⟨hcount, digest, rfl⟩ := gate_satisfied hsatisfied
  have hqualified := expectedSeal_some hexpected
  rw [(summarize_cases h.summarized).2.2.2.1] at hqualified
  have hall := countQualified_eq_length.mp hqualified
  intro cell hcell
  obtain ⟨row, hrow, houtcome⟩ := isQualified_iff.mp (hall cell hcell)
  obtain ⟨value, hvalue, hok⟩ := mapM_mem hverified cell hcell
  have htrue : value = true := by
    have hne : value ≠ false := fun hfalse => List.count_eq_zero.mp hcount (hfalse ▸ hvalue)
    simpa using hne
  exact ⟨row, hrow, (h.verifyCell_eq_ok hcell hrow houtcome).mp (htrue ▸ hok)⟩

end Gate

section Preparing

variable {plan : Plan} {project : Project plan} {toolchain : Toolchain} {cell : Cell} {files : Files}

/-- The preparation of the cell goes through. -/
def Prepares (project : Project plan) (toolchain : Toolchain) (files : Files) (cell : Cell) : Prop :=
  (qualifyPosition project toolchain cell files).2.outcome.isQualified = true

/-- A marker that would be taken over records the binaries that stand there. -/
def MarkerHolds (project : Project plan) (files : Files) (cell : Cell) : Prop :=
  ∀ prepared, loadPreparedFold project cell files (preparedFoldPath plan cell) = .ok (some prepared) →
    ∀ key ∈ [("truth_binary", "truth_sha256"), ("query_binary", "query_sha256")],
      ∀ file, namedBinary project files prepared key.1 = some file →
        ∀ digest, prepared.get? key.2 = some digest → (Json.str file.sha256).same digest = true

theorem preparedRow_eq_ok {outcome : Outcome} : preparedRow project cell files = .ok outcome ↔
    ∃ prepared truthSha256 querySha256 linkAudit,
      loadPreparedFold project cell files (preparedFoldPath plan cell) = .ok (some prepared) ∧
        prepared.get? "truth_sha256" = some truthSha256 ∧ prepared.get? "query_sha256" = some querySha256 ∧
        prepared.get? "link_audit" = some linkAudit ∧
        outcome = .qualified (preparedFoldPath plan cell) truthSha256 querySha256 (project.canonicalDigest linkAudit) := by
  unfold preparedRow
  simp only [bind_eq_ok]
  constructor
  · rintro ⟨found, hfound, h⟩
    cases found with
    | none => cases h
    | some prepared =>
      simp only [bind_eq_ok, field_eq_ok, pure_eq_ok] at h
      obtain ⟨truthSha256, htruth, querySha256, hquery, linkAudit, haudit, houtcome⟩ := h
      exact ⟨prepared, truthSha256, querySha256, linkAudit, hfound, htruth, hquery, haudit, houtcome.symm⟩
  · rintro ⟨prepared, truthSha256, querySha256, linkAudit, hfound, htruth, hquery, haudit, rfl⟩
    refine ⟨some prepared, hfound, ?_⟩
    simp only [bind_eq_ok, field_eq_ok, pure_eq_ok]
    exact ⟨truthSha256, htruth, querySha256, hquery, linkAudit, haudit, rfl⟩

theorem outcomeOf_qualified {prepared : Files × Option Fault} : (outcomeOf project cell prepared).isQualified = true ↔
    prepared.2 = none ∧ preparedRow project cell prepared.1 = .ok (outcomeOf project cell prepared) := by
  obtain ⟨after, fault⟩ := prepared
  unfold outcomeOf
  cases fault with
  | some fault => simp [failedOutcome, Outcome.isQualified]
  | none =>
    simp only [true_and]
    cases hrow : preparedRow project cell after with
    | error fault => simp [failedOutcome, Outcome.isQualified]
    | ok outcome =>
      obtain ⟨_, _, _, _, -, -, -, -, rfl⟩ := preparedRow_eq_ok.mp hrow
      simp [Outcome.isQualified]

theorem linkFold_cases {format : String} (h : (linkFold project cell files toolchain format).2 = none) :
    ∃ stripped linkAudit prepared, preparedDocument plan cell stripped format linkAudit = .ok prepared ∧
      (linkFold project cell files toolchain format).1 =
        writeJson project stripped (preparedFoldPath plan cell) prepared := by
  unfold linkFold at h ⊢
  simp only at h ⊢
  split at h
  · cases h
  · rename_i hlink
    split at h
    · cases h
    · rename_i linkAudit haudit
      split at h
      · cases h
      · rename_i hstrip
        split at h
        · cases h
        · rename_i prepared hprepared
          exact ⟨_, linkAudit, prepared, hprepared, rfl⟩

/-- A preparation that goes through takes the fold's files as they are, or links them anew. -/
theorem preparePosition_cases (h : (preparePosition project cell files toolchain "full").2 = none) :
    (preparePosition project cell files toolchain "full").1 = files ∨
      loadPreparedFold project cell files (preparedFoldPath plan cell) = .ok none ∧
        ∃ stripped format linkAudit prepared, preparedDocument plan cell stripped format linkAudit = .ok prepared ∧
          (preparePosition project cell files toolchain "full").1 =
            writeJson project stripped (preparedFoldPath plan cell) prepared := by
  unfold preparePosition at h ⊢
  split
  · exact .inl rfl
  · rename_i format hformat
    simp only [hformat] at h
    split
    · exact .inl rfl
    · exact .inl rfl
    · rename_i hcheckpoint
      simp only [hcheckpoint] at h
      split
      · exact .inl rfl
      · rename_i harchives
        simp only [harchives] at h
        unfold prepareFold at h ⊢
        split
        · exact .inl rfl
        · exact .inl rfl
        · rename_i hload
          simp only [hload] at h
          obtain ⟨stripped, linkAudit, prepared, hprepared, hwritten⟩ := linkFold_cases h
          exact .inr ⟨hload, stripped, format, linkAudit, prepared, hprepared, hwritten⟩

theorem loadPreparedFold_eq_some {path : String} {prepared : Json.Fields}
    (h : loadPreparedFold project cell files path = .ok (some prepared)) :
    readFields (files path) = .ok (some prepared) ∧ (namedBinary project files prepared "truth_binary").isSome = true ∧
      (namedBinary project files prepared "query_binary").isSome = true := by
  unfold loadPreparedFold at h
  obtain ⟨document, hdocument, hfilter⟩ := map_eq_ok.mp h
  obtain ⟨rfl, hkept⟩ := Option.filter_eq_some_iff.mp hfilter
  simp only [Bool.and_eq_true] at hkept
  exact ⟨hdocument, hkept.1.2, hkept.2⟩

/-- The row of a marker is verified where the marker records the present binaries. -/
theorem recorded_iff_markerHolds (hcell : cell ∈ plan.cells) {outcome : Outcome}
    (h : preparedRow project cell files = .ok outcome) :
    Recorded project cell files outcome ↔ MarkerHolds project files cell := by
  obtain ⟨prepared, truthSha256, querySha256, linkAudit, hload, htruth, hquery, haudit, rfl⟩ := preparedRow_eq_ok.mp h
  constructor
  · rintro ⟨_, _, _, _, path, prepared', truth, query, _, houtcome, hinside, hload', htruthFile, hsameTruth, hqueryFile,
      hsameQuery, -⟩ prepared'' hload'' key hkey file hfile digest hdigest
    cases houtcome
    obtain rfl := Option.some.inj (hinside.symm.trans (project.own cell hcell _))
    obtain rfl := Option.some.inj (Except.ok.inj (hload.symm.trans hload'))
    obtain rfl := Option.some.inj (Except.ok.inj (hload.symm.trans hload''))
    rcases hkey with - | ⟨-, - | ⟨-, hkey⟩⟩
    · obtain rfl := Option.some.inj (hfile.symm.trans htruthFile)
      obtain rfl := Option.some.inj (hdigest.symm.trans htruth)
      exact hsameTruth
    · obtain rfl := Option.some.inj (hfile.symm.trans hqueryFile)
      obtain rfl := Option.some.inj (hdigest.symm.trans hquery)
      exact hsameQuery
    · cases hkey
  · intro hholds
    obtain ⟨-, htruthSome, hquerySome⟩ := loadPreparedFold_eq_some hload
    obtain ⟨truth, htruthFile⟩ := Option.isSome_iff_exists.mp htruthSome
    obtain ⟨query, hqueryFile⟩ := Option.isSome_iff_exists.mp hquerySome
    have hsameTruth := hholds prepared hload _ List.mem_cons_self truth htruthFile _ htruth
    have hsameQuery := hholds prepared hload _ (List.mem_cons_of_mem _ List.mem_cons_self) query hqueryFile _ hquery
    exact ⟨_, _, _, _, _, prepared, truth, query, linkAudit, rfl, project.own cell hcell _, hload, htruthFile, hsameTruth,
      hqueryFile, hsameQuery, haudit, rfl⟩

theorem foldPath_inj {plan : Plan} {cell : Cell} {name name' : String} :
    foldPath plan cell name = foldPath plan cell name' ↔ name = name' := String.append_right_inj _

theorem same_str (text : String) : (Json.str text).same (.str text) = true := by
  simp [Json.same, Json.isText, Json.str?]

theorem sha256_eq_ok {path digest : String} : sha256 files path = .ok digest ↔ ∃ file, files path = some file ∧ file.sha256 = digest := by
  unfold sha256
  cases files path <;> simp

theorem preparedDocument_fields {format : String} {linkAudit : Json} {prepared : Json.Fields}
    (h : preparedDocument plan cell files format linkAudit = .ok prepared) : ∃ truth query,
      files (truthPath plan cell format) = some truth ∧ files (queryPath plan cell format) = some query ∧
        prepared.get? "truth_binary" = some (.str (truthPath plan cell format)) ∧
        prepared.get? "truth_sha256" = some (.str truth.sha256) ∧
        prepared.get? "query_binary" = some (.str (queryPath plan cell format)) ∧
        prepared.get? "query_sha256" = some (.str query.sha256) := by
  unfold preparedDocument at h
  simp only [bind_eq_ok, pure_eq_ok, sha256_eq_ok] at h
  obtain ⟨_, ⟨truth, htruth, rfl⟩, _, ⟨query, hquery, rfl⟩, rfl⟩ := h
  refine ⟨truth, query, htruth, hquery, ?_⟩
  simp [Json.Fields.get?, preparedIdentity, identity]

theorem namedBinary_own (hcell : cell ∈ plan.cells) {fields written : Json.Fields} {key name : String}
    (hfield : fields.get? key = some (.str (foldPath plan cell name))) (hname : name ≠ "prepared.json") :
    namedBinary project (writeJson project files (preparedFoldPath plan cell) written) fields key =
      files (foldPath plan cell name) := by
  unfold namedBinary
  rw [hfield, Option.bind_some, project.own cell hcell name, Option.bind_some]
  exact if_neg fun h => hname (foldPath_inj.mp h)

/-- A marker that was just written records its binaries. -/
theorem markerHolds_linked (hcell : cell ∈ plan.cells) {stripped : Files} {format : String} {linkAudit : Json}
    {prepared : Json.Fields} (hprepared : preparedDocument plan cell stripped format linkAudit = .ok prepared) :
    MarkerHolds project (writeJson project stripped (preparedFoldPath plan cell) prepared) cell := by
  intro prepared' hload key hkey file hfile digest hdigest
  have hread := (loadPreparedFold_eq_some hload).1
  simp only [writeJson, if_true, readFields, Json.fields?] at hread
  obtain rfl := Option.some.inj (Except.ok.inj hread)
  obtain ⟨truth, query, htruth, hquery, htruthBinary, htruthSha256, hqueryBinary, hquerySha256⟩ :=
    preparedDocument_fields hprepared
  have hsuffix (stem : String) (hstem : ∀ s ∈ [".dll", ".elf"], stem ++ s ≠ "prepared.json") :
      stem ++ suffix format ≠ "prepared.json" := by
    unfold suffix
    split <;> exact hstem _ (by simp)
  rcases hkey with - | ⟨-, - | ⟨-, hkey⟩⟩
  · rw [namedBinary_own hcell htruthBinary (hsuffix "truth" (by decide))] at hfile
    obtain rfl := Option.some.inj (hfile.symm.trans htruth)
    obtain rfl := Option.some.inj (hdigest.symm.trans htruthSha256)
    exact same_str _
  · rw [namedBinary_own hcell hqueryBinary (hsuffix "query" (by decide))] at hfile
    obtain rfl := Option.some.inj (hfile.symm.trans hquery)
    obtain rfl := Option.some.inj (hdigest.symm.trans hquerySha256)
    exact same_str _
  · cases hkey

/-- A cell that was prepared now is verified unless a marker was taken over that does
not record the binaries beside it. -/
theorem recorded_qualifyPosition (hcell : cell ∈ plan.cells) (h : Prepares project toolchain files cell) :
    Recorded project cell (qualifyPosition project toolchain cell files).1
      (qualifyPosition project toolchain cell files).2.outcome ↔ MarkerHolds project files cell := by
  obtain ⟨hfault, hrow⟩ := outcomeOf_qualified.mp h
  refine (recorded_iff_markerHolds hcell hrow).trans ?_
  obtain hsame | ⟨hload, stripped, format, linkAudit, prepared, hprepared, hwritten⟩ := preparePosition_cases hfault
  · rw [hsame]
  · rw [hwritten]
    refine ⟨fun _ prepared' hload' => ?_, fun _ => markerHolds_linked hcell hprepared⟩
    rw [hload] at hload'
    cases hload'

end Preparing

end FidbPoc.Links
