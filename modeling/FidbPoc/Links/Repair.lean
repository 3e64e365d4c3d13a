import FidbPoc.Links.Gate

namespace FidbPoc.Links

open Lib Lib.Checked

section Runs

variable {plan : Plan} {project : Project plan} {toolchain : Toolchain} {completion : Completion}
  {report : Report} {outputs : Outputs} {state state' : RunState} {stored : Option Report}

/-- What every row recorded by a run keeps: the report is of the plan, and what was
written is consistent. -/
structure Going (project : Project plan) (state : RunState) : Prop where
  identity : state.report.identity = plan.identity
  rows : RowsOf plan state.report.attempts
  written : ∀ report ∈ state.written, Consistent project report

theorem outcomeOf_path {cell : Cell} {prepared : Files × Option Fault} {preparedPath : String} {truthSha256 querySha256 : Json}
    {linkAuditSha256 : String}
    (h : outcomeOf project cell prepared = .qualified preparedPath truthSha256 querySha256 linkAuditSha256) :
    preparedPath = preparedFoldPath plan cell := by
  have hqualified : (outcomeOf project cell prepared).isQualified = true := by rw [h]; rfl
  obtain ⟨-, hrow⟩ := outcomeOf_qualified.mp hqualified
  obtain ⟨_, _, _, _, -, -, -, -, houtcome⟩ := preparedRow_eq_ok.mp hrow
  cases h.symm.trans houtcome
  rfl

theorem qualifyPosition_id {cell : Cell} {files : Files} : (qualifyPosition project toolchain cell files).2.id = cell.id := rfl

theorem record_cases {cell : Cell} (h : record project toolchain state cell = .ok state') :
    ∃ breaker, summarize project { state.report with
        attempts := state.report.attempts ++ [(qualifyPosition project toolchain cell (state.outputs cell.id)).2],
        circuitBreaker := breaker } = .ok state'.report ∧
      (Prepares project toolchain (state.outputs cell.id) cell → breaker = state.report.circuitBreaker) ∧
      state'.outputs = Function.update state.outputs cell.id (qualifyPosition project toolchain cell (state.outputs cell.id)).1 ∧
      state'.written = state.written ++ [state'.report] := by
  unfold record at h
  simp only at h
  obtain ⟨report, hreport, h⟩ := bind_eq_ok.mp h
  obtain rfl := Except.ok.inj h
  refine ⟨_, hreport, fun hprepares => ?_, rfl, rfl⟩
  unfold Prepares at hprepares
  cases hcase : (qualifyPosition project toolchain cell (state.outputs cell.id)).2.outcome with
  | failed =>
    rw [hcase] at hprepares
    cases hprepares
  | qualified => rfl

theorem record_going {cell : Cell} (hcell : cell ∈ plan.cells) (hgoing : Going project state)
    (h : record project toolchain state cell = .ok state') : Going project state' := by
  obtain ⟨breaker, hreport, -, -, hwritten⟩ := record_cases h
  obtain ⟨hidentity, hattempts, -, -, hsummarized⟩ := summarize_cases hreport
  have hrows : RowsOf plan state'.report.attempts := by
    intro row hrow
    rw [hattempts] at hrow
    obtain hrow | hrow := List.mem_append.mp hrow
    · exact hgoing.rows row hrow
    · obtain rfl := List.mem_singleton.mp hrow
      exact ⟨cell, hcell, rfl, fun _ _ _ _ h => outcomeOf_path h⟩
  have hreport' : Consistent project state'.report := ⟨hidentity.trans hgoing.identity, hrows, hsummarized⟩
  refine ⟨hreport'.identity, hrows, fun report hmem => ?_⟩
  rw [hwritten] at hmem
  obtain hmem | hmem := List.mem_append.mp hmem
  · exact hgoing.written report hmem
  · exact List.mem_singleton.mp hmem ▸ hreport'

theorem runBatches_going {slices : List (List Cell)} (hslices : ∀ batch ∈ slices, ∀ cell ∈ batch, cell ∈ plan.cells)
    (hgoing : Going project state) (h : runBatches project toolchain completion slices state = .ok state') :
    Going project state' := by
  induction slices generalizing state with
  | nil => exact Except.ok.inj h ▸ hgoing
  | cons batch slices ih =>
    unfold runBatches at h
    obtain ⟨after, hafter, h⟩ := bind_eq_ok.mp h
    have hbatch := hslices batch List.mem_cons_self
    have hgoing' : Going project after :=
      foldlM_invariant (fun _ _ cell hcell hg hr => record_going (hbatch cell ((completion.perm batch).mem_iff.mp hcell)) hg hr)
        hgoing hafter
    split at h
    · exact Except.ok.inj h ▸ hgoing'
    · exact ih (fun batch hb => hslices batch (List.mem_cons_of_mem _ hb)) hgoing' h

theorem mem_pendingCells {attempts : List Attempt} {cell : Cell} :
    cell ∈ pendingCells plan attempts ↔ cell ∈ plan.cells ∧ isQualified attempts cell = false := by
  unfold pendingCells
  rw [List.mem_mergeSort, List.mem_filter, Bool.not_eq_true']

theorem mem_batches_pendingCells {attempts : List Attempt} :
    ∀ batch ∈ batches plan.batchSize (pendingCells plan attempts), ∀ cell ∈ batch, cell ∈ plan.cells := by
  intro batch hbatch cell hcell
  have hmem : cell ∈ (batches plan.batchSize (pendingCells plan attempts)).flatten :=
    List.mem_flatten.mpr ⟨batch, hbatch, hcell⟩
  rw [flatten_batches plan.batchSize_pos] at hmem
  exact (mem_pendingCells.mp hmem).1

theorem openReport_cases (h : openReport plan stored = .ok report) :
    stored = none ∧ report = newReport plan ∨ stored = some report ∧ report.identity = plan.identity := by
  unfold openReport at h
  split at h
  · exact .inl ⟨rfl, (Except.ok.inj h).symm⟩
  · rename_i report'
    split at h
    · rename_i hidentity
      obtain rfl := Except.ok.inj h
      exact .inr ⟨rfl, hidentity⟩
    · cases h

/-- The reports of the plan that its runs leave, also those that are killed after a write. -/
inductive Stored (project : Project plan) : Option Report → Prop
  | none : Stored project none
  | run {stored : Option Report} {toolchain : Toolchain} {completion : Completion} {outputs : Outputs} {state : RunState}
      {report : Report} (h : Stored project stored)
      (hrun : runLinkQualification project toolchain completion outputs stored = .ok state) (hmem : report ∈ state.written) :
      Stored project (some report)

theorem run_going (hstored : ∀ report ∈ stored, Consistent project report)
    (h : runLinkQualification project toolchain completion outputs stored = .ok state) :
    (∀ report ∈ state.written, Consistent project report) ∧ Consistent project state.report := by
  unfold runLinkQualification at h
  obtain ⟨report, hopen, h⟩ := bind_eq_ok.mp h
  split at h
  · rename_i hsettled
    obtain rfl := Except.ok.inj h
    refine ⟨fun _ hmem => (List.not_mem_nil hmem).elim, ?_⟩
    obtain ⟨rfl, -⟩ | ⟨rfl, -⟩ := openReport_cases hopen
    · cases hsettled
    · exact hstored _ rfl
  · obtain ⟨done, hdone, h⟩ := bind_eq_ok.mp h
    obtain ⟨final, hfinal, h⟩ := bind_eq_ok.mp h
    obtain rfl := Except.ok.inj h
    have hstart : Going project (⟨{ report with circuitBreaker := closedBreaker plan }, outputs, [], []⟩ : RunState) := by
      obtain ⟨rfl, rfl⟩ | ⟨rfl, hidentity⟩ := openReport_cases hopen
      · exact ⟨rfl, fun _ hmem => (List.not_mem_nil hmem).elim, fun _ hmem => (List.not_mem_nil hmem).elim⟩
      · exact ⟨hidentity, (hstored _ rfl).rows, fun _ hmem => (List.not_mem_nil hmem).elim⟩
    have hgoing := runBatches_going mem_batches_pendingCells hstart hdone
    obtain ⟨hidentity, hattempts, -, -, hsummarized⟩ := summarize_cases hfinal
    have hconsistent : Consistent project final :=
      ⟨hidentity.trans hgoing.identity, fun row hrow => hgoing.rows row (hattempts ▸ hrow), hsummarized⟩
    refine ⟨fun written hmem => ?_, hconsistent⟩
    obtain hmem | hmem := List.mem_append.mp hmem
    · exact hgoing.written written hmem
    · exact List.mem_singleton.mp hmem ▸ hconsistent

theorem Stored.consistent (h : Stored project stored) : ∀ report ∈ stored, Consistent project report := by
  induction h with
  | none => exact fun _ hmem => by cases hmem
  | run _ hrun hmem ih =>
    rintro _ ⟨⟩
    exact (run_going ih hrun).1 _ hmem

end Runs

section Repairing

variable {plan : Plan} {project : Project plan} {toolchain : Toolchain} {completion : Completion} {attempts : List Attempt}
  {outputs : Outputs} {state : RunState} {stored : Option Report}

/-- A run without failures after the cells in `done`: each has its new row and files, and
all others are as before. -/
structure Progress (project : Project plan) (toolchain : Toolchain) (attempts : List Attempt) (outputs : Outputs)
    (done : List Cell) (state : RunState) : Prop where
  closed : state.report.circuitBreaker.isOpen = false
  latest : ∀ cell ∈ plan.cells, latestAttempt state.report.attempts cell.id =
    if cell ∈ done then some (qualifyPosition project toolchain cell (outputs cell.id)).2
    else latestAttempt attempts cell.id
  outputs : ∀ cell ∈ plan.cells, state.outputs cell.id =
    if cell ∈ done then (qualifyPosition project toolchain cell (outputs cell.id)).1 else outputs cell.id

theorem Progress.congr {done done' : List Cell} (h : Progress project toolchain attempts outputs done state)
    (hdone : ∀ cell, cell ∈ done ↔ cell ∈ done') : Progress project toolchain attempts outputs done' state := by
  refine ⟨h.closed, fun cell hcell => ?_, fun cell hcell => ?_⟩
  · rw [h.latest cell hcell]
    exact if_congr (hdone cell) rfl rfl
  · rw [h.outputs cell hcell]
    exact if_congr (hdone cell) rfl rfl

theorem record_progress {done : List Cell} {cell : Cell} (h : Progress project toolchain attempts outputs done state)
    (hcell : cell ∈ plan.cells) (hfresh : cell ∉ done) (hprepares : Prepares project toolchain (outputs cell.id) cell) :
    ∃ state', record project toolchain state cell = .ok state' ∧
      Progress project toolchain attempts outputs (done ++ [cell]) state' := by
  have houtputs : state.outputs cell.id = outputs cell.id := by rw [h.outputs cell hcell, if_neg hfresh]
  obtain ⟨state', hrecord⟩ : ∃ state', record project toolchain state cell = .ok state' := by
    obtain ⟨report, hreport⟩ := summarize_ok project
      { state.report with
        attempts := state.report.attempts ++ [(qualifyPosition project toolchain cell (state.outputs cell.id)).2]
        circuitBreaker := (observe state.report.circuitBreaker plan.identicalFailureLimit state.failures
          (qualifyPosition project toolchain cell (state.outputs cell.id)).2.outcome).1 }
    unfold record
    simp only [hreport]
    exact ⟨_, rfl⟩
  obtain ⟨breaker, hreport, hbreaker, hwrites, -⟩ := record_cases hrecord
  obtain ⟨-, hattempts, hsameBreaker, -, -⟩ := summarize_cases hreport
  have hids (cell' : Cell) (hcell' : cell' ∈ plan.cells) : cell.id = cell'.id ↔ cell = cell' :=
    ⟨List.inj_on_of_nodup_map plan.ids hcell hcell', congrArg Cell.id⟩
  refine ⟨state', hrecord, ?_, fun cell' hcell' => ?_, fun cell' hcell' => ?_⟩
  · rw [hsameBreaker, hbreaker (houtputs ▸ hprepares)]
    exact h.closed
  · rw [hattempts, latestAttempt_concat (cell_id_ne cell), houtputs, qualifyPosition_id]
    by_cases hsame : cell = cell'
    · subst hsame
      rw [if_pos rfl, if_pos (by simp)]
    · rw [if_neg fun hid => hsame ((hids cell' hcell').mp hid), h.latest cell' hcell']
      exact if_congr (by simp [Ne.symm hsame]) rfl rfl
  · rw [hwrites, houtputs]
    by_cases hsame : cell = cell'
    · subst hsame
      rw [Function.update_self, if_pos (by simp)]
    · rw [Function.update_of_ne fun hid => hsame ((hids cell' hcell').mp hid.symm), h.outputs cell' hcell']
      exact if_congr (by simp [Ne.symm hsame]) rfl rfl

theorem foldlM_progress {done cells : List Cell} (h : Progress project toolchain attempts outputs done state)
    (hcells : ∀ cell ∈ cells, cell ∈ plan.cells ∧ Prepares project toolchain (outputs cell.id) cell)
    (hnodup : (done ++ cells).Nodup) :
    ∃ state', cells.foldlM (record project toolchain) state = .ok state' ∧
      Progress project toolchain attempts outputs (done ++ cells) state' := by
  induction cells generalizing done state with
  | nil => exact ⟨state, rfl, by rwa [List.append_nil]⟩
  | cons cell cells ih =>
    obtain ⟨⟨hcell, hprepares⟩, hcells⟩ := List.forall_mem_cons.mp hcells
    have hfresh : cell ∉ done := fun hmem => (List.nodup_append.mp hnodup).2.2 cell hmem cell List.mem_cons_self rfl
    obtain ⟨after, hafter, hprogress⟩ := record_progress h hcell hfresh hprepares
    obtain ⟨state', hstate', hprogress⟩ := ih hprogress hcells (by simpa using hnodup)
    exact ⟨state', by rw [List.foldlM_cons, hafter, ok_bind, hstate'], by simpa using hprogress⟩

theorem runBatches_progress (completion : Completion) {done : List Cell} (slices : List (List Cell))
    (h : Progress project toolchain attempts outputs done state)
    (hcells : ∀ cell ∈ slices.flatten, cell ∈ plan.cells ∧ Prepares project toolchain (outputs cell.id) cell)
    (hnodup : (done ++ slices.flatten).Nodup) :
    ∃ state', runBatches project toolchain completion slices state = .ok state' ∧
      Progress project toolchain attempts outputs (done ++ slices.flatten) state' := by
  induction slices generalizing done state with
  | nil => exact ⟨state, rfl, by rwa [List.flatten_nil, List.append_nil]⟩
  | cons batch slices ih =>
    rw [List.flatten_cons] at hcells hnodup ⊢
    have horder := completion.perm batch
    have hperm : (done ++ completion.order batch).Perm (done ++ batch) := horder.append_left done
    rw [← List.append_assoc] at hnodup
    obtain ⟨after, hafter, hprogress⟩ := foldlM_progress h
      (fun cell hcell => hcells cell (List.mem_append_left _ (horder.mem_iff.mp hcell)))
      (hperm.nodup_iff.mpr (List.nodup_append.mp hnodup).1)
    obtain ⟨state', hstate', hprogress'⟩ := ih (hprogress.congr fun cell => hperm.mem_iff)
      (fun cell hcell => hcells cell (List.mem_append_right _ hcell)) hnodup
    refine ⟨state', ?_, by rwa [← List.append_assoc]⟩
    unfold runBatches
    rw [hafter, ok_bind, hprogress.closed]
    exact hstate'

/-- What the attempts that stand in the report path are. -/
def attemptsOf (stored : Option Report) : List Attempt := (stored.map Report.attempts).getD []

/-- What a repair needs of a cell: a qualified cell is verified still, and a marker that
would be taken over records its binaries. -/
def Repairs (project : Project plan) (outputs : Outputs) (attempts : List Attempt) (cell : Cell) : Prop :=
  (isQualified attempts cell = true → Verified project outputs attempts cell) ∧
    (isQualified attempts cell = false → MarkerHolds project (outputs cell.id) cell)

theorem verified_congr {attempts' : List Attempt} {outputs' : Outputs} {cell : Cell}
    (hlatest : latestAttempt attempts' cell.id = latestAttempt attempts cell.id) (houtputs : outputs' cell.id = outputs cell.id) :
    Verified project outputs' attempts' cell ↔ Verified project outputs attempts cell := by
  unfold Verified
  rw [hlatest, houtputs]

/-- What a run over cells that all prepare leaves is verified as far as it could be
repaired. -/
theorem Progress.verified_iff (h : Progress project toolchain attempts outputs (pendingCells plan attempts) state)
    (hprepares : ∀ cell ∈ plan.cells, Prepares project toolchain (outputs cell.id) cell) {cell : Cell}
    (hcell : cell ∈ plan.cells) :
    Verified project state.outputs state.report.attempts cell ↔ Repairs project outputs attempts cell := by
  have hlatest := h.latest cell hcell
  have houtputs := h.outputs cell hcell
  cases hqualified : isQualified attempts cell with
  | true =>
    have hdone : cell ∉ pendingCells plan attempts := fun hmem => by simp [mem_pendingCells, hqualified] at hmem
    rw [if_neg hdone] at hlatest houtputs
    simp [Repairs, hqualified, verified_congr hlatest houtputs]
  | false =>
    have hdone : cell ∈ pendingCells plan attempts := mem_pendingCells.mpr ⟨hcell, hqualified⟩
    rw [if_pos hdone] at hlatest houtputs
    have hrecorded := recorded_qualifyPosition hcell (hprepares cell hcell)
    simp [Repairs, hqualified, Verified, hlatest, houtputs, hrecorded]

theorem run_repairs (completion : Completion) (hstored : Stored project stored)
    (hprepares : ∀ cell ∈ plan.cells, Prepares project toolchain (outputs cell.id) cell) :
    ∃ state, runLinkQualification project toolchain completion outputs stored = .ok state ∧
      ∀ cell ∈ plan.cells, Verified project state.outputs state.report.attempts cell ↔
        Repairs project outputs (attemptsOf stored) cell := by
  have hconsistent := hstored.consistent
  obtain ⟨report, hopen, hattempts⟩ : ∃ report, openReport plan stored = .ok report ∧ report.attempts = attemptsOf stored := by
    cases stored with
    | none => exact ⟨newReport plan, rfl, rfl⟩
    | some report => exact ⟨report, if_pos (hconsistent report rfl).identity, rfl⟩
  unfold runLinkQualification
  rw [hopen, ok_bind]
  split
  · rename_i hsettled
    refine ⟨_, rfl, fun cell hcell => ?_⟩
    obtain ⟨report', rfl, hstate⟩ := (Option.any_eq_true _ _).mp hsettled
    have hreport := hconsistent report' rfl
    have hqualified := hreport.qualified_iff.mp (by simpa using hstate) cell hcell
    have hsame : report.attempts = report'.attempts := hattempts
    simp [Repairs, attemptsOf, hqualified, hsame]
  · have hnodup : (pendingCells plan report.attempts).Nodup :=
      (List.mergeSort_perm _ _).nodup_iff.mpr ((List.Nodup.of_map _ plan.ids).filter _)
    have hstart : Progress project toolchain report.attempts outputs []
        ⟨{ report with circuitBreaker := closedBreaker plan }, outputs, [], []⟩ :=
      ⟨rfl, fun _ _ => (if_neg List.not_mem_nil).symm, fun _ _ => (if_neg List.not_mem_nil).symm⟩
    have hflatten := flatten_batches plan.batchSize_pos (pendingCells plan report.attempts)
    obtain ⟨done, hdone, hprogress⟩ := runBatches_progress completion
      (batches plan.batchSize (pendingCells plan report.attempts)) hstart
      (fun cell hcell => by
        have hmem := (mem_pendingCells.mp (hflatten ▸ hcell)).1
        exact ⟨hmem, hprepares cell hmem⟩)
      (by rwa [hflatten])
    obtain ⟨final, hfinal⟩ := summarize_ok project done.report
    rw [hdone, ok_bind, hfinal]
    refine ⟨_, rfl, fun cell hcell => ?_⟩
    rw [hflatten, List.nil_append] at hprogress
    rw [← hattempts, ← hprogress.verified_iff hprepares hcell]
    exact verified_congr (by rw [(summarize_cases hfinal).2.1]) rfl

theorem mem_written (hsettled : isSettled stored = false)
    (h : runLinkQualification project toolchain completion outputs stored = .ok state) : state.report ∈ state.written := by
  unfold runLinkQualification at h
  obtain ⟨report, -, h⟩ := bind_eq_ok.mp h
  rw [hsettled] at h
  obtain ⟨done, -, h⟩ := bind_eq_ok.mp h
  obtain ⟨final, -, h⟩ := bind_eq_ok.mp h
  obtain rfl := Except.ok.inj h
  exact List.mem_append_right _ (List.mem_singleton_self _)

/-- The gate can be repaired by a run, and stands for what the files are. -/
structure Repairable (project : Project plan) (toolchain : Toolchain) (completion : Completion) (outputs : Outputs)
    (stored : Option Report) : Prop where
  repaired : (∀ cell ∈ plan.cells, Prepares project toolchain (outputs cell.id) cell) →
    ∃ state digest, runLinkQualification project toolchain completion outputs stored = .ok state ∧
      linkQualificationStatus project state.outputs (some state.report) =
        .ok ⟨"qualified", state.report.summary, true, some digest, []⟩ ∧
      isSealed state.report (some digest) = true
  sound : ∀ status, linkQualificationStatus project outputs stored = .ok status → status.satisfied = true →
    ∀ cell ∈ plan.cells, Verified project outputs (attemptsOf stored) cell

theorem status_sound (hstored : Stored project stored) {status : Status}
    (h : linkQualificationStatus project outputs stored = .ok status) (hsatisfied : status.satisfied = true) :
    ∀ cell ∈ plan.cells, Verified project outputs (attemptsOf stored) cell := by
  cases stored with
  | none =>
    obtain rfl := Except.ok.inj h
    cases hsatisfied
  | some report => exact verified_of_satisfied (hstored.consistent report rfl) h hsatisfied

theorem repairs_of_repaired (hstored : Stored project stored)
    (hprepares : ∀ cell ∈ plan.cells, Prepares project toolchain (outputs cell.id) cell)
    (h : Repairable project toolchain completion outputs stored) :
    ∀ cell ∈ plan.cells, Repairs project outputs (attemptsOf stored) cell := by
  intro cell hcell
  obtain ⟨state, digest, hrun, hstatus, -⟩ := h.repaired hprepares
  obtain ⟨state', hrun', hverified⟩ := run_repairs completion hstored hprepares
  obtain rfl := Except.ok.inj (hrun.symm.trans hrun')
  have hconsistent := (run_going hstored.consistent hrun).2
  exact (hverified cell hcell).mp (verified_of_satisfied hconsistent hstatus rfl cell hcell)

end Repairing

/-- Whatever stands in the report path, the gate is repaired by a run whenever every
cell prepares exactly where the files of each qualified cell are still the recorded
ones and each marker that is taken over records the binaries it names. -/
theorem repairable_iff {plan : Plan} (project : Project plan) (toolchain : Toolchain) (completion : Completion)
    (outputs : Outputs) (stored : Option Report) (hstored : Stored project stored) :
    Repairable project toolchain completion outputs stored ↔
      ((∀ cell ∈ plan.cells, Prepares project toolchain (outputs cell.id) cell) →
        ∀ cell ∈ plan.cells, Repairs project outputs (attemptsOf stored) cell) := by
  constructor
  · exact fun h hprepares => repairs_of_repaired hstored hprepares h
  · intro hrepairs
    refine ⟨fun hprepares => ?_, fun status => status_sound hstored⟩
    obtain ⟨state, hrun, hverified⟩ := run_repairs completion hstored hprepares
    have hconsistent := (run_going hstored.consistent hrun).2
    have hcells := fun cell hcell => (hverified cell hcell).mpr (hrepairs hprepares cell hcell)
    obtain ⟨digest, hstatus, hsealed⟩ := status_of_verified hconsistent hcells
    exact ⟨state, digest, hrun, hstatus, hsealed⟩

namespace Deleted

def cell : Cell := ⟨1, .A, "linux-gcc", "o2"⟩

/-- One cell, which is linked by one harness. -/
def plan : Plan where
  id := "links"
  validationId := "validation"
  authoritySha256 := "a1"
  runtimeAuthoritySha256 := "b2"
  inputDigest := "c3"
  generationRoot := "var/links/c3"
  batchSize := 4
  identicalFailureLimit := 3
  cells := [cell]
  binaryFormat _ := some "ELF"
  batchSize_pos := by decide
  ids := List.nodup_singleton _

def project : Project plan where
  inside value := value.str?
  canonicalDigest _ := "d4"
  textDigest _ := "e5"
  failureFingerprint _ := ⟨"preparation-error", "", "f6"⟩
  own _ _ _ := rfl

/-- Linking leaves the binary and its audit, stripping the copy. -/
def toolchain : Toolchain where
  archives _ := none
  link cell files := (fun path =>
    if path = truthPath plan cell "ELF" then some ⟨"11", .undecodable⟩
    else if path = linkAuditPath plan cell then some ⟨"22", .document (.obj [])⟩
    else files path, none)
  strip cell files := (fun path => if path = queryPath plan cell "ELF" then some ⟨"33", .undecodable⟩ else files path, none)

def completion : Completion := ⟨id, fun _ => .refl _⟩

/-- Every file of the generation is gone. -/
def deleted : Outputs := fun _ _ => none

theorem prepares : ∀ cell ∈ plan.cells, Prepares project toolchain (deleted cell.id) cell := by
  intro cell hcell
  obtain rfl := List.mem_singleton.mp hcell
  unfold Prepares
  decide +kernel

theorem loadPreparedFold_deleted (cell : Cell) (path : String) :
    loadPreparedFold project cell (deleted cell.id) path = .ok none := rfl

/-- Before the first run nothing is in the way of a repair. -/
theorem repairable_iff_required : Repairable project toolchain completion deleted none ↔
    ((∀ cell ∈ plan.cells, Prepares project toolchain (deleted cell.id) cell) →
      ∀ cell ∈ plan.cells, Repairs project deleted (attemptsOf none) cell) :=
  repairable_iff project toolchain completion deleted none .none

theorem repairs_required : ∀ cell ∈ plan.cells, Repairs project deleted (attemptsOf none) cell := by
  intro cell _
  refine ⟨fun hqualified => (by cases hqualified), fun _ prepared hload => ?_⟩
  rw [loadPreparedFold_deleted] at hload
  cases hload

/-- Once the one cell is qualified and its files are deleted, the gate stays shut: the
cell would prepare, but the run leaves the report as it is. -/
theorem qualified_not_repaired : ∃ report, Stored project (some report) ∧
    (∀ cell ∈ plan.cells, Prepares project toolchain (deleted cell.id) cell) ∧
    ¬Repairable project toolchain completion deleted (some report) := by
  obtain ⟨state, hrun, hverified⟩ := run_repairs completion Stored.none prepares
  have hcell : cell ∈ plan.cells := List.mem_cons_self
  have hstored : Stored project (some state.report) := .run .none hrun (mem_written rfl hrun)
  refine ⟨state.report, hstored, prepares, fun h => ?_⟩
  obtain ⟨row, hrow, hrecorded⟩ := (hverified cell hcell).mpr (repairs_required cell hcell)
  have hqualified : isQualified state.report.attempts cell = true := isQualified_iff.mpr ⟨row, hrow, hrecorded.isQualified⟩
  obtain ⟨_, _, _, _, _, _, path, _, _, _, _, _, _, hload, -⟩ :=
    (repairs_of_repaired hstored prepares h cell hcell).1 hqualified
  rw [loadPreparedFold_deleted] at hload
  cases hload

end Deleted

end FidbPoc.Links
