import FidbPoc.Validation.Claims
import FidbPoc.Lib.Run

namespace FidbPoc.Validation.Lifecycle

inductive Mode
  | canary
  | full
  deriving DecidableEq

inductive RunState
  | queued
  | preparingIndex
  | preparingUnits
  | running
  | pausing
  | paused
  | interrupted
  | failed
  | postprocessing
  | postprocessFailed
  | retaining
  | complete
  deriving DecidableEq

/-- What the status file of a run says. -/
structure Status where
  state : RunState
  pid : Option Nat
  expectedWorkUnits : Nat
  completeWorkUnits : Nat
  failedWorkUnits : Nat
  deriving DecidableEq

/-- Where the supervising process is; a stage holds the document that the process goes on from. -/
inductive Stage
  | entered
  | locked
  | working
  | pausing
  | postprocessing
  | analysing (document : Status)
  | published
  | finishing (document : Status)
  | retaining (document : Status)
  | leaving
  deriving DecidableEq

structure Process where
  pid : Nat
  stage : Stage
  deriving DecidableEq

/-- What an operator's call has still to do to the status file. -/
inductive Call
  | reading (pid : Nat)
  | writing (document : Status)
  deriving DecidableEq

/-- A run of the validation as its runtime authority and its site have it. -/
structure Site where
  mode : Mode
  positions : List Nat
  preflight : Bool
  admission : Bool
  canaryGate : Bool

/-- Preflight, link qualification and, for a full run, the canary gate are satisfied. -/
def Site.Satisfied (site : Site) : Prop :=
  site.preflight = true ∧ site.admission = true ∧ (site.mode = .full → site.canaryGate = true)

structure Session where
  status : Status
  results : Nat → Option Result
  pauseRequest : Bool
  lock : Option Nat
  process : Option Process
  nextPid : Nat
  call : Option Call
  /-- the post-processing job, the hash report and the retention record all say that they are complete -/
  terminalEvidence : Bool

section Reading

variable (site : Site) (s : Session)

/-- `_validation_process_active` -/
def processActive (pid : Option Nat) : Bool := (s.process.map Process.pid).isSome && pid == s.process.map Process.pid

def active : RunState → Bool
  | .queued | .preparingIndex | .preparingUnits | .running | .pausing | .postprocessing | .retaining => true
  | _ => false

/-- The state that `runtime_status` gives. -/
def runtimeStatus : RunState :=
  if active s.status.state && !processActive s s.status.pid then .interrupted else s.status.state

def completeCount (results : Nat → Option Result) : Nat := site.positions.countP fun p => results p = some .complete

def failedCount (results : Nat → Option Result) : Nat :=
  site.positions.countP fun p => decide (results p ≠ some .complete) && (results p).isSome

end Reading

section Calls

variable (site : Site) (s : Session)

def pauseValidation : Option Session :=
  if runtimeStatus s = .paused then some s
  else if runtimeStatus s = .interrupted ∨
      (runtimeStatus s = .failed ∧ s.status.completeWorkUnits < s.status.expectedWorkUnits ∧
        processActive s s.status.pid = false) then
    some { s with status := { s.status with state := .paused } }
  else if runtimeStatus s ∈ [.queued, .preparingIndex, .preparingUnits, .running, .pausing] then
    some { s with pauseRequest := true, call := some (.writing { s.status with state := .pausing }) }
  else none

def archived (results : Nat → Option Result) (positions : List Nat) : Nat → Option Result := fun p =>
  if p ∈ positions then none else results p

def requeueFailedValidation (positions : List Nat) : Option Session :=
  if runtimeStatus s ∉ [.paused, .interrupted, .failed] then none
  else if processActive s s.status.pid then none
  else if positions = [] ∨ ∃ p ∈ positions, p < 1 then none
  else if ∀ p ∈ positions, p ∈ site.positions ∧ s.results p ≠ none ∧ s.results p ≠ some .complete then
    some { s with
      results := archived s.results positions
      status := { s.status with
        state := .paused
        completeWorkUnits := completeCount site (archived s.results positions)
        failedWorkUnits := failedCount site (archived s.results positions) } }
  else none

/-- Whether a run that is complete may be asked for again. -/
def consistent : Bool :=
  decide (1 ≤ s.status.expectedWorkUnits) && decide (s.status.completeWorkUnits = s.status.expectedWorkUnits) &&
    decide (s.status.failedWorkUnits = 0) && (decide (site.mode = .canary) || s.terminalEvidence)

/-- The counts that a resumption goes on from, where there is work left to resume. -/
def resumable : Option (Nat × Nat) :=
  if runtimeStatus s = .postprocessFailed then
    if site.mode = .full ∧ completeCount site s.results = s.status.expectedWorkUnits ∧ failedCount site s.results = 0 then
      some (completeCount site s.results, failedCount site s.results)
    else none
  else if runtimeStatus s ∈ [.paused, .interrupted, .failed] then
    if s.status.completeWorkUnits < s.status.expectedWorkUnits then
      some (s.status.completeWorkUnits, s.status.failedWorkUnits)
    else none
  else none

/-- A resumption up to the point where it has spawned the process; it writes the queued status again, with the process. -/
def resumeValidation : Option Session :=
  if runtimeStatus s = .complete then
    if consistent site s then some s else none
  else
    match resumable site s with
    | none => none
    | some counts =>
      if processActive s s.status.pid then none
      else if site.preflight && site.admission && (decide (site.mode = .canary) || site.canaryGate) then
        if processActive s s.lock then none
        else
          some { s with
            lock := none
            pauseRequest := false
            status := ⟨.queued, none, s.status.expectedWorkUnits, counts.1, counts.2⟩
            process := some ⟨s.nextPid, .entered⟩
            nextPid := s.nextPid + 1
            call := some (.writing ⟨.queued, some s.nextPid, s.status.expectedWorkUnits, counts.1, counts.2⟩) }
      else none

/-- Whether `start_validation` begins another run. -/
def startValidation : Bool :=
  site.preflight && !active (runtimeStatus s) &&
    decide (runtimeStatus s ∉ [.postprocessFailed, .paused, .interrupted]) &&
    (decide (site.mode = .canary) || site.canaryGate) && site.admission

end Calls

/-- A run that was just started: its process is spawned, and the caller is to note its pid. -/
def started (staleLock : Bool) : Session where
  status := ⟨.queued, none, 0, 0, 0⟩
  results := fun _ => none
  pauseRequest := false
  lock := if staleLock then some 0 else none
  process := some ⟨1, .entered⟩
  nextPid := 2
  call := some (.reading 1)
  terminalEvidence := false

inductive Op
  | lock
  | refuse
  | begin
  | prepare
  | poll
  | notice
  | paused
  | report
  | analyse
  | publish
  | readBack
  | retain
  | complete (terminalEvidence : Bool)
  | fail
  | exit
  | kill
  | record (position : Nat) (result : Option Result)
  | pause
  | requeue (positions : List Nat)
  | resume
  | read
  | write
  deriving DecidableEq

section Stages

variable (site : Site) (s : Session)

/-- The status with the counts of the results that are there. -/
def countedStatus (state : RunState) (pid : Nat) : Status :=
  ⟨state, some pid, site.positions.length, completeCount site s.results, failedCount site s.results⟩

/-- `_aggregate`: every position is complete. -/
def Measured (results : Nat → Option Result) : Prop := ∀ p ∈ site.positions, results p = some .complete

instance (results : Nat → Option Result) : Decidable (Measured site results) := by
  unfold Measured
  infer_instance

def reportedState : RunState :=
  if Measured site s.results then if site.mode = .full then .postprocessing else .complete else .failed

def reportedStage (document : Status) : Stage :=
  if Measured site s.results then if site.mode = .full then .postprocessing else .finishing document else .leaving

/-- The stages whose errors `run_validation` records in the status. -/
def guarded : Stage → Bool
  | .entered | .locked | .leaving => false
  | _ => true

def postprocessStarted : Stage → Bool
  | .postprocessing | .analysing _ | .published => true
  | .finishing _ | .retaining _ => decide (site.mode = .full)
  | _ => false

def failedStatus (process : Process) : Status :=
  if postprocessStarted site process.stage then countedStatus site s .postprocessFailed process.pid
  else { countedStatus site s .failed process.pid with failedWorkUnits := max 1 (failedCount site s.results) }

/-- What `analyze_hashes` asks of the status before it begins. -/
def analysable : Bool :=
  decide (s.status.state ∈ [.complete, .postprocessing, .postprocessFailed]) && decide (site.mode = .full) &&
    decide (s.status.completeWorkUnits = s.status.expectedWorkUnits) && decide (s.status.failedWorkUnits = 0)

end Stages

/-- The steps of a run, with its process, its workers and the calls of an operator, one call after another. -/
inductive Next (site : Site) (s : Session) : Op → Session → Prop
  | lock {pid : Nat} (hprocess : s.process = some ⟨pid, .entered⟩) (hadmitted : site.admission = true) (hlock : s.lock = none) :
      Next site s .lock { s with lock := some pid, process := some ⟨pid, .locked⟩ }
  | refuse {pid : Nat} (hprocess : s.process = some ⟨pid, .entered⟩)
      (hrefused : site.admission = false ∨ s.lock.isSome = true) :
      Next site s .refuse { s with process := none }
  | begin {pid : Nat} (hprocess : s.process = some ⟨pid, .locked⟩) :
      Next site s .begin
        { s with status := countedStatus site s .preparingIndex pid, process := some ⟨pid, .working⟩ }
  | prepare {pid : Nat} (hprocess : s.process = some ⟨pid, .working⟩) (hpause : s.pauseRequest = false) :
      Next site s .prepare { s with status := countedStatus site s .preparingUnits pid }
  | poll {pid : Nat} (hprocess : s.process = some ⟨pid, .working⟩) :
      Next site s .poll { s with status := countedStatus site s .running pid }
  | notice {pid : Nat} (hprocess : s.process = some ⟨pid, .working⟩) (hpause : s.pauseRequest = true) :
      Next site s .notice
        { s with status := countedStatus site s .pausing pid, process := some ⟨pid, .pausing⟩ }
  | paused {pid : Nat} (hprocess : s.process = some ⟨pid, .pausing⟩) :
      Next site s .paused
        { s with status := countedStatus site s .paused pid, process := some ⟨pid, .leaving⟩ }
  | report {pid : Nat} (hprocess : s.process = some ⟨pid, .working⟩) :
      Next site s .report
        { s with
          status := countedStatus site s (reportedState site s) pid
          process := some ⟨pid, reportedStage site s (countedStatus site s (reportedState site s) pid)⟩ }
  | analyse {pid : Nat} (hprocess : s.process = some ⟨pid, .postprocessing⟩) (hanalysable : analysable site s = true) :
      Next site s .analyse { s with process := some ⟨pid, .analysing s.status⟩ }
  | publish {pid : Nat} {document : Status} (hprocess : s.process = some ⟨pid, .analysing document⟩) :
      Next site s .publish { s with status := document, process := some ⟨pid, .published⟩ }
  | readBack {pid : Nat} (hprocess : s.process = some ⟨pid, .published⟩) :
      Next site s .readBack { s with process := some ⟨pid, .finishing s.status⟩ }
  | retain {pid : Nat} {document : Status} (hprocess : s.process = some ⟨pid, .finishing document⟩) :
      Next site s .retain
        { s with
          lock := none
          status := { document with state := .retaining }
          process := some ⟨pid, .retaining { document with state := .retaining }⟩ }
  | complete {pid : Nat} {document : Status} {terminalEvidence : Bool}
      (hprocess : s.process = some ⟨pid, .retaining document⟩) :
      Next site s (.complete terminalEvidence)
        { s with status := { document with state := .complete }, process := some ⟨pid, .leaving⟩, terminalEvidence }
  | fail {process : Process} (hprocess : s.process = some process) (hguarded : guarded process.stage = true) :
      Next site s .fail
        { s with status := failedStatus site s process, process := some ⟨process.pid, .leaving⟩ }
  | exit {pid : Nat} (hprocess : s.process = some ⟨pid, .leaving⟩) :
      Next site s .exit { s with lock := none, process := none }
  | kill {process : Process} (hprocess : s.process = some process) : Next site s .kill { s with process := none }
  | record {position : Nat} {result : Option Result} :
      Next site s (.record position result) { s with results := Function.update s.results position result }
  | pause {t : Session} (hcall : s.call = none) (hpause : pauseValidation s = some t) : Next site s .pause t
  | requeue {positions : List Nat} {t : Session} (hcall : s.call = none)
      (hrequeue : requeueFailedValidation site s positions = some t) : Next site s (.requeue positions) t
  | resume {t : Session} (hcall : s.call = none) (hresume : resumeValidation site s = some t) : Next site s .resume t
  | read {pid : Nat} (hcall : s.call = some (.reading pid)) :
      Next site s .read { s with call := some (.writing { s.status with pid := some pid }) }
  | write {document : Status} (hcall : s.call = some (.writing document)) :
      Next site s .write { s with status := document, call := none }

end FidbPoc.Validation.Lifecycle
