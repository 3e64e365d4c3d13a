import Mathlib.Data.List.Perm.Basic
import Mathlib.Logic.Function.Basic

namespace FidbPoc.Validation

/-- The state of a unit result, with the reason code that the supervisor gives. -/
inductive Result
  | complete
  | failed (reasonCode : Option String)
  deriving DecidableEq

/-- A claim file, with its creator; the file names the creator once it is written. -/
structure Claim where
  pid : Nat
  written : Bool
  deriving DecidableEq

/-- What the run directory holds of each position. -/
structure RunFiles where
  results : Nat → Option Result
  /-- the archived attempts, the latest last -/
  attempts : Nat → List Result
  /-- the archived attempts that the latest explicit requeue leaves behind -/
  baseline : Nat → Nat
  claims : Nat → Option Claim

/-- What the progress file of a worker says. -/
inductive Progress
  | idle
  | running (position : Nat)
  | finished
  deriving DecidableEq

/-- Where a worker is with the first of the positions that are left to it. -/
inductive Phase
  | looking
  | claiming
  | writing
  | checking
  | starting
  | running
  | recorded (failed : Bool)
  | releasing (failed : Bool)
  | finished
  deriving DecidableEq

structure Worker where
  positions : List Nat
  phase : Phase
  progress : Progress
  alive : Bool
  deriving DecidableEq

/-- What the runtime authority says of a run. -/
structure Execution where
  positions : List Nat
  workers : Nat
  continueAfterCellFailure : Bool
  maximumWorkerRestarts : Nat
  cellTimeoutAttempts : Nat
  workers_pos : 0 < workers

section Files

variable (files : RunFiles)

def setResult (position : Nat) (result : Result) : RunFiles :=
  { files with results := Function.update files.results position (some result) }

def setClaim (position : Nat) (claim : Option Claim) : RunFiles :=
  { files with claims := Function.update files.claims position claim }

/-- The content goes to the file that was created, if that is still there. -/
def writeClaim (position pid : Nat) : RunFiles :=
  if files.claims position = some ⟨pid, false⟩ then setClaim files position (some ⟨pid, true⟩) else files

/-- Only a claim that names the process is released. -/
def releasePositionClaim (position pid : Nat) : RunFiles :=
  if files.claims position = some ⟨pid, true⟩ then setClaim files position none else files

def releaseWorkerClaims (pid : Nat) : RunFiles :=
  { files with claims := fun position => if files.claims position = some ⟨pid, true⟩ then none else files.claims position }

/-- A result that is not complete moves to the attempts. -/
def archiveFailedResult (position : Nat) : RunFiles :=
  match files.results position with
  | some (.failed reasonCode) =>
    { files with
      results := Function.update files.results position none
      attempts := Function.update files.attempts position (files.attempts position ++ [.failed reasonCode]) }
  | _ => files

def priorSupervisorAttempts (position : Nat) (reasonCode : String) : Nat :=
  ((files.attempts position).drop (files.baseline position)).count (.failed (some reasonCode))

end Files

/-- The next step of a worker; `failed` is what comes of a cell that it runs. -/
def advance (execution : Execution) (pid : Nat) (failed : Bool) (files : RunFiles) (worker : Worker) :
    Option (RunFiles × Worker) :=
  match worker.phase, worker.positions with
  | .looking, [] => some (files, { worker with phase := .finished, progress := .finished })
  | .looking, position :: rest =>
    if (files.results position).isSome then some (files, { worker with positions := rest })
    else some (files, { worker with phase := .claiming })
  | .claiming, position :: rest =>
    if (files.claims position).isSome then some (files, { worker with positions := rest, phase := .looking })
    else some (setClaim files position (some ⟨pid, false⟩), { worker with phase := .writing })
  | .writing, position :: _ => some (writeClaim files position pid, { worker with phase := .checking })
  | .checking, position :: rest =>
    if (files.results position).isSome then
      some (releasePositionClaim files position pid, { worker with positions := rest, phase := .looking })
    else some (files, { worker with phase := .starting })
  | .starting, position :: _ => some (files, { worker with phase := .running, progress := .running position })
  | .running, position :: _ =>
    some (setResult files position (if failed then .failed none else .complete), { worker with phase := .recorded failed })
  | .recorded failed, _ => some (files, { worker with phase := .releasing failed, progress := .idle })
  | .releasing failed, position :: rest =>
    if failed && !execution.continueAfterCellFailure then
      some (releasePositionClaim files position pid,
        { worker with positions := rest, phase := .finished, progress := .finished })
    else some (releasePositionClaim files position pid, { worker with positions := rest, phase := .looking })
  | _, _ => none

/-- A worker that the supervisor answers for. -/
structure Slot where
  pid : Nat
  restarts : Nat
  handled : Bool
  deriving DecidableEq

/-- Why the supervisor records a failure of a position. -/
inductive Cause
  | preparation
  | timeout (slot : Nat)
  | exhausted (slot : Nat) (released : List Nat)
  deriving DecidableEq

/-- What the supervisor does next. -/
inductive Act
  | starting
  | preparing
  | watching
  | stopping (slot position : Nat)
  | releasing (slot position : Nat)
  | recording (slot position : Nat)
  | judging (slot position : Nat)
  | archiving (slot position : Nat)
  | handling (slot : Nat) (released : List Nat)
  | givingUp (slot : Nat) (released : List Nat)
  | failing (position : Nat) (cause : Cause)
  | ended
  deriving DecidableEq

structure Supervisor where
  pending : List Nat
  slots : List Slot
  act : Act

/-- One run: its directory, every process that worked on it, and who supervises it. -/
structure State where
  files : RunFiles
  workers : Nat → Option Worker
  nextPid : Nat
  supervisor : Option Supervisor

def initial : State := ⟨⟨fun _ => none, fun _ => [], fun _ => 0, fun _ => none⟩, fun _ => none, 0, none⟩

section Supervision

variable (execution : Execution)

def pendingPositions (files : RunFiles) : List Nat := execution.positions.filter fun p => files.results p = none

def workerCount (pending : List Nat) : Nat := min execution.workers pending.length

/-- A new process starts at the head of the scheduling order. -/
def spawn (s : State) (pending : List Nat) : State :=
  { s with
    workers := Function.update s.workers s.nextPid (some ⟨pending, .looking, .idle, true⟩)
    nextPid := s.nextPid + 1 }

/-- A process ends, whatever it was at. -/
def terminate (s : State) (pid : Nat) : State :=
  { s with workers := fun p => if p = pid then (s.workers p).map fun w => { w with alive := false } else s.workers p }

/-- Every process of the supervisor's table ends. -/
def terminateAll (s : State) (slots : List Slot) : State :=
  { s with workers := fun p =>
      if p ∈ slots.map Slot.pid then (s.workers p).map fun w => { w with alive := false } else s.workers p }

def Supervisor.to (sup : Supervisor) (act : Act) : Option Supervisor := some { sup with act }

def markHandled (slots : List Slot) (i : Nat) : List Slot := slots.modify i fun slot => { slot with handled := true }

def releasedPositions (files : RunFiles) (pid : Nat) : List Nat :=
  execution.positions.filter fun p => files.claims p = some ⟨pid, true⟩

def remaining (files : RunFiles) (pending : List Nat) : List Nat := pending.filter fun p => files.results p = none

/-- A slot starts its worker again: something remains, and its budget is not spent. -/
def mayRestart (files : RunFiles) (pending : List Nat) (slot : Slot) : Bool :=
  !(remaining files pending).isEmpty && decide (slot.restarts < execution.maximumWorkerRestarts)

def Cause.reasonCode : Cause → String
  | .preparation => "preparation-failed"
  | .timeout _ => "cell-timeout"
  | .exhausted _ _ => "worker-restarts-exhausted"

/-- What follows on the failure. -/
def Cause.next (position : Nat) : Cause → Act
  | .preparation => .preparing
  | .timeout slot => .judging slot position
  | .exhausted slot released => .givingUp slot released

/-- `_supervisor_failure`: a failure is written where no result was found. -/
def supervisorFailure (files : RunFiles) (position : Nat) (cause : Cause) : Act :=
  if (files.results position).isSome then cause.next position else .failing position cause

/-- A timed-out cell is archived for another attempt. -/
def mayRetry (files : RunFiles) (position : Nat) : Bool :=
  decide (priorSupervisorAttempts files position "cell-timeout" + 1 < execution.cellTimeoutAttempts) &&
    decide (files.results position = some (.failed (some "cell-timeout")))

end Supervision

inductive Op
  | work (pid : Nat) (failed : Bool)
  | die (pid : Nat)
  | begin (pending : List Nat)
  | clear
  | preparationFailed
  | spawn
  | watch
  | timeout (slot position : Nat)
  | stop (pid : Nat)
  | releaseTimedOut
  | recordTimeout
  | retry
  | keep
  | archive (position : Nat)
  | release (slot : Nat)
  | finish
  | restart
  | giveUp (slot : Nat)
  | recordExhausted
  | givenUp
  | writeFailure (position : Nat)
  | endLoop
  | pause
  | kill
  | requeue (position : Nat)
  deriving DecidableEq

/-- The steps of a run, in any order that its parties take them. -/
inductive Next (execution : Execution) (s : State) : Op → State → Prop
  | work {pid : Nat} {worker worker' : Worker} {failed : Bool} {files : RunFiles} (hworker : s.workers pid = some worker)
      (halive : worker.alive = true) (hadvance : advance execution pid failed s.files worker = some (files, worker')) :
      Next execution s (.work pid failed) { s with files, workers := Function.update s.workers pid (some worker') }
  | die {pid : Nat} {worker : Worker} (hworker : s.workers pid = some worker) (halive : worker.alive = true) :
      Next execution s (.die pid) (terminate s pid)
  | begin {pending : List Nat} (habsent : s.supervisor = none) (hpending : pending.Perm (pendingPositions execution s.files)) :
      Next execution s (.begin pending) { s with supervisor := some ⟨pending, [], .starting⟩ }
  | clear {sup : Supervisor} (hsup : s.supervisor = some sup) (hact : sup.act = .starting) :
      Next execution s .clear
        { s with files := { s.files with claims := fun _ => none }, supervisor := sup.to .preparing }
  | preparationFailed {sup : Supervisor} {position : Nat} (hsup : s.supervisor = some sup) (hact : sup.act = .preparing)
      (hslots : sup.slots = []) (hposition : position ∈ sup.pending) :
      Next execution s .preparationFailed
        { s with supervisor := sup.to (supervisorFailure s.files position .preparation) }
  | spawn {sup : Supervisor} (hsup : s.supervisor = some sup) (hact : sup.act = .preparing)
      (hcount : sup.slots.length < workerCount execution sup.pending) :
      Next execution s .spawn
        { Validation.spawn s sup.pending with
          supervisor := some { sup with slots := sup.slots ++ [⟨s.nextPid, 0, false⟩] } }
  | watch {sup : Supervisor} (hsup : s.supervisor = some sup) (hact : sup.act = .preparing)
      (hcount : sup.slots.length = workerCount execution sup.pending) :
      Next execution s .watch { s with supervisor := sup.to .watching }
  | timeout {sup : Supervisor} {i position : Nat} {slot : Slot} {worker : Worker} (hsup : s.supervisor = some sup)
      (hact : sup.act = .watching) (hslot : sup.slots[i]? = some slot) (hworker : s.workers slot.pid = some worker)
      (halive : worker.alive = true) (hprogress : worker.progress = .running position) :
      Next execution s (.timeout i position) { s with supervisor := sup.to (.stopping i position) }
  | stop {sup : Supervisor} {i position : Nat} {slot : Slot} (hsup : s.supervisor = some sup)
      (hact : sup.act = .stopping i position) (hslot : sup.slots[i]? = some slot) :
      Next execution s (.stop slot.pid) { terminate s slot.pid with supervisor := sup.to (.releasing i position) }
  | releaseTimedOut {sup : Supervisor} {i position : Nat} {slot : Slot} (hsup : s.supervisor = some sup)
      (hact : sup.act = .releasing i position) (hslot : sup.slots[i]? = some slot) :
      Next execution s .releaseTimedOut
        { s with files := releaseWorkerClaims s.files slot.pid, supervisor := sup.to (.recording i position) }
  | recordTimeout {sup : Supervisor} {i position : Nat} (hsup : s.supervisor = some sup)
      (hact : sup.act = .recording i position) :
      Next execution s .recordTimeout
        { s with supervisor := sup.to (supervisorFailure s.files position (.timeout i)) }
  | retry {sup : Supervisor} {i position : Nat} (hsup : s.supervisor = some sup) (hact : sup.act = .judging i position)
      (hretry : mayRetry execution s.files position = true) :
      Next execution s .retry { s with supervisor := sup.to (.archiving i position) }
  | keep {sup : Supervisor} {i position : Nat} (hsup : s.supervisor = some sup) (hact : sup.act = .judging i position)
      (hretry : mayRetry execution s.files position = false) :
      Next execution s .keep { s with supervisor := sup.to .watching }
  | archive {sup : Supervisor} {i position : Nat} (hsup : s.supervisor = some sup) (hact : sup.act = .archiving i position) :
      Next execution s (.archive position)
        { s with files := archiveFailedResult s.files position, supervisor := sup.to .watching }
  | release {sup : Supervisor} {i : Nat} {slot : Slot} {worker : Worker} (hsup : s.supervisor = some sup)
      (hact : sup.act = .watching) (hslot : sup.slots[i]? = some slot) (hhandled : slot.handled = false)
      (hworker : s.workers slot.pid = some worker) (hdead : worker.alive = false) :
      Next execution s (.release i)
        { s with
          files := releaseWorkerClaims s.files slot.pid
          supervisor := sup.to (.handling i (releasedPositions execution s.files slot.pid)) }
  | finish {sup : Supervisor} {i : Nat} {released : List Nat} {slot : Slot} {worker : Worker} (hsup : s.supervisor = some sup)
      (hact : sup.act = .handling i released) (hslot : sup.slots[i]? = some slot) (hworker : s.workers slot.pid = some worker)
      (hfinished : worker.progress = .finished) :
      Next execution s .finish
        { s with supervisor := some { sup with slots := markHandled sup.slots i, act := .watching } }
  | restart {sup : Supervisor} {i : Nat} {released : List Nat} {slot : Slot} {worker : Worker}
      (hsup : s.supervisor = some sup) (hact : sup.act = .handling i released) (hslot : sup.slots[i]? = some slot)
      (hworker : s.workers slot.pid = some worker) (hfinished : worker.progress ≠ .finished)
      (hrestart : mayRestart execution s.files sup.pending slot = true) :
      Next execution s .restart
        { Validation.spawn s sup.pending with
          supervisor := some { sup with
            slots := sup.slots.set i ⟨s.nextPid, slot.restarts + 1, false⟩
            act := .watching } }
  | giveUp {sup : Supervisor} {i : Nat} {released : List Nat} {slot : Slot} {worker : Worker} (hsup : s.supervisor = some sup)
      (hact : sup.act = .handling i released) (hslot : sup.slots[i]? = some slot) (hworker : s.workers slot.pid = some worker)
      (hfinished : worker.progress ≠ .finished) (hrestart : mayRestart execution s.files sup.pending slot = false) :
      Next execution s (.giveUp i) { s with supervisor := sup.to (.givingUp i released) }
  | recordExhausted {sup : Supervisor} {i position : Nat} {released : List Nat} (hsup : s.supervisor = some sup)
      (hact : sup.act = .givingUp i (position :: released)) :
      Next execution s .recordExhausted
        { s with supervisor := sup.to (supervisorFailure s.files position (.exhausted i released)) }
  | givenUp {sup : Supervisor} {i : Nat} (hsup : s.supervisor = some sup) (hact : sup.act = .givingUp i []) :
      Next execution s .givenUp
        { s with supervisor := some { sup with slots := markHandled sup.slots i, act := .watching } }
  | writeFailure {sup : Supervisor} {position : Nat} {cause : Cause} (hsup : s.supervisor = some sup)
      (hact : sup.act = .failing position cause) :
      Next execution s (.writeFailure position)
        { s with
          files := setResult s.files position (.failed (some cause.reasonCode))
          supervisor := sup.to (cause.next position) }
  | endLoop {sup : Supervisor} (hsup : s.supervisor = some sup) (hact : sup.act = .watching)
      (hhandled : ∀ slot ∈ sup.slots, slot.handled = true) :
      Next execution s .endLoop { s with supervisor := sup.to .ended }
  | pause {sup : Supervisor} (hsup : s.supervisor = some sup) :
      Next execution s .pause { terminateAll s sup.slots with supervisor := none }
  | kill {sup : Supervisor} (hsup : s.supervisor = some sup) : Next execution s .kill { s with supervisor := none }
  | requeue {position : Nat} {reasonCode : Option String} (habsent : s.supervisor = none)
      (hfailed : s.files.results position = some (.failed reasonCode)) :
      Next execution s (.requeue position)
        { s with files :=
          { archiveFailedResult s.files position with
            baseline := Function.update s.files.baseline position ((s.files.attempts position).length + 1) } }

end FidbPoc.Validation
