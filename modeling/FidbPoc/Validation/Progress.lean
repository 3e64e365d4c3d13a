import FidbPoc.Lib.Run
import FidbPoc.Validation.Claims

namespace FidbPoc.Validation.ProgressFiles

open FidbPoc.Lib

inductive ProgressState
  | idle
  | running
  | finished
  deriving DecidableEq

/-- What is read of a worker's progress file. -/
structure Record where
  state : ProgressState
  position : Option Nat
  startedUnixNs : Option Int
  deriving DecidableEq

def workerFinishedCleanly (record : Option Record) : Bool :=
  match record with
  | some progress => progress.state = .finished
  | none => false

def timedOutPosition (record : Option Record) (timeoutSeconds : Nat) (nowUnixNs : Int) : Option Nat :=
  match record with
  | some ⟨.running, some position, some started⟩ =>
    if nowUnixNs - started < timeoutSeconds * 1000000000 then none else some position
  | _ => none

/-- Where a worker process is; it keeps the time at which it began with its cell. -/
inductive Phase
  | starting
  | idle
  | running (position : Nat) (since : Int)
  | recorded (position : Nat) (since : Int)
  | finished
  deriving DecidableEq

structure Process where
  pid : Nat
  alive : Bool
  phase : Phase
  deriving DecidableEq

/-- A worker of the supervisor's table: the process that it has started for it. -/
structure Slot where
  process : Nat
  handled : Bool
  deriving DecidableEq

/-- What the supervisor does next; it stops a process, records the failure and decides about a retry one after the other. -/
inductive Act
  | watching
  | stopping (slot position : Nat)
  | recording (slot position : Nat)
  | judging (position : Nat)
  deriving DecidableEq

structure Supervisor where
  cellTimeoutSeconds : Nat
  slots : List Slot
  act : Act
  deriving DecidableEq

/-- A run root over all its runs and resumes, with every worker process there has been. -/
structure State where
  clock : Int
  processes : List Process
  /-- the progress files, under the process ids -/
  progress : Nat → Option Record
  /-- which process has written a progress file last; no file says so -/
  writer : Nat → Option Nat
  results : Nat → Option Result
  supervisor : Option Supervisor

def initial (clock : Int) : State := ⟨clock, [], fun _ => none, fun _ => none, fun _ => none, none⟩

def timedOut : Result := .failed (some "cell-timeout")

/-- `_supervisor_failure` -/
def supervisorFailure (reasonCode : String) (results : Nat → Option Result) (position : Nat) : Nat → Option Result :=
  if (results position).isSome then results else Function.update results position (some (.failed (some reasonCode)))

section Steps

variable (s : State)

def setPhase (n : Nat) (process : Process) (phase : Phase) : State :=
  { s with processes := s.processes.set n { process with phase } }

/-- `_write_worker_progress` -/
def writeWorkerProgress (n : Nat) (process : Process) (phase : Phase) (record : Record) : State :=
  { setPhase s n process phase with
    progress := Function.update s.progress process.pid (some record)
    writer := Function.update s.writer process.pid (some n) }

def setResult (position : Nat) (result : Result) : State :=
  { s with results := Function.update s.results position (some result) }

/-- The processes at some indices end, whatever they were at. -/
def terminate (ns : List Nat) : State :=
  { s with processes := s.processes.mapIdx fun n process => if n ∈ ns then { process with alive := false } else process }

def spawn (pid : Nat) : State := { s with processes := s.processes ++ [⟨pid, true, .starting⟩] }

/-- The operating system gives an id that no living process has. -/
def Unused (pid : Nat) : Prop := ∀ process ∈ s.processes, process.pid = pid → process.alive = false

def Supervisor.to (sup : Supervisor) (act : Act) : Option Supervisor := some { sup with act }

end Steps

inductive Op
  | tick (elapsed : Nat)
  | begin (process : Nat)
  | take (process position : Nat)
  | finish (process : Nat) (failed : Bool)
  | report (process : Nat)
  | leave (process : Nat)
  | exit (process : Nat)
  | start (cellTimeoutSeconds : Nat)
  | spawn (pid : Nat)
  | timeout (slot : Nat)
  | stop
  | record
  | judge (retry : Bool)
  | finished (slot : Nat)
  | restart (slot pid : Nat)
  | giveUp (slot : Nat) (released : List Nat)
  | pause
  | kill
  | requeue (positions : List Nat)

/-- The steps of the run's parties, in any order. Which position a worker takes, whether a restart is left and what a dead
worker had claimed is left open. -/
inductive Next (s : State) : Op → State → Prop
  | tick {elapsed : Nat} : Next s (.tick elapsed) { s with clock := s.clock + elapsed }
  | begin {n : Nat} {process : Process} (hprocess : s.processes[n]? = some process) (halive : process.alive = true)
      (hphase : process.phase = .starting) :
      Next s (.begin n) (writeWorkerProgress s n process .idle ⟨.idle, none, none⟩)
  | take {n position : Nat} {process : Process} (hprocess : s.processes[n]? = some process) (halive : process.alive = true)
      (hphase : process.phase = .idle) (hnone : s.results position = none) :
      Next s (.take n position) (writeWorkerProgress s n process (.running position s.clock)
        ⟨.running, some position, some s.clock⟩)
  | finish {n position : Nat} {since : Int} {process : Process} {failed : Bool} (hprocess : s.processes[n]? = some process)
      (halive : process.alive = true) (hphase : process.phase = .running position since) :
      Next s (.finish n failed) (setResult (setPhase s n process (.recorded position since)) position
        (if failed then .failed none else .complete))
  | report {n position : Nat} {since : Int} {process : Process} (hprocess : s.processes[n]? = some process)
      (halive : process.alive = true) (hphase : process.phase = .recorded position since) :
      Next s (.report n) (writeWorkerProgress s n process .idle ⟨.idle, some position, none⟩)
  | leave {n : Nat} {process : Process} {position : Option Nat} (hprocess : s.processes[n]? = some process)
      (halive : process.alive = true) (hphase : process.phase = .idle) :
      Next s (.leave n) (writeWorkerProgress s n process .finished ⟨.finished, position, none⟩)
  | exit {n : Nat} (hprocess : n < s.processes.length) : Next s (.exit n) (terminate s [n])
  | start {cellTimeoutSeconds : Nat} (habsent : s.supervisor = none) :
      Next s (.start cellTimeoutSeconds) { s with supervisor := some ⟨cellTimeoutSeconds, [], .watching⟩ }
  | spawn {sup : Supervisor} {pid : Nat} (hsup : s.supervisor = some sup) (hact : sup.act = .watching)
      (hpid : Unused s pid) :
      Next s (.spawn pid) { spawn s pid with
        supervisor := some { sup with slots := sup.slots ++ [⟨s.processes.length, false⟩] } }
  | timeout {sup : Supervisor} {i position : Nat} {slot : Slot} {process : Process} (hsup : s.supervisor = some sup)
      (hact : sup.act = .watching) (hslot : sup.slots[i]? = some slot) (hprocess : s.processes[slot.process]? = some process)
      (halive : process.alive = true)
      (htimeout : timedOutPosition (s.progress process.pid) sup.cellTimeoutSeconds s.clock = some position) :
      Next s (.timeout i) { s with supervisor := sup.to (.stopping i position) }
  | stop {sup : Supervisor} {i position : Nat} {slot : Slot} (hsup : s.supervisor = some sup)
      (hact : sup.act = .stopping i position) (hslot : sup.slots[i]? = some slot) :
      Next s .stop { terminate s [slot.process] with supervisor := sup.to (.recording i position) }
  | record {sup : Supervisor} {i position : Nat} (hsup : s.supervisor = some sup) (hact : sup.act = .recording i position) :
      Next s .record { s with
        results := supervisorFailure "cell-timeout" s.results position
        supervisor := sup.to (.judging position) }
  | keep {sup : Supervisor} {position : Nat} (hsup : s.supervisor = some sup) (hact : sup.act = .judging position) :
      Next s (.judge false) { s with supervisor := sup.to .watching }
  | retry {sup : Supervisor} {position : Nat} (hsup : s.supervisor = some sup) (hact : sup.act = .judging position)
      (hresult : s.results position = some timedOut) :
      Next s (.judge true)
        { s with results := Function.update s.results position none, supervisor := sup.to .watching }
  | finished {sup : Supervisor} {i : Nat} {slot : Slot} {process : Process} (hsup : s.supervisor = some sup)
      (hact : sup.act = .watching) (hslot : sup.slots[i]? = some slot) (hprocess : s.processes[slot.process]? = some process)
      (hdead : process.alive = false) (hhandled : slot.handled = false)
      (hfinished : workerFinishedCleanly (s.progress process.pid) = true) :
      Next s (.finished i)
        { s with supervisor := some { sup with slots := sup.slots.set i { slot with handled := true } } }
  | restart {sup : Supervisor} {i pid : Nat} {slot : Slot} {process : Process} (hsup : s.supervisor = some sup)
      (hact : sup.act = .watching) (hslot : sup.slots[i]? = some slot) (hprocess : s.processes[slot.process]? = some process)
      (hdead : process.alive = false) (hhandled : slot.handled = false)
      (hfinished : workerFinishedCleanly (s.progress process.pid) = false) (hpid : Unused s pid) :
      Next s (.restart i pid)
        { spawn s pid with supervisor := some { sup with slots := sup.slots.set i ⟨s.processes.length, false⟩ } }
  | giveUp {sup : Supervisor} {i : Nat} {slot : Slot} {process : Process} {released : List Nat}
      (hsup : s.supervisor = some sup) (hact : sup.act = .watching) (hslot : sup.slots[i]? = some slot)
      (hprocess : s.processes[slot.process]? = some process) (hdead : process.alive = false) (hhandled : slot.handled = false)
      (hfinished : workerFinishedCleanly (s.progress process.pid) = false) :
      Next s (.giveUp i released)
        { s with
          results := released.foldl (supervisorFailure "worker-restarts-exhausted") s.results
          supervisor := some { sup with slots := sup.slots.set i { slot with handled := true } } }
  | pause {sup : Supervisor} (hsup : s.supervisor = some sup) :
      Next s .pause { terminate s (sup.slots.map Slot.process) with supervisor := none }
  | kill {sup : Supervisor} (hsup : s.supervisor = some sup) : Next s .kill { s with supervisor := none }
  | requeue {positions : List Nat} (habsent : s.supervisor = none) :
      Next s (.requeue positions) { s with results := fun p => if p ∈ positions then none else s.results p }

section Files

variable {s : State} {n : Nat} {process : Process} {phase : Phase}

theorem setPhase_getElem? (h : s.processes[n]? = some process) (m : Nat) :
    (setPhase s n process phase).processes[m]? = if n = m then some { process with phase } else s.processes[m]? := by
  have hlt : n < s.processes.length := (List.getElem?_eq_some_iff.mp h).1
  simp only [setPhase, List.getElem?_set, hlt, if_true]

theorem terminate_getElem? (ns : List Nat) (m : Nat) : (terminate s ns).processes[m]? =
    s.processes[m]?.map fun process => if m ∈ ns then { process with alive := false } else process := by
  simp only [terminate, List.getElem?_mapIdx]

theorem spawn_getElem? (pid m : Nat) {q : Process} (h : (spawn s pid).processes[m]? = some q) :
    s.processes[m]? = some q ∨ (m = s.processes.length ∧ q = ⟨pid, true, .starting⟩) := by
  rw [spawn, List.getElem?_append] at h
  split at h
  · exact .inl h
  · rename_i hlt
    obtain ⟨hm, rfl⟩ := List.getElem?_eq_some_iff.mp h
    rw [List.length_singleton] at hm
    exact .inr ⟨by omega, by simp [Nat.lt_one_iff.mp hm]⟩

/-- What a process says of itself when it is in a phase. -/
def Phase.Shows : Phase → Record → Prop
  | .starting, _ => False
  | .idle, record => record.state = .idle
  | .running position since, record | .recorded position since, record => record = ⟨.running, some position, some since⟩
  | .finished, record => record.state = .finished

/-- A progress file holds what its last writer is at, and a living process that has begun has written the file of its id
last. -/
structure Written (s : State) : Prop where
  live : ∀ {m n : Nat} {p q : Process}, s.processes[m]? = some p → s.processes[n]? = some q → p.alive = true →
    q.alive = true → p.pid = q.pid → m = n
  shown : ∀ {pid n : Nat}, s.writer pid = some n → ∃ process record, s.processes[n]? = some process ∧ process.pid = pid ∧
    s.progress pid = some record ∧ process.phase.Shows record
  own : ∀ {n : Nat} {process : Process}, s.processes[n]? = some process → process.alive = true →
    process.phase ≠ .starting → s.writer process.pid = some n

theorem Written.initial (clock : Int) : Written (initial clock) :=
  ⟨fun h => by simp [ProgressFiles.initial] at h, fun h => (by cases h), fun h => by simp [ProgressFiles.initial] at h⟩

theorem Written.writeWorkerProgress (h : Written s) (hprocess : s.processes[n]? = some process)
    (halive : process.alive = true) {record : Record} (hshows : phase.Shows record) :
    Written (writeWorkerProgress s n process phase record) := by
  have hget : ∀ {m q}, (ProgressFiles.writeWorkerProgress s n process phase record).processes[m]? = some q →
      (n = m ∧ q = { process with phase }) ∨ (n ≠ m ∧ s.processes[m]? = some q) := by
    intro m q hq
    have hq : (setPhase s n process phase).processes[m]? = some q := hq
    rw [setPhase_getElem? hprocess] at hq
    split at hq
    · rename_i hm
      exact .inl ⟨hm, (Option.some.inj hq).symm⟩
    · rename_i hm
      exact .inr ⟨hm, hq⟩
  refine ⟨fun {m m' p q} hp hq hap haq hpid => ?_, fun {pid m} hw => ?_, fun {m q} hq haq hphase => ?_⟩
  · obtain ⟨hm, rfl⟩ | ⟨hm, hp⟩ := hget hp <;> obtain ⟨hm', rfl⟩ | ⟨hm', hq⟩ := hget hq
    · exact hm.symm.trans hm'
    · exact hm.symm.trans (h.live hprocess hq halive haq hpid)
    · exact (h.live hp hprocess hap halive hpid).trans hm'
    · exact h.live hp hq hap haq hpid
  · by_cases hpid : pid = process.pid
    · subst hpid
      have hm : n = m := by simpa [ProgressFiles.writeWorkerProgress] using hw
      subst hm
      refine ⟨{ process with phase }, record, ?_, rfl, by simp [ProgressFiles.writeWorkerProgress], hshows⟩
      exact (setPhase_getElem? hprocess n).trans (if_pos rfl)
    · have hold : s.writer pid = some m := by simpa [ProgressFiles.writeWorkerProgress, hpid] using hw
      obtain ⟨q, shown, hq, hqpid, hprogress, hqshows⟩ := h.shown hold
      have hm : n ≠ m := by
        rintro rfl
        rw [hprocess] at hq
        exact hpid (hqpid ▸ congrArg Process.pid (Option.some.inj hq).symm)
      refine ⟨q, shown, ?_, hqpid, by simpa [ProgressFiles.writeWorkerProgress, hpid] using hprogress, hqshows⟩
      exact (setPhase_getElem? hprocess m).trans ((if_neg hm).trans hq)
  · obtain ⟨rfl, rfl⟩ | ⟨hm, hq⟩ := hget hq
    · simp [ProgressFiles.writeWorkerProgress]
    · have hpid : q.pid ≠ process.pid := fun hpid => hm (h.live hprocess hq halive haq hpid.symm)
      simpa [ProgressFiles.writeWorkerProgress, hpid] using h.own hq haq hphase

/-- A change of phase that the file need not show. -/
theorem Written.setPhase (h : Written s) (hprocess : s.processes[n]? = some process) (halive : process.alive = true)
    (hstarted : process.phase ≠ .starting) (hshows : ∀ record, process.phase.Shows record → phase.Shows record) :
    Written (setPhase s n process phase) := by
  have hget : ∀ {m q}, (ProgressFiles.setPhase s n process phase).processes[m]? = some q →
      ∃ q', s.processes[m]? = some q' ∧ q.pid = q'.pid ∧ q.alive = q'.alive ∧ (q.phase = q'.phase ∨ m = n) := by
    intro m q hq
    rw [setPhase_getElem? hprocess] at hq
    split at hq
    · rename_i hm
      obtain rfl := Option.some.inj hq
      exact ⟨process, hm ▸ hprocess, rfl, rfl, .inr hm.symm⟩
    · exact ⟨q, hq, rfl, rfl, .inl rfl⟩
  refine ⟨fun {m m' p q} hp hq hap haq hpid => ?_, fun {pid m} hw => ?_, fun {m q} hq haq hphase => ?_⟩
  · obtain ⟨p', hp', hpp, hpa, -⟩ := hget hp
    obtain ⟨q', hq', hqp, hqa, -⟩ := hget hq
    exact h.live hp' hq' (hpa ▸ hap) (hqa ▸ haq) (hpp ▸ hqp ▸ hpid)
  · obtain ⟨q, record, hq, hqpid, hprogress, hqshows⟩ := h.shown hw
    by_cases hm : n = m
    · subst hm
      rw [hprocess] at hq
      obtain rfl := Option.some.inj hq
      refine ⟨{ process with phase }, record, ?_, hqpid, hprogress, hshows record hqshows⟩
      exact (setPhase_getElem? hprocess n).trans (if_pos rfl)
    · exact ⟨q, record, (setPhase_getElem? hprocess m).trans ((if_neg hm).trans hq), hqpid, hprogress, hqshows⟩
  · obtain ⟨q', hq', hqp, hqa, hsame | rfl⟩ := hget hq
    · rw [hqp]
      exact h.own hq' (hqa ▸ haq) (hsame ▸ hphase)
    · rw [hprocess] at hq'
      obtain rfl := Option.some.inj hq'
      rw [hqp]
      exact h.own hprocess halive hstarted

theorem terminate_cases {ns : List Nat} {m : Nat} {q : Process} (hq : (terminate s ns).processes[m]? = some q) :
    ∃ q', s.processes[m]? = some q' ∧ q.pid = q'.pid ∧ q.phase = q'.phase ∧ (q.alive = true → q'.alive = true) := by
  rw [terminate_getElem?, Option.map_eq_some_iff] at hq
  obtain ⟨q', hq', rfl⟩ := hq
  refine ⟨q', hq', ?_⟩
  split <;> simp

theorem terminate_of_getElem? {m : Nat} {q : Process} (ns : List Nat) (hq : s.processes[m]? = some q) :
    ∃ q', (terminate s ns).processes[m]? = some q' ∧ q'.pid = q.pid ∧ q'.phase = q.phase := by
  refine ⟨_, (terminate_getElem? ns m).trans (congrArg _ hq), ?_⟩
  split <;> exact ⟨rfl, rfl⟩

theorem Written.terminate (h : Written s) (ns : List Nat) : Written (terminate s ns) := by
  refine ⟨fun hp hq hap haq hpid => ?_, fun hw => ?_, fun hq haq hphase => ?_⟩
  · obtain ⟨p', hp', hpp, -, hpa⟩ := terminate_cases hp
    obtain ⟨q', hq', hqp, -, hqa⟩ := terminate_cases hq
    exact h.live hp' hq' (hpa hap) (hqa haq) (hpp ▸ hqp ▸ hpid)
  · obtain ⟨q, record, hq, hqpid, hprogress, hqshows⟩ := h.shown hw
    obtain ⟨q', hq', hpid, hphase⟩ := terminate_of_getElem? ns hq
    exact ⟨q', record, hq', hpid.trans hqpid, hprogress, hphase ▸ hqshows⟩
  · obtain ⟨q', hq', hqp, hqphase, hqa⟩ := terminate_cases hq
    rw [hqp]
    exact h.own hq' (hqa haq) (hqphase ▸ hphase)

theorem Written.spawn (h : Written s) {pid : Nat} (hpid : Unused s pid) : Written (spawn s pid) := by
  have hold : ∀ {m : Nat} {q : Process}, s.processes[m]? = some q → (ProgressFiles.spawn s pid).processes[m]? = some q := by
    intro m q hq
    rw [ProgressFiles.spawn, List.getElem?_append_left (List.getElem?_eq_some_iff.mp hq).1]
    exact hq
  have hother : ∀ {m : Nat} {q : Process}, s.processes[m]? = some q → q.alive = true → q.pid ≠ pid := by
    intro m q hq haq hqpid
    rw [hpid q (List.mem_of_getElem? hq) hqpid] at haq
    cases haq
  refine ⟨fun hp hq hap haq heq => ?_, fun hw => ?_, fun hq haq hphase => ?_⟩
  · obtain hp | ⟨rfl, rfl⟩ := spawn_getElem? pid _ hp <;> obtain hq | ⟨rfl, rfl⟩ := spawn_getElem? pid _ hq
    · exact h.live hp hq hap haq heq
    · exact absurd heq (hother hp hap)
    · exact absurd heq.symm (hother hq haq)
    · rfl
  · obtain ⟨q, record, hq, hqpid, hprogress, hqshows⟩ := h.shown hw
    exact ⟨q, record, hold hq, hqpid, hprogress, hqshows⟩
  · obtain hq | ⟨rfl, rfl⟩ := spawn_getElem? pid _ hq
    · exact h.own hq haq hphase
    · exact absurd rfl hphase

/-- Neither the supervisor's table nor the results matter to the files. -/
theorem Written.congr {s' : State} (h : Written s) (hprocesses : s'.processes = s.processes)
    (hprogress : s'.progress = s.progress) (hwriter : s'.writer = s.writer) : Written s' := by
  refine ⟨?_, ?_, ?_⟩
  · rw [hprocesses]
    exact h.live
  · rw [hprocesses, hprogress, hwriter]
    exact h.shown
  · rw [hprocesses, hwriter]
    exact h.own

theorem written_of_next {s' : State} {op : Op} (hn : Next s op s') (h : Written s) : Written s' := by
  cases hn with
  | begin hprocess halive => exact h.writeWorkerProgress hprocess halive rfl
  | take hprocess halive => exact h.writeWorkerProgress hprocess halive rfl
  | report hprocess halive => exact h.writeWorkerProgress hprocess halive rfl
  | leave hprocess halive => exact h.writeWorkerProgress hprocess halive rfl
  | @finish n position since process _ hprocess halive hphase =>
    have hset : Written (setPhase s n process (.recorded position since)) :=
      h.setPhase hprocess halive (by simp [hphase]) (by simp [hphase, Phase.Shows])
    exact hset.congr rfl rfl rfl
  | exit => exact h.terminate _
  | spawn _ _ hpid => exact (h.spawn hpid).congr rfl rfl rfl
  | restart _ _ _ _ _ _ _ hpid => exact (h.spawn hpid).congr rfl rfl rfl
  | stop => exact (h.terminate _).congr rfl rfl rfl
  | pause => exact (h.terminate _).congr rfl rfl rfl
  | _ => exact h.congr rfl rfl rfl

end Files

end FidbPoc.Validation.ProgressFiles
