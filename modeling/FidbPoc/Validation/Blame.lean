import FidbPoc.Validation.Progress

namespace FidbPoc.Validation.ProgressFiles

open FidbPoc.Lib

section Claims

/-- The cell that a process is at, and since when. -/
def Phase.cell : Phase → Option (Nat × Int)
  | .running position since | .recorded position since => some (position, since)
  | _ => none

/-- The process has been at the position for the timeout at least. -/
def Executing (s : State) (timeoutSeconds n position : Nat) : Prop :=
  ∃ process since, s.processes[n]? = some process ∧ process.phase.cell = some (position, since) ∧
    since + timeoutSeconds * 1000000000 ≤ s.clock

/-- A step that stops a worker for a timeout, or puts the timeout down, does so for a cell that this very process has been
at for long enough; a worker is taken for finished when this very process has said so. -/
def Blames (st : Step State Op) : Prop :=
  ∀ sup slot, st.before.supervisor = some sup →
    match st.op with
    | .timeout i => sup.slots[i]? = some slot → ∀ position,
        st.after.supervisor = sup.to (.stopping i position) → Executing st.before sup.cellTimeoutSeconds slot.process position
    | .record => ∀ i position, sup.act = .recording i position → sup.slots[i]? = some slot →
        st.before.results position = none → Executing st.before sup.cellTimeoutSeconds slot.process position
    | .finished i => sup.slots[i]? = some slot →
        ∃ process, st.before.processes[slot.process]? = some process ∧ process.phase = .finished
    | _ => True

/-- The progress file that the supervisor goes by was last written by the very process that it answers for. -/
def ReadsOwn (s : State) : Op → Prop
  | .timeout i | .finished i => ∀ sup slot process, s.supervisor = some sup → sup.slots[i]? = some slot →
      s.processes[slot.process]? = some process → s.writer process.pid = some slot.process
  | _ => True

end Claims

section Watching

variable {s s' : State}

/-- The cell of a process that a record shows to be timed out. -/
theorem Phase.Shows.cell {phase : Phase} {record : Record} {timeoutSeconds position : Nat} {now : Int}
    (h : phase.Shows record) (htimeout : timedOutPosition (some record) timeoutSeconds now = some position) :
    ∃ since, phase.cell = some (position, since) ∧ since + timeoutSeconds * 1000000000 ≤ now := by
  obtain ⟨started, rfl, hle⟩ : ∃ started, record = ⟨.running, some position, some started⟩ ∧
      started + timeoutSeconds * 1000000000 ≤ now := by
    unfold timedOutPosition at htimeout
    split at htimeout
    · rename_i position' started heq
      obtain rfl := Option.some.inj heq
      split at htimeout
      · cases htimeout
      · obtain rfl := Option.some.inj htimeout
        exact ⟨started, rfl, by omega⟩
    · cases htimeout
  refine ⟨started, ?_, hle⟩
  cases phase with
  | starting => exact h.elim
  | idle => cases h
  | finished => cases h
  | running position' since =>
    cases h
    rfl
  | recorded position' since =>
    cases h
    rfl

theorem Phase.Shows.finished {phase : Phase} {record : Record} (h : phase.Shows record)
    (hfinished : workerFinishedCleanly (some record) = true) : phase = .finished := by
  have hstate : record.state = .finished := of_decide_eq_true hfinished
  cases phase with
  | starting => exact h.elim
  | idle => exact absurd (hstate.symm.trans h) (by decide)
  | finished => rfl
  | running position since =>
    cases h
    cases hstate
  | recorded position since =>
    cases h
    cases hstate

/-- The record of a file that a process has written last shows what this process is at. -/
theorem Written.shows (h : Written s) {n : Nat} {process : Process} (hprocess : s.processes[n]? = some process)
    (hown : s.writer process.pid = some n) : ∃ record, s.progress process.pid = some record ∧ process.phase.Shows record := by
  obtain ⟨q, record, hq, -, hprogress, hshows⟩ := h.shown hown
  rw [hprocess] at hq
  obtain rfl := Option.some.inj hq
  exact ⟨record, hprogress, hshows⟩

/-- The supervisor's own processes have put down a result of the cell that they have recorded, and the process that it is
about to stop has been at its cell for long enough or has put down its result since. -/
structure Watched (s : State) : Prop where
  recorded : ∀ {sup : Supervisor} {slot : Slot} {process : Process} {position : Nat} {since : Int},
    s.supervisor = some sup → slot ∈ sup.slots → s.processes[slot.process]? = some process →
    process.phase = .recorded position since → ∃ result, s.results position = some result ∧ result ≠ timedOut
  stopped : ∀ {sup : Supervisor} {slot : Slot} {i position : Nat}, s.supervisor = some sup →
    sup.act = .stopping i position ∨ sup.act = .recording i position → sup.slots[i]? = some slot →
    Executing s sup.cellTimeoutSeconds slot.process position ∨ s.results position ≠ none

theorem Watched.initial (clock : Int) : Watched (initial clock) := ⟨fun h => (by cases h), fun h => (by cases h)⟩

theorem supervisorFailure_of_some {reasonCode : String} {results : Nat → Option Result} {p q : Nat} {result : Result}
    (h : results q = some result) : supervisorFailure reasonCode results p q = some result := by
  unfold supervisorFailure
  split
  · exact h
  · rename_i hnone
    have hne : q ≠ p := by
      rintro rfl
      simp [h] at hnone
    rw [Function.update_of_ne hne, h]

theorem foldl_supervisorFailure_of_some {reasonCode : String} (released : List Nat) {results : Nat → Option Result}
    {q : Nat} {result : Result} (h : results q = some result) :
    released.foldl (supervisorFailure reasonCode) results q = some result := by
  induction released generalizing results with
  | nil => exact h
  | cons p released ih => exact ih (supervisorFailure_of_some h)

/-- What the table, the processes and the results of a step must keep for the recorded cells to keep their results. -/
theorem Watched.recorded_of (h : Watched s)
    (hslots : ∀ sup', s'.supervisor = some sup' → ∀ slot' ∈ sup'.slots, s.processes.length ≤ slot'.process ∨
      ∃ sup slot, s.supervisor = some sup ∧ slot ∈ sup.slots ∧ slot.process = slot'.process)
    (hphases : ∀ (m : Nat) (q' : Process) position since, s'.processes[m]? = some q' → q'.phase = .recorded position since →
      (∃ q, s.processes[m]? = some q ∧ q.phase = .recorded position since) ∨
        ∃ result, s'.results position = some result ∧ result ≠ timedOut)
    (hresults : ∀ p result, s.results p = some result → result ≠ timedOut →
      ∃ result', s'.results p = some result' ∧ result' ≠ timedOut)
    {sup' : Supervisor} {slot' : Slot} {process' : Process} {position : Nat} {since : Int} (hsup : s'.supervisor = some sup')
    (hslot : slot' ∈ sup'.slots) (hprocess : s'.processes[slot'.process]? = some process')
    (hphase : process'.phase = .recorded position since) :
    ∃ result, s'.results position = some result ∧ result ≠ timedOut := by
  obtain ⟨q, hq, hqphase⟩ | hdone := hphases _ _ _ _ hprocess hphase
  · obtain hnew | ⟨sup, slot, hsup, hslot, heq⟩ := hslots _ hsup _ hslot
    · exact absurd (List.getElem?_eq_some_iff.mp hq).1 (Nat.not_lt.mpr hnew)
    · obtain ⟨result, hresult, hne⟩ := h.recorded hsup hslot (heq ▸ hq) hqphase
      exact hresults _ _ hresult hne
  · exact hdone

theorem Executing.of_le {timeoutSeconds n position : Nat} (h : Executing s timeoutSeconds n position)
    (hprocess : ∀ q, s.processes[n]? = some q → ∃ q', s'.processes[n]? = some q' ∧ q'.phase = q.phase)
    (hclock : s.clock ≤ s'.clock) : Executing s' timeoutSeconds n position := by
  obtain ⟨process, since, hp, hcell, hle⟩ := h
  obtain ⟨process', hp', hphase⟩ := hprocess process hp
  exact ⟨process', since, hp', hphase ▸ hcell, Int.le_trans hle hclock⟩

section Table

variable {sup : Supervisor} {i : Nat} {slot : Slot}

theorem mem_slots_set {slots : List Slot} {new slot' : Slot} (h : slot' ∈ slots.set i new) : slot' ∈ slots ∨ slot' = new :=
  List.mem_or_eq_of_mem_set h

/-- A worker's own step: its phase changes, and a result is put down when it has one. -/
structure Works (s s' : State) (n : Nat) : Prop where
  supervisor : s'.supervisor = s.supervisor
  clock : s'.clock = s.clock
  others : ∀ m, m ≠ n → s'.processes[m]? = s.processes[m]?
  results : ∀ p result, s.results p = some result → result ≠ timedOut →
    ∃ result', s'.results p = some result' ∧ result' ≠ timedOut
  nonempty : ∀ p, s.results p ≠ none → s'.results p ≠ none
  phase : ∀ q' position since, s'.processes[n]? = some q' → q'.phase = .recorded position since →
    ∃ result, s'.results position = some result ∧ result ≠ timedOut
  cell : ∀ q position since, s.processes[n]? = some q → q.phase.cell = some (position, since) →
    s'.results position ≠ none ∨ q.phase = .recorded position since

theorem Watched.works (h : Watched s) {n : Nat} (hw : Works s s' n) : Watched s' := by
  refine ⟨h.recorded_of (fun sup' hsup' slot' hslot' => .inr ⟨sup', slot', hw.supervisor ▸ hsup', hslot', rfl⟩)
    (fun m q' position since hq' hphase => ?_) hw.results, fun {sup slot i position} hsup hact hslot => ?_⟩
  · by_cases hm : m = n
    · exact .inr (hw.phase q' position since (hm ▸ hq') hphase)
    · exact .inl ⟨q', hw.others m hm ▸ hq', hphase⟩
  · have hsup : s.supervisor = some sup := hw.supervisor ▸ hsup
    obtain hexecuting | hresult := h.stopped hsup hact hslot
    · by_cases hm : slot.process = n
      · obtain ⟨q, since, hq, hcell, hle⟩ := hexecuting
        obtain hdone | hphase := hw.cell q position since (hm ▸ hq) hcell
        · exact .inr hdone
        · obtain ⟨result, hresult, -⟩ := h.recorded hsup (List.mem_of_getElem? hslot) hq hphase
          exact .inr (hw.nonempty _ (by simp [hresult]))
      · refine .inl (hexecuting.of_le (fun q hq => ⟨q, (hw.others _ hm).trans hq, rfl⟩) (Int.le_of_eq hw.clock.symm))
    · exact .inr (hw.nonempty _ hresult)

/-- A write of a progress file by a process that is not recorded then. -/
theorem works_writeWorkerProgress {n : Nat} {process : Process} {phase : Phase} {record : Record}
    (hprocess : s.processes[n]? = some process) (hnot : ∀ position since, phase ≠ .recorded position since)
    (hcell : ∀ position since, process.phase.cell = some (position, since) → process.phase = .recorded position since) :
    Works s (writeWorkerProgress s n process phase record) n where
  supervisor := rfl
  clock := rfl
  others m hm := (setPhase_getElem? hprocess m).trans (if_neg (Ne.symm hm))
  results p result h hne := ⟨result, h, hne⟩
  nonempty p h := h
  phase q' position since hq' hphase := by
    have hq' : (setPhase s n process phase).processes[n]? = some q' := hq'
    rw [setPhase_getElem? hprocess, if_pos rfl] at hq'
    obtain rfl := Option.some.inj hq'
    exact absurd hphase (hnot position since)
  cell q position since hq hq' := by
    rw [hprocess] at hq
    obtain rfl := Option.some.inj hq
    exact .inr (hcell position since hq')

theorem works_finish {n position : Nat} {since : Int} {process : Process} {result : Result}
    (hprocess : s.processes[n]? = some process) (hphase : process.phase = .running position since) (hne : result ≠ timedOut) :
    Works s (setResult (setPhase s n process (.recorded position since)) position result) n where
  supervisor := rfl
  clock := rfl
  others m hm := (setPhase_getElem? hprocess m).trans (if_neg (Ne.symm hm))
  results p result' h hne' := by
    by_cases hp : p = position
    · exact ⟨result, by simp [setResult, hp], hne⟩
    · exact ⟨result', by simpa [setResult, setPhase, hp] using h, hne'⟩
  nonempty p h := by
    by_cases hp : p = position
    · simp [setResult, hp]
    · simpa [setResult, setPhase, hp] using h
  phase q' position' since' hq' hphase' := by
    have hq' : (setPhase s n process (.recorded position since)).processes[n]? = some q' := hq'
    rw [setPhase_getElem? hprocess, if_pos rfl] at hq'
    obtain rfl := Option.some.inj hq'
    obtain ⟨rfl, rfl⟩ := Phase.recorded.inj hphase'
    exact ⟨result, by simp [setResult], hne⟩
  cell q position' since' hq hcell := by
    rw [hprocess] at hq
    obtain rfl := Option.some.inj hq
    rw [hphase] at hcell
    obtain ⟨rfl, rfl⟩ := Prod.mk.inj (Option.some.inj hcell)
    exact .inl (by simp [setResult])

/-- A step of a supervisor that is about to stop nothing. -/
theorem Watched.supervise (h : Watched s) {sup sup' : Supervisor} (hsup : s.supervisor = some sup)
    (hsup' : s'.supervisor = some sup') (hidle : sup'.act = .watching ∨ ∃ position, sup'.act = .judging position)
    (hslots : ∀ slot' ∈ sup'.slots, s.processes.length ≤ slot'.process ∨ ∃ slot ∈ sup.slots, slot.process = slot'.process)
    (hphases : ∀ (m : Nat) (q' : Process) position since, s'.processes[m]? = some q' → q'.phase = .recorded position since →
      ∃ q, s.processes[m]? = some q ∧ q.phase = .recorded position since)
    (hresults : ∀ p result, s.results p = some result → result ≠ timedOut → s'.results p = some result) : Watched s' := by
  refine ⟨h.recorded_of (fun new hnew slot' hslot' => ?_) (fun m q' position since hq' hphase => .inl (hphases _ _ _ _ hq' hphase))
    fun p result hp hne => ⟨result, hresults p result hp hne, hne⟩, fun {new slot i position} hnew hact hslot => ?_⟩
  · obtain rfl := Option.some.inj (hsup'.symm.trans hnew)
    exact (hslots slot' hslot').imp_right fun ⟨slot, hslot, heq⟩ => ⟨sup, slot, hsup, hslot, heq⟩
  · obtain rfl := Option.some.inj (hsup'.symm.trans hnew)
    obtain hidle | ⟨_, hidle⟩ := hidle <;> rw [hidle] at hact <;> rcases hact with hact | hact <;> cases hact

theorem spawn_recorded {pid m : Nat} {q : Process} {position : Nat} {since : Int}
    (hq : (spawn s pid).processes[m]? = some q) (hphase : q.phase = .recorded position since) :
    ∃ q, s.processes[m]? = some q ∧ q.phase = .recorded position since := by
  obtain hq | ⟨rfl, rfl⟩ := spawn_getElem? pid m hq
  · exact ⟨q, hq, hphase⟩
  · cases hphase

/-- What the supervisor decides for a record of a process's own writing is so. -/
theorem executing_of_own (hwritten : Written s) {process : Process} {timeoutSeconds position : Nat}
    (hprocess : s.processes[slot.process]? = some process) (hown : s.writer process.pid = some slot.process)
    (htimeout : timedOutPosition (s.progress process.pid) timeoutSeconds s.clock = some position) :
    Executing s timeoutSeconds slot.process position := by
  obtain ⟨record, hprogress, hshows⟩ := hwritten.shows hprocess hown
  rw [hprogress] at htimeout
  obtain ⟨since, hcell, hle⟩ := hshows.cell htimeout
  exact ⟨process, since, hprocess, hcell, hle⟩

theorem watched_of_next {op : Op} (hn : Next s op s') (hwritten : Written s) (hown : ReadsOwn s op) (h : Watched s) :
    Watched s' := by
  have hslots : ∀ sup : Supervisor, ∀ slot' ∈ sup.slots,
      s.processes.length ≤ slot'.process ∨ ∃ slot ∈ sup.slots, slot.process = slot'.process :=
    fun _ slot' hslot' => .inr ⟨slot', hslot', rfl⟩
  have hset : ∀ (sup : Supervisor) {i : Nat} {slot : Slot} (handled : Bool), sup.slots[i]? = some slot →
      ∀ slot' ∈ sup.slots.set i { slot with handled },
        s.processes.length ≤ slot'.process ∨ ∃ slot ∈ sup.slots, slot.process = slot'.process := by
    intro sup i slot handled hslot slot' hslot'
    obtain hslot' | rfl := List.mem_or_eq_of_mem_set hslot'
    · exact hslots sup slot' hslot'
    · exact .inr ⟨slot, List.mem_of_getElem? hslot, rfl⟩
  have hphases : ∀ (m : Nat) (q' : Process) position since, s.processes[m]? = some q' → q'.phase = .recorded position since →
      ∃ q, s.processes[m]? = some q ∧ q.phase = .recorded position since :=
    fun _ q' _ _ hq' hphase => ⟨q', hq', hphase⟩
  cases hn with
  | tick =>
    refine ⟨h.recorded, fun hsup hact hslot => (h.stopped hsup hact hslot).imp_left fun hexecuting => ?_⟩
    exact hexecuting.of_le (fun q hq => ⟨q, hq, rfl⟩) (by simp only; omega)
  | begin hprocess _ hphase =>
    exact h.works (works_writeWorkerProgress hprocess (by simp) (by simp [hphase, Phase.cell]))
  | take hprocess _ hphase =>
    exact h.works (works_writeWorkerProgress hprocess (by simp) (by simp [hphase, Phase.cell]))
  | @finish n position since process failed hprocess _ hphase =>
    refine h.works (works_finish hprocess hphase ?_)
    cases failed <;> decide
  | report hprocess _ hphase =>
    exact h.works (works_writeWorkerProgress hprocess (by simp) (by simp [hphase, Phase.cell]))
  | leave hprocess _ hphase =>
    exact h.works (works_writeWorkerProgress hprocess (by simp) (by simp [hphase, Phase.cell]))
  | exit =>
    refine ⟨fun hsup hslot hprocess hphase => ?_, fun hsup hact hslot => (h.stopped hsup hact hslot).imp_left fun hexecuting => ?_⟩
    · obtain ⟨q, hq, -, hqphase, -⟩ := terminate_cases hprocess
      exact h.recorded hsup hslot hq (hqphase ▸ hphase)
    · refine hexecuting.of_le (fun q hq => ?_) (Int.le_refl _)
      obtain ⟨q', hq', -, hphase⟩ := terminate_of_getElem? _ hq
      exact ⟨q', hq', hphase⟩
  | start =>
    refine ⟨fun hsup hslot => ?_, fun hsup hact => ?_⟩
    · rw [← Option.some.inj hsup] at hslot
      cases hslot
    · rw [← Option.some.inj hsup] at hact
      rcases hact with hact | hact <;> cases hact
  | @spawn sup pid hsup hact =>
    refine h.supervise hsup rfl (.inl hact) (fun slot' hslot' => ?_) (fun m q' _ _ hq' hphase => spawn_recorded hq' hphase)
      fun _ _ hp _ => hp
    obtain hslot' | hslot' := List.mem_append.mp hslot'
    · exact hslots sup slot' hslot'
    · exact .inl (Nat.le_of_eq (congrArg Slot.process (List.mem_singleton.mp hslot')).symm)
  | @timeout sup i position slot process hsup hact hslot hprocess _ htimeout =>
    refine ⟨fun hsup' hslot' hprocess' hphase => ?_, fun hsup' hact' hslot' => .inl ?_⟩
    · obtain rfl := Option.some.inj hsup'
      exact h.recorded hsup hslot' hprocess' hphase
    · obtain rfl := Option.some.inj hsup'
      obtain ⟨rfl, rfl⟩ : i = _ ∧ position = _ := by simpa using hact'
      obtain rfl := Option.some.inj (hslot.symm.trans hslot')
      exact executing_of_own hwritten hprocess (hown _ _ _ hsup hslot hprocess) htimeout
  | @stop sup i position slot hsup hact hslot =>
    refine ⟨fun hsup' hslot' hprocess' hphase => ?_, fun hsup' hact' hslot' => ?_⟩
    · obtain rfl := Option.some.inj hsup'
      obtain ⟨q, hq, -, hqphase, -⟩ := terminate_cases hprocess'
      exact h.recorded hsup hslot' hq (hqphase ▸ hphase)
    · obtain rfl := Option.some.inj hsup'
      obtain ⟨rfl, rfl⟩ : i = _ ∧ position = _ := by simpa using hact'
      refine (h.stopped hsup (.inl hact) hslot').imp_left fun hexecuting => hexecuting.of_le (fun q hq => ?_) (Int.le_refl _)
      obtain ⟨q', hq', -, hphase⟩ := terminate_of_getElem? [slot.process] hq
      exact ⟨q', hq', hphase⟩
  | @record sup _ position hsup =>
    exact h.supervise hsup rfl (.inr ⟨position, rfl⟩) (hslots sup) hphases fun _ _ hp _ => supervisorFailure_of_some hp
  | @keep sup _ hsup => exact h.supervise hsup rfl (.inl rfl) (hslots sup) hphases fun _ _ hp _ => hp
  | @retry sup position hsup _ hresult =>
    refine h.supervise hsup rfl (.inl rfl) (hslots sup) hphases fun p result hp hne => ?_
    -- only a timeout is taken back
    have hother : p ≠ position := by
      rintro rfl
      rw [hresult] at hp
      exact hne (Option.some.inj hp).symm
    exact (Function.update_of_ne hother ..).trans hp
  | @finished sup _ _ _ hsup hact hslot =>
    exact h.supervise hsup rfl (.inl hact) (hset sup true hslot) hphases fun _ _ hp _ => hp
  | @restart sup _ _ _ _ hsup hact =>
    refine h.supervise hsup rfl (.inl hact) (fun slot' hslot' => ?_) (fun m q' _ _ hq' hphase => spawn_recorded hq' hphase)
      fun _ _ hp _ => hp
    obtain hslot' | rfl := List.mem_or_eq_of_mem_set hslot'
    · exact hslots sup slot' hslot'
    · exact .inl (Nat.le_refl _)
  | @giveUp sup _ _ _ released hsup hact hslot =>
    exact h.supervise hsup rfl (.inl hact) (hset sup true hslot) hphases fun _ _ hp _ => foldl_supervisorFailure_of_some released hp
  | pause => exact ⟨fun hsup => (by cases hsup), fun hsup => (by cases hsup)⟩
  | kill => exact ⟨fun hsup => (by cases hsup), fun hsup => (by cases hsup)⟩
  | requeue habsent =>
    refine ⟨fun hsup => ?_, fun hsup => ?_⟩
    · cases habsent.symm.trans hsup
    · cases habsent.symm.trans hsup

end Table

end Watching

section Runs

variable {s s' : State} {trace : List (Step State Op)} {clock : Int}

theorem blames_of_next {op : Op} (hn : Next s op s') (hwritten : Written s) (hwatched : Watched s) (hown : ReadsOwn s op) :
    Blames ⟨s, op, s'⟩ := by
  intro sup slot hsup
  cases hn with
  | timeout hsup' _ hslot hprocess _ htimeout =>
    intro hslot' position hafter
    obtain rfl := Option.some.inj (hsup'.symm.trans hsup)
    obtain rfl := Option.some.inj (hslot.symm.trans hslot')
    obtain rfl : _ = position := by simpa [Supervisor.to] using hafter
    exact executing_of_own hwritten hprocess (hown _ _ _ hsup' hslot hprocess) htimeout
  | record =>
    intro i position hact hslot hnone
    exact (hwatched.stopped hsup (.inr hact) hslot).resolve_right fun h => h hnone
  | finished hsup' _ hslot hprocess _ _ hfinished =>
    intro hslot'
    obtain rfl := Option.some.inj (hsup'.symm.trans hsup)
    obtain rfl := Option.some.inj (hslot.symm.trans hslot')
    obtain ⟨record, hprogress, hshows⟩ := hwritten.shows hprocess (hown _ _ _ hsup' hslot hprocess)
    exact ⟨_, hprocess, hshows.finished (hprogress ▸ hfinished)⟩
  | _ => trivial

/-- In a run whose supervisor goes by a worker's own records only, every timeout blames the right cell. -/
theorem timeouts_blame (h : Run Next (initial clock) trace s) (hown : ∀ st ∈ trace, ReadsOwn st.before st.op) :
    ∀ st ∈ trace, Blames st := by
  intro st hst
  have hbefore := h.invariant_before (P := fun s => Written s ∧ Watched s) ⟨.initial clock, .initial clock⟩
    fun st hst hn hs => ⟨written_of_next hn hs.1, watched_of_next hn hs.1 (hown st hst) hs.2⟩
  obtain ⟨hn, hwritten, hwatched⟩ := hbefore st hst
  exact blames_of_next hn hwritten hwatched (hown st hst)

/-- A timeout is the right one only when the record is the process's own. -/
theorem blames_timeout_iff {i : Nat} (hn : Next s (.timeout i) s') (hwritten : Written s) (hwatched : Watched s) :
    Blames ⟨s, .timeout i, s'⟩ ↔ ReadsOwn s (.timeout i) := by
  refine ⟨fun hblames sup slot process hsup hslot hprocess => ?_, blames_of_next hn hwritten hwatched⟩
  cases hn with
  | timeout hsup' _ hslot' hprocess' halive =>
    obtain rfl := Option.some.inj (hsup'.symm.trans hsup)
    obtain rfl := Option.some.inj (hslot'.symm.trans hslot)
    obtain rfl := Option.some.inj (hprocess'.symm.trans hprocess)
    obtain ⟨q, since, hq, hcell, -⟩ := hblames _ _ hsup' hslot' _ rfl
    obtain rfl := Option.some.inj (hprocess'.symm.trans hq)
    refine hwritten.own hprocess' halive fun hphase => ?_
    rw [hphase] at hcell
    cases hcell

/-- The operating system gives a new worker an id that no worker of the run root has had. -/
def StartsUnused (s : State) : Op → Prop
  | .spawn pid | .restart _ pid => ∀ process ∈ s.processes, process.pid ≠ pid
  | _ => True

/-- The process ids of a run root that were given out once each. -/
structure Distinct (s : State) : Prop where
  written : Written s
  pids : (s.processes.map Process.pid).Nodup
  writers : ∀ pid, (s.progress pid).isSome → (s.writer pid).isSome

theorem distinct_of_next {op : Op} (hn : Next s op s') (hunused : StartsUnused s op) (h : Distinct s) : Distinct s' := by
  have hset : ∀ {n : Nat} {process : Process} (phase : Phase), s.processes[n]? = some process →
      (setPhase s n process phase).processes.map Process.pid = s.processes.map Process.pid := by
    intro n process phase hprocess
    refine List.ext_getElem? fun m => ?_
    rw [List.getElem?_map, List.getElem?_map, setPhase_getElem? hprocess]
    split
    · rename_i hm
      rw [← hm, hprocess]
      rfl
    · rfl
  have hterminate : ∀ ns, (terminate s ns).processes.map Process.pid = s.processes.map Process.pid := by
    intro ns
    refine List.ext_getElem? fun m => ?_
    rw [List.getElem?_map, List.getElem?_map, terminate_getElem?, Option.map_map]
    refine congrArg (fun f => Option.map f _) (funext fun process => ?_)
    simp only [Function.comp_apply]
    split <;> rfl
  have hspawn : ∀ pid, (∀ process ∈ s.processes, process.pid ≠ pid) → ((spawn s pid).processes.map Process.pid).Nodup := by
    intro pid hpid
    rw [spawn, List.map_append, List.map_singleton, List.nodup_append]
    refine ⟨h.pids, List.pairwise_singleton _ _, fun a ha b hb => ?_⟩
    obtain ⟨process, hprocess, rfl⟩ := List.mem_map.mp ha
    rw [List.mem_singleton.mp hb]
    exact hpid process hprocess
  have hwrite : ∀ {n : Nat} {process : Process} (phase : Phase) (record : Record) (pid : Nat),
      ((writeWorkerProgress s n process phase record).progress pid).isSome →
      ((writeWorkerProgress s n process phase record).writer pid).isSome := by
    intro n process phase record pid
    by_cases hpid : pid = process.pid
    · simp [writeWorkerProgress, hpid]
    · simpa [writeWorkerProgress, hpid] using h.writers pid
  refine ⟨written_of_next hn h.written, ?_, fun pid hpid => ?_⟩
  · cases hn with
    | begin hprocess => exact hset _ hprocess ▸ h.pids
    | take hprocess => exact hset _ hprocess ▸ h.pids
    | finish hprocess => exact hset _ hprocess ▸ h.pids
    | report hprocess => exact hset _ hprocess ▸ h.pids
    | leave hprocess => exact hset _ hprocess ▸ h.pids
    | exit => exact hterminate _ ▸ h.pids
    | stop => exact hterminate _ ▸ h.pids
    | pause => exact hterminate _ ▸ h.pids
    | spawn => exact hspawn _ hunused
    | restart => exact hspawn _ hunused
    | _ => exact h.pids
  · cases hn with
    | begin => exact hwrite _ _ pid hpid
    | take => exact hwrite _ _ pid hpid
    | report => exact hwrite _ _ pid hpid
    | leave => exact hwrite _ _ pid hpid
    | _ => exact h.writers pid hpid

/-- Without a process id given out twice the supervisor goes by a worker's own records only. -/
theorem Distinct.readsOwn {op : Op} (h : Distinct s) (hn : Next s op s') : ReadsOwn s op := by
  have hown : ∀ (slot : Slot) (process : Process), s.processes[slot.process]? = some process →
      (s.progress process.pid).isSome → s.writer process.pid = some slot.process := by
    intro slot process hprocess hsome
    obtain ⟨n, hn⟩ := Option.isSome_iff_exists.mp (h.writers _ hsome)
    obtain ⟨q, -, hq, hpid, -⟩ := h.written.shown hn
    have hmap : (s.processes.map Process.pid)[n]? = (s.processes.map Process.pid)[slot.process]? := by
      rw [List.getElem?_map, List.getElem?_map, hq, hprocess, Option.map_some, Option.map_some, hpid]
    have hlt : n < (s.processes.map Process.pid).length := by
      rw [List.length_map]
      exact (List.getElem?_eq_some_iff.mp hq).1
    rw [hn, (List.getElem?_inj hlt h.pids).mp hmap]
  cases hn with
  | timeout hsup _ hslot hprocess _ htimeout =>
    intro sup slot process hsup' hslot' hprocess'
    obtain rfl := Option.some.inj (hsup.symm.trans hsup')
    obtain rfl := Option.some.inj (hslot.symm.trans hslot')
    obtain rfl := Option.some.inj (hprocess.symm.trans hprocess')
    refine hown _ _ hprocess (Option.isSome_iff_ne_none.mpr fun hnone => ?_)
    rw [hnone] at htimeout
    cases htimeout
  | finished hsup _ hslot hprocess _ _ hfinished =>
    intro sup slot process hsup' hslot' hprocess'
    obtain rfl := Option.some.inj (hsup.symm.trans hsup')
    obtain rfl := Option.some.inj (hslot.symm.trans hslot')
    obtain rfl := Option.some.inj (hprocess.symm.trans hprocess')
    refine hown _ _ hprocess (Option.isSome_iff_ne_none.mpr fun hnone => ?_)
    rw [hnone] at hfinished
    cases hfinished
  | _ => trivial

theorem readsOwn_of_unused (h : Run Next (initial clock) trace s) (hunused : ∀ st ∈ trace, StartsUnused st.before st.op) :
    ∀ st ∈ trace, ReadsOwn st.before st.op := by
  intro st hst
  have hinitial : Distinct (initial clock) := ⟨.initial clock, List.nodup_nil, fun _ h => (by cases h)⟩
  obtain ⟨hn, hdistinct⟩ := h.invariant_before hinitial
    (fun st hst hn hs => distinct_of_next hn (hunused st hst) hs) st hst
  exact hdistinct.readsOwn hn

end Runs

namespace Reused

/-- A worker takes position 1, overruns and is stopped for it. -/
theorem overrun_blamed : ∃ trace s, Run Next (initial 0) trace s ∧ s.results 1 = some timedOut ∧ ∀ st ∈ trace, Blames st := by
  have run0 : Run Next (initial 0) [] (initial 0) ∧ ∀ st ∈ ([] : List (Step State Op)), StartsUnused st.before st.op :=
    ⟨.nil, fun _ h => absurd h List.not_mem_nil⟩
  have run1 := Run.snoc_all run0 (.start rfl : Next _ (.start 10) _) trivial
  have run2 := Run.snoc_all run1 (.spawn rfl rfl (by simp [Unused, initial]) : Next _ (.spawn 100) _) (by simp [StartsUnused, initial])
  have run3 := Run.snoc_all run2 (.begin rfl rfl rfl : Next _ (.begin 0) _) trivial
  have run4 := Run.snoc_all run3 (.take rfl rfl rfl rfl : Next _ (.take 0 1) _) trivial
  have run5 := Run.snoc_all run4 (.tick : Next _ (.tick 10000000000) _) trivial
  have run6 := Run.snoc_all run5 (.timeout rfl rfl rfl rfl rfl rfl : Next _ (.timeout 0) _) trivial
  have run7 := Run.snoc_all run6 (.stop rfl rfl rfl : Next _ .stop _) trivial
  have run8 := Run.snoc_all run7 (.record rfl rfl : Next _ .record _) trivial
  exact ⟨_, _, run8.1, rfl, timeouts_blame run8.1 (readsOwn_of_unused run8.1 run8.2)⟩

/-- A worker is paused at position 1, and after ten seconds the run goes on with a worker that is given the same process
id. Before it has written anything it is stopped, and position 1 is put down as timed out. -/
theorem reused_pid_blamed : ∃ trace s, Run Next (initial 0) trace s ∧ s.results 1 = some timedOut ∧ ∃ st ∈ trace, ¬Blames st := by
  have run1 := Run.snoc .nil (.start rfl : Next (initial 0) (.start 10) _)
  have run2 := run1.snoc (.spawn rfl rfl (by simp [Unused, initial]) : Next _ (.spawn 100) _)
  have run3 := run2.snoc (.begin rfl rfl rfl : Next _ (.begin 0) _)
  have run4 := run3.snoc (.take rfl rfl rfl rfl : Next _ (.take 0 1) _)
  have run5 := run4.snoc (.pause rfl : Next _ .pause _)
  have run6 := run5.snoc (.tick : Next _ (.tick 10000000000) _)
  have run7 := run6.snoc (.start rfl : Next _ (.start 10) _)
  have run8 := run7.snoc (.spawn rfl rfl (fun process h _ => by rw [List.mem_singleton.mp h]; rfl) : Next _ (.spawn 100) _)
  have run9 := run8.snoc (.timeout rfl rfl rfl rfl rfl rfl : Next _ (.timeout 0) _)
  have run10 := run9.snoc (.stop rfl rfl rfl : Next _ .stop _)
  have run11 := run10.snoc (.record rfl rfl : Next _ .record _)
  refine ⟨_, _, run11, rfl, _, List.mem_append_right _ List.mem_cons_self, fun hblames => ?_⟩
  obtain ⟨process, since, hprocess, hcell, -⟩ := hblames _ _ rfl _ _ rfl rfl rfl
  obtain rfl := Option.some.inj hprocess
  cases hcell

end Reused

end FidbPoc.Validation.ProgressFiles
