import FidbPoc.Validation.Exclusion

namespace FidbPoc.Validation

open Lib

section Workers

variable {execution : Execution} {pid : Nat} {files files' : RunFiles} {worker worker' : Worker}

/-- A claim file of the worker is about. -/
def Phase.owns : Phase → Bool
  | .looking => false
  | .claiming => false
  | .finished => false
  | _ => true

/-- The result of the worker is written, and its claim not yet released. -/
def Phase.wrote : Phase → Bool
  | .recorded _ => true
  | .releasing _ => true
  | _ => false

/-- The positions that a worker has still to see to. -/
def Worker.todo (worker : Worker) : List Nat :=
  match worker.phase with
  | .recorded _ => worker.positions.tail
  | .releasing _ => worker.positions.tail
  | _ => worker.positions

/-- What a worker's own steps keep. -/
structure Local (worker : Worker) : Prop where
  running : ∀ p, worker.progress = .running p →
    worker.positions.head? = some p ∧ (worker.phase = .running ∨ ∃ failed, worker.phase = .recorded failed)
  finished : worker.progress = .finished → worker.phase = .finished
  done : worker.phase = .finished → worker.positions = []

/-- There is a result, and it is none that the supervisor gave for a timeout. -/
def NotTimedOut (result : Option Result) : Prop := ∃ r, result = some r ∧ r ≠ .failed (some "cell-timeout")

theorem notTimedOut_own (failed : Bool) : NotTimedOut (some (if failed then .failed none else .complete)) := by
  cases failed <;> exact ⟨_, rfl, by decide⟩

theorem Advanced.local (h : Advanced execution pid files worker files' worker')
    (hcontinue : execution.continueAfterCellFailure = true) (hlocal : Local worker) : Local worker' := by
  obtain ⟨hrunning, hfinished, hdone⟩ := hlocal
  cases h with
  | abandon _ _ hstop =>
    rw [hcontinue] at hstop
    cases hstop
  | run hphase hpositions =>
    refine ⟨fun p hp => ?_, fun hp => (by cases hp), fun hp => (by cases hp)⟩
    obtain rfl := Progress.running.inj hp
    exact ⟨by simp [hpositions], .inl rfl⟩
  | record hphase =>
    refine ⟨fun p hp => ⟨(hrunning p hp).1, .inr ⟨_, rfl⟩⟩, fun hp => ?_, fun hp => (by cases hp)⟩
    have := hfinished hp
    rw [hphase] at this
    cases this
  | finish hphase hpositions => exact ⟨fun _ hp => (by cases hp), fun _ => rfl, fun _ => hpositions⟩
  | _ =>
    refine ⟨fun p hp => ?_, fun hp => ?_, fun hp => ?_⟩
    all_goals simp_all

/-- A worker passes a position that has a result, or one that is claimed. -/
theorem Advanced.todo {q : Nat} (h : Advanced execution pid files worker files' worker') (hq : q ∈ worker.todo) :
    q ∈ worker'.todo ∨ files'.results q ≠ none ∨
      worker.phase = .claiming ∧ worker.positions.head? = some q ∧ ∃ c, files.claims q = some c := by
  have hpass {p : Nat} {rest : List Nat} (hpositions : worker.positions = p :: rest)
      (htodo : worker.todo = worker.positions) : q = p ∨ q ∈ rest := by
    rw [htodo, hpositions] at hq
    exact List.mem_cons.mp hq
  cases h with
  | finish hphase => exact .inl (by simpa [Worker.todo, hphase] using hq)
  | skip hphase hpositions hresult =>
    obtain rfl | hrest := hpass hpositions (by simp [Worker.todo, hphase])
    · exact .inr (.inl hresult)
    · exact .inl (by simpa [Worker.todo, hphase] using hrest)
  | taken hphase hpositions hclaim =>
    obtain rfl | hrest := hpass hpositions (by simp [Worker.todo, hphase])
    · exact .inr (.inr ⟨hphase, by rw [hpositions]; rfl, _, hclaim⟩)
    · exact .inl hrest
  | settled hphase hpositions hresult =>
    obtain rfl | hrest := hpass hpositions (by simp [Worker.todo, hphase])
    · refine .inr (.inl ?_)
      unfold releasePositionClaim
      split <;> exact hresult
    · exact .inl hrest
  | record hphase hpositions =>
    obtain rfl | hrest := hpass hpositions (by simp [Worker.todo, hphase])
    · exact .inr (.inl (by simp [setResult]))
    · exact .inl (by simpa [Worker.todo, hpositions] using hrest)
  | abandon hphase hpositions | release hphase hpositions =>
    exact .inl (by simpa [Worker.todo, hphase, hpositions] using hq)
  | look hphase | create hphase | write hphase | start hphase | run hphase | idle hphase =>
    exact .inl (by simpa [Worker.todo, hphase] using hq)

/-- A worker that is timed by a position is still at it, or has recorded its result. -/
theorem Advanced.progress {p : Nat} (h : Advanced execution pid files worker files' worker') (hlocal : Local worker)
    (hrecorded : ∀ q failed, worker.positions.head? = some q → worker.phase = .recorded failed → NotTimedOut (files.results q))
    (hprogress : worker.progress = .running p) : worker'.progress = .running p ∨ NotTimedOut (files'.results p) := by
  obtain ⟨hhead, hphase⟩ := hlocal.running p hprogress
  cases h with
  | record => exact .inl hprogress
  | @idle failed hphase' => exact .inr (hrecorded p failed hhead hphase')
  | _ => simp_all

/-- A worker that releases its position leaves no claim of its own. -/
theorem releasePositionClaim_own {p q : Nat} {rest : List Nat} {c : Claim} (hpositions : worker.positions = p :: rest)
    (hown : ∀ q c, files.claims q = some c → c.pid = pid →
      worker.positions.head? = some q ∧ worker.phase.owns = true ∧ c = worker.claim pid)
    (hwritten : worker.phase ≠ .writing) (hpid : c.pid = pid) : (releasePositionClaim files p pid).claims q ≠ some c := by
  intro hc
  have hclaim : worker.claim pid = ⟨pid, true⟩ := by simp [Worker.claim, hwritten]
  have hhead (q : Nat) (c : Claim) (hc : files.claims q = some c) (hpid : c.pid = pid) : q = p ∧ c = ⟨pid, true⟩ := by
    obtain ⟨hhead, -, rfl⟩ := hown q c hc hpid
    rw [hpositions] at hhead
    exact ⟨(Option.some.inj hhead).symm, hclaim⟩
  unfold releasePositionClaim at hc
  split at hc
  · by_cases hq : q = p
    · subst hq
      simp only [setClaim, Function.update_self] at hc
      cases hc
    · exact hq (hhead q c ((Function.update_of_ne hq _ _).symm.trans hc) hpid).1
  · rename_i hother
    obtain ⟨rfl, rfl⟩ := hhead q c hc hpid
    exact hother hc

/-- The claims that name a worker follow it through its steps. -/
theorem Advanced.owns {q : Nat} {c : Claim} (h : Advanced execution pid files worker files' worker')
    (hown : ∀ q c, files.claims q = some c → c.pid = pid →
      worker.positions.head? = some q ∧ worker.phase.owns = true ∧ c = worker.claim pid)
    (hc : files'.claims q = some c) (hpid : c.pid = pid) :
    worker'.positions.head? = some q ∧ worker'.phase.owns = true ∧ c = worker'.claim pid := by
  have hnone (hphase : worker.phase.owns = false) (hc : files.claims q = some c) : False := by
    have howns := (hown q c hc hpid).2.1
    rw [hphase] at howns
    cases howns
  cases h with
  | finish hphase | skip hphase | look hphase | taken hphase => exact (hnone (by rw [hphase]; rfl) hc).elim
  | create hphase hpositions =>
    rename_i p rest _
    by_cases hq : q = p
    · subst hq
      simp only [setClaim, Function.update_self] at hc
      obtain rfl := Option.some.inj hc
      exact ⟨by simp [hpositions], rfl, rfl⟩
    · exact (hnone (by rw [hphase]; rfl) ((Function.update_of_ne hq _ _).symm.trans hc)).elim
  | write hphase hpositions =>
    rename_i p rest
    have hhead (hc : files.claims q = some c) : q = p ∧ c = ⟨pid, false⟩ := by
      obtain ⟨hhead, -, rfl⟩ := hown q c hc hpid
      rw [hpositions] at hhead
      exact ⟨(Option.some.inj hhead).symm, by simp [Worker.claim, hphase]⟩
    unfold writeClaim at hc
    split at hc
    · by_cases hq : q = p
      · subst hq
        simp only [setClaim, Function.update_self] at hc
        obtain rfl := Option.some.inj hc
        exact ⟨by simp [hpositions], rfl, rfl⟩
      · exact absurd (hhead ((Function.update_of_ne hq _ _).symm.trans hc)).1 hq
    · rename_i hother
      obtain ⟨rfl, rfl⟩ := hhead hc
      exact absurd hc hother
  | settled hphase hpositions | abandon hphase hpositions | release hphase hpositions =>
    exact absurd hc (releasePositionClaim_own hpositions hown (by simp [hphase]) hpid)
  | start hphase | run hphase | record hphase | idle hphase =>
    obtain ⟨hhead, -, hclaim⟩ := hown q c hc hpid
    refine ⟨hhead, rfl, hclaim.trans ?_⟩
    simp [Worker.claim, hphase]

end Workers

section Supervising

variable {execution : Execution} {s s' : State} {op : Op}

/-- A slot has still to see to a position: its worker will come to it, or died and will
be started again. -/
def Covers (workers : Nat → Option Worker) (slot : Slot) (p : Nat) : Prop :=
  slot.handled = false ∧ ∃ w, workers slot.pid = some w ∧
    (w.alive = true ∧ p ∈ w.todo ∨ w.alive = false ∧ w.progress ≠ .finished)

/-- Some slot other than `skip` has still to see to a position. -/
def CoveredBut (workers : Nat → Option Worker) (slots : List Slot) (skip : Option Nat) (p : Nat) : Prop :=
  ∃ i slot, skip ≠ some i ∧ slots[i]? = some slot ∧ Covers workers slot p

/-- No worker dies between a claim file and its content, none records a result while the
supervisor writes or archives one of the same position, and no worker lives when the
claims are cleared; a slot is given up only where every position without result was
just released by it, or is still seen to by another. -/
def Attended (s : State) : Op → Prop
  | .clear => ∀ pid w, s.workers pid = some w → w.alive = false
  | .die pid => ∀ w, s.workers pid = some w → w.phase ≠ .writing
  | .stop pid => ∀ w, s.workers pid = some w → w.phase ≠ .writing
  | .writeFailure p => s.files.results p = none
  | .archive p => s.files.results p = some (.failed (some "cell-timeout"))
  | .giveUp i => ∀ sup released, s.supervisor = some sup → sup.act = .handling i released →
      ∀ p ∈ sup.pending, s.files.results p = none → p ∈ released ∨ CoveredBut s.workers sup.slots (some i) p
  | _ => True

section Acts

/-- The positions that the supervisor has still to record. -/
def Act.owed : Act → List Nat
  | .givingUp _ released => released
  | .failing p (.exhausted _ released) => p :: released
  | _ => []

/-- The slot that is given up. -/
def Act.skip : Act → Option Nat
  | .givingUp i _ => some i
  | .failing _ (.exhausted i _) => some i
  | _ => none

def Act.spawning : Act → Bool
  | .preparing => true
  | .failing _ .preparation => true
  | _ => false

/-- The slot and the position that timed out, and whether the worker was stopped. -/
def Act.timed : Act → Option (Nat × Nat × Bool)
  | .stopping i p => some (i, p, false)
  | .releasing i p => some (i, p, true)
  | .recording i p => some (i, p, true)
  | .judging i p => some (i, p, true)
  | .archiving i p => some (i, p, true)
  | .failing p (.timeout i) => some (i, p, true)
  | _ => none

/-- The slot whose dead worker is dealt with. -/
def Act.handles : Act → Option Nat
  | .handling i _ => some i
  | .givingUp i _ => some i
  | .failing _ (.exhausted i _) => some i
  | _ => none

end Acts

/-- What holds of the files and the processes whatever the supervisor is at. -/
structure Base (execution : Execution) (files : RunFiles) (workers : Nat → Option Worker) (slots : List Slot)
    (pending : List Nat) : Prop where
  left : ∀ p ∈ execution.positions, files.results p = none → p ∈ pending
  owned : ∀ p c, files.claims p = some c → ∃ (i : Nat) (slot : Slot) (w : Worker), slots[i]? = some slot ∧ slot.handled = false ∧ slot.pid = c.pid ∧
    workers c.pid = some w ∧ w.positions.head? = some p ∧ w.phase.owns = true ∧ c = w.claim c.pid ∧
    (w.alive = true ∨ w.phase ≠ .writing)
  known : ∀ (i : Nat) (slot : Slot), slots[i]? = some slot → ∃ w, workers slot.pid = some w ∧ (slot.handled = true → w.alive = false)
  listed : ∀ pid w, workers pid = some w → w.alive = true → ∃ (i : Nat) (slot : Slot), slots[i]? = some slot ∧ slot.pid = pid
  within : ∀ pid w, workers pid = some w → w.alive = true → ∀ p ∈ w.positions, p ∈ pending
  recorded : ∀ pid w p, workers pid = some w → w.alive = true → w.positions.head? = some p →
    w.phase.wrote = true → NotTimedOut (files.results p)

/-- What holds while a supervisor is at its next act. -/
structure Supervised (execution : Execution) (files : RunFiles) (workers : Nat → Option Worker) (sup : Supervisor) : Prop where
  base : Base execution files workers sup.slots sup.pending
  covered : ∀ p ∈ execution.positions, files.results p = none → p ∈ sup.act.owed ∨
    CoveredBut workers sup.slots sup.act.skip p ∨
    sup.act.spawning = true ∧ sup.slots.length < workerCount execution sup.pending
  timed : ∀ i p stopped, sup.act.timed = some (i, p, stopped) → p ∈ sup.pending ∧
    ∃ (slot : Slot) (w : Worker), sup.slots[i]? = some slot ∧ slot.handled = false ∧ workers slot.pid = some w ∧
      (w.progress = .running p ∨ NotTimedOut (files.results p)) ∧ (stopped = true → w.alive = false)
  handled : ∀ i, sup.act.handles = some i → ∃ (slot : Slot) (w : Worker), sup.slots[i]? = some slot ∧
    slot.handled = false ∧ workers slot.pid = some w ∧ w.alive = false ∧
    ∀ p c, files.claims p = some c → c.pid ≠ slot.pid
  ended : sup.act = .ended → ∀ slot ∈ sup.slots, slot.handled = true

section Work

variable {files files' : RunFiles} {workers : Nat → Option Worker} {slots : List Slot} {pending : List Nat} {pid : Nat}
  {w w' : Worker}

/-- What the claims say of one worker. -/
theorem Base.own (h : Base execution files workers slots pending) (hw : workers pid = some w) : ∀ q c,
    files.claims q = some c → c.pid = pid → w.positions.head? = some q ∧ w.phase.owns = true ∧ c = w.claim pid := by
  rintro q c hc rfl
  obtain ⟨_, _, v, -, -, -, hv, hhead, howns, hclaim, -⟩ := h.owned q c hc
  obtain rfl := Option.some.inj (hw.symm.trans hv)
  exact ⟨hhead, howns, hclaim⟩

theorem Advanced.notTimedOut {p : Nat} (h : Advanced execution pid files w files' w')
    (hp : NotTimedOut (files.results p)) : NotTimedOut (files'.results p) := by
  obtain hresults | ⟨q, failed, -, -, -, hresults⟩ := h.results
  · rwa [hresults]
  · rw [hresults, Function.update_apply]
    split
    · exact notTimedOut_own failed
    · exact hp

theorem Advanced.none_of_none {p : Nat} (h : Advanced execution pid files w files' w') (hp : files'.results p = none) :
    files.results p = none := by
  obtain hresults | ⟨q, failed, -, -, -, hresults⟩ := h.results
  · rwa [← hresults]
  · rw [hresults, Function.update_apply] at hp
    split at hp
    · cases hp
    · exact hp

theorem of_setClaim {p q : Nat} {claim : Option Claim} {c : Claim} (hclaim : ∀ c', claim = some c' → c'.pid = pid)
    (hc : (setClaim files p claim).claims q = some c) (hpid : c.pid ≠ pid) : files.claims q = some c := by
  by_cases hq : q = p
  · subst hq
    simp only [setClaim, Function.update_self] at hc
    exact absurd (hclaim c hc) hpid
  · exact (Function.update_of_ne hq _ _).symm.trans hc

/-- A claim that does not name the worker was there before its step. -/
theorem Advanced.claims_of {q : Nat} {c : Claim} (h : Advanced execution pid files w files' w') (hc : files'.claims q = some c)
    (hpid : c.pid ≠ pid) : files.claims q = some c := by
  cases h with
  | create => exact of_setClaim (fun c' hc' => Option.some.inj hc' ▸ rfl) hc hpid
  | write =>
    unfold writeClaim at hc
    split at hc
    · exact of_setClaim (fun c' hc' => Option.some.inj hc' ▸ rfl) hc hpid
    · exact hc
  | settled | abandon | release =>
    unfold releasePositionClaim at hc
    split at hc
    · exact of_setClaim (fun c' hc' => by cases hc') hc hpid
    · exact hc
  | _ => exact hc

theorem Advanced.positions {p : Nat} (h : Advanced execution pid files w files' w') (hp : p ∈ w'.positions) : p ∈ w.positions := by
  cases h with
  | skip _ hpositions | taken _ hpositions | settled _ hpositions | abandon _ hpositions | release _ hpositions =>
    rw [hpositions]
    exact List.mem_cons_of_mem _ hp
  | _ => exact hp

/-- The result of a written claim is the worker's own. -/
theorem Advanced.wrote {p : Nat} (h : Advanced execution pid files w files' w')
    (hrecorded : w.positions.head? = some p → w.phase.wrote = true → NotTimedOut (files.results p))
    (hhead : w'.positions.head? = some p) (hwrote : w'.phase.wrote = true) : NotTimedOut (files'.results p) := by
  cases h with
  | @record q rest failed hphase hpositions =>
    rw [hpositions] at hhead
    obtain rfl := Option.some.inj hhead
    simpa [setResult] using notTimedOut_own failed
  | idle hphase => exact hrecorded hhead (by rw [hphase]; rfl)
  | skip hphase | look hphase => simp_all [Phase.wrote]
  | _ => cases hwrote

theorem Base.work (h : Base execution files workers slots pending) (hw : workers pid = some w) (halive : w.alive = true)
    (hadvanced : Advanced execution pid files w files' w') :
    Base execution files' (Function.update workers pid (some w')) slots pending := by
  refine ⟨?_, ?_, ?_, ?_, ?_, ?_⟩
  · exact fun p hp hnone => h.left p hp (hadvanced.none_of_none hnone)
  · intro q c hc
    by_cases hpid : c.pid = pid
    · obtain ⟨hhead, howns, hclaim⟩ := hadvanced.owns (h.own hw) hc hpid
      obtain ⟨i, slot, hslot, hslotPid⟩ := h.listed pid w hw halive
      obtain ⟨v, hv, hhandled⟩ := h.known i slot hslot
      have hopen : slot.handled = false := by
        rw [hslotPid, hw] at hv
        obtain rfl := Option.some.inj hv
        by_contra hne
        rw [hhandled (by simpa using hne)] at halive
        cases halive
      refine ⟨i, slot, w', hslot, hopen, hslotPid.trans hpid.symm, ?_, hhead, howns, ?_, .inl ?_⟩
      · rw [hpid, Function.update_self]
      · rw [hclaim]
        rfl
      · exact hadvanced.alive.trans halive
    · obtain ⟨i, slot, v, hslot, hopen, hslotPid, hv, hrest⟩ := h.owned q c (hadvanced.claims_of hc hpid)
      exact ⟨i, slot, v, hslot, hopen, hslotPid, (Function.update_of_ne hpid _ _).trans hv, hrest⟩
  · intro i slot hslot
    obtain ⟨v, hv, hhandled⟩ := h.known i slot hslot
    by_cases hpid : slot.pid = pid
    · rw [hpid, hw] at hv
      obtain rfl := Option.some.inj hv
      refine ⟨w', by rw [hpid, Function.update_self], fun hh => ?_⟩
      exact hadvanced.alive.trans (hhandled hh)
    · exact ⟨v, (Function.update_of_ne hpid _ _).trans hv, hhandled⟩
  · intro pid' v hv hvalive
    obtain ⟨rfl, rfl⟩ | ⟨-, hv⟩ := of_update hv
    · exact h.listed pid' w hw halive
    · exact h.listed pid' v hv hvalive
  · intro pid' v hv hvalive
    obtain ⟨rfl, rfl⟩ | ⟨-, hv⟩ := of_update hv
    · exact fun p hp => h.within pid' w hw halive p (hadvanced.positions hp)
    · exact h.within pid' v hv hvalive
  · intro pid' v p hv hvalive hhead hwrote
    obtain ⟨rfl, rfl⟩ | ⟨-, hv⟩ := of_update hv
    · exact hadvanced.wrote (h.recorded pid' w p hw halive) hhead hwrote
    · exact hadvanced.notTimedOut (h.recorded pid' v p hv hvalive hhead hwrote)

theorem Act.handles_of_skip {act : Act} {i : Nat} (h : act.skip = some i) : act.handles = some i := by
  cases act with
  | givingUp => exact h
  | failing p cause =>
    cases cause with
    | exhausted => exact h
    | _ => cases h
  | _ => cases h

/-- What a slot has to see to, it sees to after the step of another worker. -/
theorem Covers.of_ne {slot : Slot} {p : Nat} (h : Covers workers slot p) (hpid : slot.pid ≠ pid) :
    Covers (Function.update workers pid (some w')) slot p := by
  obtain ⟨hopen, v, hv, hcase⟩ := h
  exact ⟨hopen, v, (Function.update_of_ne hpid _ _).trans hv, hcase⟩

/-- Who holds the claim of a position without result will see to it. -/
theorem Base.covers_of_claim (h : Base execution files workers slots pending) (hlocals : ∀ pid w, workers pid = some w → Local w)
    {p : Nat} {c : Claim} (hc : files.claims p = some c) (hnone : files.results p = none) :
    ∃ (i : Nat) (slot : Slot), slots[i]? = some slot ∧ slot.pid = c.pid ∧ Covers workers slot p := by
  obtain ⟨i, slot, v, hslot, hopen, hpid, hv, hhead, howns, -, -⟩ := h.owned p c hc
  refine ⟨i, slot, hslot, hpid, hopen, v, by rw [hpid, hv], ?_⟩
  cases halive : v.alive with
  | false =>
    refine .inr ⟨rfl, fun hfinished => ?_⟩
    rw [(hlocals _ v hv).finished hfinished] at howns
    cases howns
  | true =>
    refine .inl ⟨rfl, ?_⟩
    have hwrote : v.phase.wrote = false := by
      by_contra hwrote
      obtain ⟨r, hr, -⟩ := h.recorded _ v p hv halive hhead (by simpa using hwrote)
      rw [hnone] at hr
      cases hr
    have htodo : v.todo = v.positions := by
      unfold Worker.todo
      cases hphase : v.phase <;> simp_all [Phase.wrote]
    rw [htodo]
    exact List.mem_of_mem_head? hhead

theorem coveredBut_work {skip : Option Nat} {p : Nat} (h : Base execution files workers slots pending)
    (hlocals : ∀ pid w, workers pid = some w → Local w) (hw : workers pid = some w) (halive : w.alive = true)
    (hadvanced : Advanced execution pid files w files' w') (hnone : files'.results p = none)
    (hskip : ∀ (i : Nat) (slot : Slot), skip = some i → slots[i]? = some slot → ∀ c, files.claims p = some c → c.pid ≠ slot.pid)
    (hcovered : CoveredBut workers slots skip p) :
    CoveredBut (Function.update workers pid (some w')) slots skip p := by
  obtain ⟨i, slot, hi, hslot, hcovers⟩ := hcovered
  by_cases hpid : slot.pid = pid
  · obtain ⟨hopen, v, hv, hcase⟩ := hcovers
    obtain rfl : w = v := by
      rw [hpid, hw] at hv
      exact Option.some.inj hv
    have htodo : p ∈ w.todo := by
      obtain ⟨-, htodo⟩ | ⟨hdead, -⟩ := hcase
      · exact htodo
      · rw [hdead] at halive
        cases halive
    obtain htodo' | hresult | ⟨hphase, -, c, hc⟩ := hadvanced.todo htodo
    · refine ⟨i, slot, hi, hslot, hopen, w', by rw [hpid, Function.update_self], .inl ⟨?_, htodo'⟩⟩
      exact hadvanced.alive.trans halive
    · exact absurd hnone hresult
    · -- the position was claimed: whoever claimed it sees to it
      obtain ⟨k, slot', hslot', hpid', hcovers'⟩ := h.covers_of_claim hlocals hc (hadvanced.none_of_none hnone)
      refine ⟨k, slot', fun hk => hskip k slot' hk hslot' c hc hpid'.symm, hslot', hcovers'.of_ne fun heq => ?_⟩
      have howns := (h.own hw p c hc (hpid'.symm.trans heq)).2.1
      rw [hphase] at howns
      cases howns
  · exact ⟨i, slot, hi, hslot, hcovers.of_ne hpid⟩

theorem Supervised.work {sup : Supervisor} (h : Supervised execution files workers sup)
    (hlocals : ∀ pid w, workers pid = some w → Local w) (hw : workers pid = some w) (halive : w.alive = true)
    (hadvanced : Advanced execution pid files w files' w') :
    Supervised execution files' (Function.update workers pid (some w')) sup := by
  refine ⟨h.base.work hw halive hadvanced, fun p hp hnone => ?_, fun i p stopped htimed => ?_, fun i hhandles => ?_, h.ended⟩
  · obtain howed | hcovered | hspawning := h.covered p hp (hadvanced.none_of_none hnone)
    · exact .inl howed
    · refine .inr (.inl (coveredBut_work h.base hlocals hw halive hadvanced hnone (fun i slot hi hslot c hc => ?_) hcovered))
      obtain ⟨slot', v, hslot', -, -, -, hclaims⟩ := h.handled i (Act.handles_of_skip hi)
      obtain rfl := Option.some.inj (hslot.symm.trans hslot')
      exact hclaims p c hc
    · exact .inr (.inr hspawning)
  · obtain ⟨hp, slot, v, hslot, hopen, hv, hprogress, hstopped⟩ := h.timed i p stopped htimed
    refine ⟨hp, slot, ?_⟩
    by_cases hpid : slot.pid = pid
    · obtain rfl : w = v := by
        rw [hpid, hw] at hv
        exact Option.some.inj hv
      refine ⟨w', hslot, hopen, by rw [hpid, Function.update_self], ?_, fun hs => hadvanced.alive.trans (hstopped hs)⟩
      obtain hprogress | hresult := hprogress
      · exact hadvanced.progress (hlocals pid w hw)
          (fun q failed hhead hphase => h.base.recorded pid w q hw halive hhead (by rw [hphase]; rfl)) hprogress
      · exact .inr (hadvanced.notTimedOut hresult)
    · exact ⟨v, hslot, hopen, (Function.update_of_ne hpid _ _).trans hv, hprogress.imp_right hadvanced.notTimedOut, hstopped⟩
  · obtain ⟨slot, v, hslot, hopen, hv, hdead, hclaims⟩ := h.handled i hhandles
    have hpid : slot.pid ≠ pid := by
      intro heq
      rw [heq, hw] at hv
      obtain rfl := Option.some.inj hv
      rw [hdead] at halive
      cases halive
    refine ⟨slot, v, hslot, hopen, (Function.update_of_ne hpid _ _).trans hv, hdead, fun p c hc heq => ?_⟩
    exact hclaims p c (hadvanced.claims_of hc (heq.trans_ne hpid)) heq

end Work

section Deaths

variable {files : RunFiles} {workers workers' : Nat → Option Worker} {slots : List Slot} {pending : List Nat}

/-- Some processes die, and none of them between a claim file and its content. -/
structure Deaths (workers workers' : Nat → Option Worker) : Prop where
  of : ∀ pid w, workers pid = some w → ∃ w', workers' pid = some w' ∧
    (w' = w ∨ w' = { w with alive := false } ∧ w.phase ≠ .writing)
  live : ∀ pid w', workers' pid = some w' → w'.alive = true → workers pid = some w'

theorem deaths_terminate {pid : Nat} (h : ∀ w, s.workers pid = some w → w.phase ≠ .writing) :
    Deaths s.workers (terminate s pid).workers := by
  refine ⟨fun pid' w hw => ?_, fun pid' w' hw' halive => ?_⟩
  · by_cases hpid : pid' = pid
    · subst hpid
      exact ⟨{ w with alive := false }, by simp [terminate, hw], .inr ⟨rfl, h w hw⟩⟩
    · exact ⟨w, by simp [terminate, hpid, hw], .inl rfl⟩
  · obtain ⟨w, hw, hsame⟩ := workers_terminate hw'
    rw [hw, hsame halive]

theorem Local.die {w : Worker} (h : Local w) : Local { w with alive := false } := ⟨h.running, h.finished, h.done⟩

theorem Base.deaths (h : Base execution files workers slots pending) (hdeaths : Deaths workers workers') :
    Base execution files workers' slots pending := by
  refine ⟨h.left, ?_, ?_, ?_, ?_, ?_⟩
  · intro p c hc
    obtain ⟨i, slot, w, hslot, hopen, hpid, hw, hhead, howns, hclaim, hcase⟩ := h.owned p c hc
    obtain ⟨w', hw', rfl | ⟨rfl, hphase⟩⟩ := hdeaths.of _ w hw
    · exact ⟨i, slot, w', hslot, hopen, hpid, hw', hhead, howns, hclaim, hcase⟩
    · exact ⟨i, slot, _, hslot, hopen, hpid, hw', hhead, howns, hclaim, .inr hphase⟩
  · intro i slot hslot
    obtain ⟨w, hw, hhandled⟩ := h.known i slot hslot
    obtain ⟨w', hw', rfl | ⟨rfl, -⟩⟩ := hdeaths.of _ w hw
    · exact ⟨w', hw', hhandled⟩
    · exact ⟨_, hw', fun _ => rfl⟩
  · exact fun pid w' hw' halive => h.listed pid w' (hdeaths.live pid w' hw' halive) halive
  · exact fun pid w' hw' halive => h.within pid w' (hdeaths.live pid w' hw' halive) halive
  · exact fun pid w' p hw' halive => h.recorded pid w' p (hdeaths.live pid w' hw' halive) halive

theorem Covers.deaths {slot : Slot} {p : Nat} (h : Covers workers slot p) (hlocals : ∀ pid w, workers pid = some w → Local w)
    (hdeaths : Deaths workers workers') : Covers workers' slot p := by
  obtain ⟨hopen, w, hw, hcase⟩ := h
  obtain ⟨w', hw', rfl | ⟨rfl, -⟩⟩ := hdeaths.of _ w hw
  · exact ⟨hopen, w', hw', hcase⟩
  · refine ⟨hopen, _, hw', .inr ⟨rfl, fun hfinished => ?_⟩⟩
    obtain ⟨-, htodo⟩ | ⟨-, hprogress⟩ := hcase
    · have hphase := (hlocals _ w hw).finished hfinished
      have hpositions := (hlocals _ w hw).done hphase
      simp [Worker.todo, hphase, hpositions] at htodo
    · exact hprogress hfinished

theorem Supervised.deaths {sup : Supervisor} (h : Supervised execution files workers sup)
    (hlocals : ∀ pid w, workers pid = some w → Local w) (hdeaths : Deaths workers workers') :
    Supervised execution files workers' sup := by
  refine ⟨h.base.deaths hdeaths, fun p hp hnone => ?_, fun i p stopped htimed => ?_, fun i hhandles => ?_, h.ended⟩
  · obtain howed | ⟨i, slot, hi, hslot, hcovers⟩ | hspawning := h.covered p hp hnone
    · exact .inl howed
    · exact .inr (.inl ⟨i, slot, hi, hslot, hcovers.deaths hlocals hdeaths⟩)
    · exact .inr (.inr hspawning)
  · obtain ⟨hp, slot, w, hslot, hopen, hw, hprogress, hstopped⟩ := h.timed i p stopped htimed
    obtain ⟨w', hw', rfl | ⟨rfl, -⟩⟩ := hdeaths.of _ w hw
    · exact ⟨hp, slot, w', hslot, hopen, hw', hprogress, hstopped⟩
    · exact ⟨hp, slot, _, hslot, hopen, hw', hprogress, fun _ => rfl⟩
  · obtain ⟨slot, w, hslot, hopen, hw, hdead, hclaims⟩ := h.handled i hhandles
    obtain ⟨w', hw', rfl | ⟨rfl, -⟩⟩ := hdeaths.of _ w hw
    · exact ⟨slot, w', hslot, hopen, hw', hdead, hclaims⟩
    · exact ⟨slot, _, hslot, hopen, hw', rfl, hclaims⟩

end Deaths

section Spawning

variable {files : RunFiles} {workers : Nat → Option Worker} {slots slots' : List Slot} {pending : List Nat} {next : Nat}
  {new : Slot}

/-- A slot is added, or takes the place of one whose dead worker holds no claim. -/
structure Spawned (files : RunFiles) (workers : Nat → Option Worker) (slots slots' : List Slot) (new : Slot) : Prop where
  added : ∃ k : Nat, slots'[k]? = some new
  opened : new.handled = false
  kept : ∀ (i : Nat) (slot : Slot), slots[i]? = some slot → slots'[i]? = some slot ∨
    (∀ w, workers slot.pid = some w → w.alive = false) ∧ ∀ p c, files.claims p = some c → c.pid ≠ slot.pid
  old : ∀ (i : Nat) (slot : Slot), slots'[i]? = some slot → slot = new ∨ slots[i]? = some slot

theorem Base.spawn (h : Base execution files workers slots pending) (hfresh : workers new.pid = none)
    (hspawned : Spawned files workers slots slots' new) :
    Base execution files (Function.update workers new.pid (some ⟨pending, .looking, .idle, true⟩)) slots' pending := by
  have hne {pid : Nat} {w : Worker} (hw : workers pid = some w) : pid ≠ new.pid := by
    rintro rfl
    rw [hfresh] at hw
    cases hw
  refine ⟨h.left, ?_, ?_, ?_, ?_, ?_⟩
  · intro p c hc
    obtain ⟨i, slot, w, hslot, hopen, hpid, hw, hrest⟩ := h.owned p c hc
    obtain hslot' | ⟨-, hclaims⟩ := hspawned.kept i slot hslot
    · exact ⟨i, slot, w, hslot', hopen, hpid, (Function.update_of_ne (hne hw) _ _).trans hw, hrest⟩
    · exact absurd hpid.symm (hclaims p c hc)
  · intro i slot hslot
    obtain rfl | hslot := hspawned.old i slot hslot
    · refine ⟨_, Function.update_self _ _ _, fun hhandled => ?_⟩
      rw [hspawned.opened] at hhandled
      cases hhandled
    · obtain ⟨w, hw, hhandled⟩ := h.known i slot hslot
      exact ⟨w, (Function.update_of_ne (hne hw) _ _).trans hw, hhandled⟩
  · intro pid w hw halive
    obtain ⟨rfl, rfl⟩ | ⟨-, hw⟩ := of_update hw
    · obtain ⟨k, hk⟩ := hspawned.added
      exact ⟨k, new, hk, rfl⟩
    · obtain ⟨i, slot, hslot, rfl⟩ := h.listed pid w hw halive
      obtain hslot' | ⟨hdead, -⟩ := hspawned.kept i slot hslot
      · exact ⟨i, slot, hslot', rfl⟩
      · rw [hdead w hw] at halive
        cases halive
  · intro pid w hw halive
    obtain ⟨rfl, rfl⟩ | ⟨-, hw⟩ := of_update hw
    · exact fun p hp => hp
    · exact h.within pid w hw halive
  · intro pid w p hw halive hhead hwrote
    obtain ⟨rfl, rfl⟩ | ⟨-, hw⟩ := of_update hw
    · cases hwrote
    · exact h.recorded pid w p hw halive hhead hwrote

/-- A new worker sees to every position that is pending. -/
theorem coveredBut_spawn {p : Nat} (hspawned : Spawned files workers slots slots' new) (hp : p ∈ pending) :
    CoveredBut (Function.update workers new.pid (some ⟨pending, .looking, .idle, true⟩)) slots' none p := by
  obtain ⟨k, hk⟩ := hspawned.added
  exact ⟨k, new, by simp, hk, hspawned.opened, _, Function.update_self _ _ _, .inl ⟨rfl, hp⟩⟩

theorem spawned_append (new : Slot) (hopened : new.handled = false) :
    Spawned files workers slots (slots ++ [new]) new := by
  refine ⟨⟨slots.length, by simp⟩, hopened, fun i slot hslot => .inl ?_, fun i slot hslot => ?_⟩
  · exact (List.getElem?_append_left (List.getElem?_eq_some_iff.mp hslot).1).trans hslot
  · by_cases hi : i < slots.length
    · rw [List.getElem?_append_left hi] at hslot
      exact .inr hslot
    · rw [List.getElem?_append_right (by omega)] at hslot
      obtain ⟨hlength, hnew⟩ := List.getElem?_eq_some_iff.mp hslot
      simp only [List.getElem_singleton] at hnew
      exact .inl hnew.symm

theorem spawned_set {i : Nat} {slot : Slot} {w : Worker} (new : Slot) (hopened : new.handled = false)
    (hslot : slots[i]? = some slot) (hw : workers slot.pid = some w) (hdead : w.alive = false)
    (hclaims : ∀ p c, files.claims p = some c → c.pid ≠ slot.pid) :
    Spawned files workers slots (slots.set i new) new := by
  have hi := (List.getElem?_eq_some_iff.mp hslot).1
  refine ⟨⟨i, by simp [hi]⟩, hopened, fun j slot' hslot' => ?_, fun j slot' hslot' => ?_⟩
  · by_cases hij : i = j
    · subst hij
      obtain rfl := Option.some.inj (hslot.symm.trans hslot')
      exact .inr ⟨fun v hv => Option.some.inj (hw.symm.trans hv) ▸ hdead, hclaims⟩
    · exact .inl ((List.getElem?_set_ne hij).trans hslot')
  · by_cases hij : i = j
    · subst hij
      rw [List.getElem?_set_self hi] at hslot'
      exact .inl (Option.some.inj hslot').symm
    · exact .inr ((List.getElem?_set_ne hij).symm.trans hslot')

end Spawning

section Handling

variable {files : RunFiles} {workers : Nat → Option Worker} {slots : List Slot} {pending : List Nat} {i : Nat}

theorem markHandled_self {slot : Slot} (hslot : slots[i]? = some slot) :
    (markHandled slots i)[i]? = some { slot with handled := true } := by
  simp [markHandled, hslot]

theorem markHandled_ne {j : Nat} (hij : i ≠ j) : (markHandled slots i)[j]? = slots[j]? := by
  simp [markHandled, hij]

/-- A slot whose dead worker holds no claim is done with. -/
theorem Base.markHandled {slot : Slot} {w : Worker} (h : Base execution files workers slots pending)
    (hslot : slots[i]? = some slot) (hw : workers slot.pid = some w) (hdead : w.alive = false)
    (hclaims : ∀ p c, files.claims p = some c → c.pid ≠ slot.pid) :
    Base execution files workers (markHandled slots i) pending := by
  refine ⟨h.left, ?_, ?_, ?_, h.within, h.recorded⟩
  · intro p c hc
    obtain ⟨j, slot', v, hslot', hrest⟩ := h.owned p c hc
    have hij : i ≠ j := by
      rintro rfl
      obtain rfl := Option.some.inj (hslot.symm.trans hslot')
      exact hclaims p c hc hrest.2.1.symm
    exact ⟨j, slot', v, (markHandled_ne hij).trans hslot', hrest⟩
  · intro j slot' hslot'
    by_cases hij : i = j
    · subst hij
      rw [markHandled_self hslot] at hslot'
      obtain rfl := Option.some.inj hslot'
      exact ⟨w, hw, fun _ => hdead⟩
    · exact h.known j slot' ((markHandled_ne hij).symm.trans hslot')
  · intro pid v hv halive
    obtain ⟨j, slot', hslot', hpid⟩ := h.listed pid v hv halive
    by_cases hij : i = j
    · subst hij
      exact ⟨i, _, markHandled_self hslot', hpid⟩
    · exact ⟨j, slot', (markHandled_ne hij).trans hslot', hpid⟩

theorem CoveredBut.markHandled {p : Nat} (h : CoveredBut workers slots (some i) p) :
    CoveredBut workers (markHandled slots i) none p := by
  obtain ⟨j, slot, hj, hslot, hcovers⟩ := h
  exact ⟨j, slot, by simp, (markHandled_ne fun hij => hj (congrArg some hij)).trans hslot, hcovers⟩

/-- A slot whose worker finished its list has nothing left to see to. -/
theorem CoveredBut.of_finished {p : Nat} {slot : Slot} {w : Worker} (h : CoveredBut workers slots none p)
    (hslot : slots[i]? = some slot) (hw : workers slot.pid = some w) (hdead : w.alive = false)
    (hfinished : w.progress = .finished) : CoveredBut workers slots (some i) p := by
  obtain ⟨j, slot', -, hslot', hcovers⟩ := h
  refine ⟨j, slot', fun hij => ?_, hslot', hcovers⟩
  obtain rfl := Option.some.inj hij
  obtain rfl := Option.some.inj (hslot.symm.trans hslot')
  obtain ⟨-, v, hv, hcase⟩ := hcovers
  obtain rfl := Option.some.inj (hw.symm.trans hv)
  obtain ⟨halive, -⟩ | ⟨-, hprogress⟩ := hcase
  · rw [hdead] at halive
    cases halive
  · exact hprogress hfinished

end Handling

section Released

variable {files : RunFiles} {workers : Nat → Option Worker} {slots : List Slot} {pending : List Nat} {pid p : Nat} {c : Claim}

theorem of_releaseWorkerClaims (hc : (releaseWorkerClaims files pid).claims p = some c) :
    files.claims p = some c ∧ files.claims p ≠ some ⟨pid, true⟩ := by
  unfold releaseWorkerClaims at hc
  simp only at hc
  split at hc
  · cases hc
  · exact ⟨hc, ‹_›⟩

theorem Base.releaseWorkerClaims (h : Base execution files workers slots pending) (pid : Nat) :
    Base execution (Validation.releaseWorkerClaims files pid) workers slots pending :=
  ⟨h.left, fun p c hc => h.owned p c (of_releaseWorkerClaims hc).1, h.known, h.listed, h.within, h.recorded⟩

/-- A dead process names no claim any more. -/
theorem claims_releaseWorkerClaims {w : Worker} (h : Base execution files workers slots pending) (hw : workers pid = some w)
    (hdead : w.alive = false) (hc : (Validation.releaseWorkerClaims files pid).claims p = some c) : c.pid ≠ pid := by
  rintro rfl
  obtain ⟨hc, hne⟩ := of_releaseWorkerClaims hc
  obtain ⟨i, slot, v, -, -, -, hv, -, -, hclaim, hcase⟩ := h.owned p c hc
  obtain rfl := Option.some.inj (hw.symm.trans hv)
  obtain halive | hphase := hcase
  · rw [hdead] at halive
    cases halive
  · refine hne (hc.trans (congrArg some (hclaim.trans ?_)))
    simp [Worker.claim, hphase]

end Released

end Supervising

end FidbPoc.Validation
