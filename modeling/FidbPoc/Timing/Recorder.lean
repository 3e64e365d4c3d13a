import FidbPoc.Coordinator.Execution
import FidbPoc.Lib.Tally

namespace FidbPoc.Timing

open FidbPoc.Lib FidbPoc.Lib.Tally
open FidbPoc.Coordinator (CellStage)

section Stages

def timingSchema : String := "fidb-execution-timing/v1"

def stages : List CellStage :=
  [.requestValidation, .authorityResolution, .sourceAcquire, .toolchainAcquire, .executorImageAcquire,
    .inputVerification, .sourceExtract, .toolchainExtract, .patch, .configure, .compile, .archiveObjectSelection,
    .artifactValidation, .ghidraStartup, .ghidraDiagnosticPolicy, .ghidraImportAnalysis, .fidPopulation, .fidValidation,
    .fidbExport, .fidbfExport, .provenanceSeal, .publication]

/-- `CellStage(text)` -/
def stage? (text : String) : Option CellStage := stages.find? fun stage => stage.value = text

theorem stage?_value (stage : CellStage) : stage? stage.value = some stage := by cases stage <;> rfl

theorem stage?_eq_some {text : String} {stage : CellStage} : stage? text = some stage ↔ text = stage.value := by
  constructor
  · intro h
    have hvalue := List.find?_some h
    exact (of_decide_eq_true hvalue).symm
  · rintro rfl
    exact stage?_value stage

theorem value_injective : Function.Injective CellStage.value := by
  intro stage stage' h
  have hsome := stage?_value stage
  rw [h, stage?_value] at hsome
  exact (Option.some.inj hsome).symm

inductive ProgressStatus
  | started | completed | failed | skipped
  deriving DecidableEq

def ProgressStatus.value : ProgressStatus → String
  | .started => "started"
  | .completed => "completed"
  | .failed => "failed"
  | .skipped => "skipped"

def statuses : List ProgressStatus := [.started, .completed, .failed, .skipped]

def status? (text : String) : Option ProgressStatus := statuses.find? fun status => status.value = text

theorem status?_value (status : ProgressStatus) : status? status.value = some status := by cases status <;> rfl

theorem status?_eq_some {text : String} {status : ProgressStatus} : status? text = some status ↔ text = status.value := by
  constructor
  · intro h
    have hvalue := List.find?_some h
    exact (of_decide_eq_true hvalue).symm
  · rintro rfl
    exact status?_value status

end Stages

section Clocks

def maxDurationNs : Nat := 9223372036854775807

/-- A reading of a clock of the operating system, which is a nonnegative 64-bit integer. -/
abbrev Nanoseconds := Fin (maxDurationNs + 1)

/-- What the recorder and its gate use of `datetime`: the text of a UTC instant with microseconds, up to its offset, and
the offset of a text that can be read. -/
structure Datetime (τ : Type) where
  isoformat : τ → String
  utcoffset : String → Option Int
  utcoffset_isoformat : ∀ now, utcoffset (isoformat now ++ "+00:00") = some 0

/-- `utc_now`, whose one offset `+00:00` becomes `Z`. -/
def Datetime.utcNow {τ : Type} (datetime : Datetime τ) (now : τ) : String := datetime.isoformat now ++ "Z"

structure Usage where
  selfUserCpuNs : Option Int
  selfSystemCpuNs : Option Int
  childUserCpuNs : Option Int
  childSystemCpuNs : Option Int
  selfMaxRssBytesPeak : Option Int
  childMaxRssBytesPeak : Option Int

def optionalInt (value : Option Int) : Json := value.elim .null .int

def difference (start finish : Option Int) : Json :=
  match start, finish with
  | some start, some finish => .int (max 0 (finish - start))
  | _, _ => .null

def resourceMetrics (before after : Usage) (processCpuBefore processCpuAfter : Int) : List (String × Json) :=
  [("process_cpu_duration_ns", .int (max 0 (processCpuAfter - processCpuBefore))),
    ("self_max_rss_bytes_peak", optionalInt after.selfMaxRssBytesPeak),
    ("child_max_rss_bytes_peak", optionalInt after.childMaxRssBytesPeak),
    ("self_user_cpu_duration_ns", difference before.selfUserCpuNs after.selfUserCpuNs),
    ("self_system_cpu_duration_ns", difference before.selfSystemCpuNs after.selfSystemCpuNs),
    ("child_user_cpu_duration_ns", difference before.childUserCpuNs after.childUserCpuNs),
    ("child_system_cpu_duration_ns", difference before.childSystemCpuNs after.childSystemCpuNs)]

/-- What the clocks say when a span starts, when it ends, or when a stage is skipped. -/
structure Reading (τ : Type) where
  now : τ
  monotonicNs : Nanoseconds
  processTimeNs : Int
  usage : Usage

end Clocks

section Recorder

/-- The `metrics` of a call, of an event or of the body of a span. -/
abbrev Metrics := Dict String Json

/-- `{**metrics, **others}` -/
def merge (metrics : Metrics) (others : List (String × Json)) : Metrics :=
  others.foldl (fun merged field => merged.set field.1 field.2) metrics

structure ProgressEvent where
  stage : CellStage
  status : ProgressStatus
  message : String
  durationNs : Option Nat
  metrics : Metrics
  startedAt : String
  finishedAt : Option String

structure TimingRecorder where
  terminal : List ProgressEvent
  startedNs : Nanoseconds
  startedAt : String
  openStage : Option CellStage

/-- `CellStage | str` -/
inductive StageArgument
  | stage (stage : CellStage)
  | text (text : String)

def StageArgument.stage? : StageArgument → Option CellStage
  | .stage given => some given
  | .text value => Timing.stage? value

/-- How the body of a span ends: with the metrics of the call as it left them, or with them and an exception. -/
inductive Body
  | completed (metrics : Metrics)
  | raised (metrics : Metrics) (errorType error : String)

inductive Error
  | value (message : String)
  | runtime (message : String)
  | callback
  | body (errorType error : String)

abbrev Outcome := Except Error Unit

/-- A call of the recorder with what its clocks say, the calls that the body of a span makes, and whether the progress
callback raises at an event of the call. -/
inductive Call (τ : Type)
  | span (stage : StageArgument) (message : String) (start finish : Reading τ) (nested : List (Call τ)) (body : Body)
      (startRaises finishRaises : Bool)
  | skip (stage : StageArgument) (message : String) (metrics : Metrics) (now : Reading τ) (raises : Bool)

def invalidStage : Error := .value "not a valid CellStage"

def Body.event (stage : CellStage) (message : String) (startedAt finishedAt : String) (durationNs : Nat)
    (resources : List (String × Json)) : Body → ProgressEvent
  | .completed metrics =>
    ⟨stage, .completed, message, some durationNs, merge metrics resources, startedAt, some finishedAt⟩
  | .raised metrics errorType error =>
    ⟨stage, .failed, s!"{message}: {errorType}: {error}", some durationNs,
      merge metrics (resources ++ [("error_type", .str errorType)]), startedAt, some finishedAt⟩

def Body.outcome : Body → Outcome
  | .completed _ => .ok ()
  | .raised _ errorType error => .error (.body errorType error)

variable {τ : Type} (datetime : Datetime τ)

def TimingRecorder.init (reading : Reading τ) : TimingRecorder :=
  ⟨[], reading.monotonicNs, datetime.utcNow reading.now, none⟩

/-- `_emit` of a terminal event. -/
def TimingRecorder.emit (recorder : TimingRecorder) (event : ProgressEvent) : TimingRecorder :=
  { recorder with terminal := recorder.terminal ++ [event] }

mutual

def TimingRecorder.run (recorder : TimingRecorder) : Call τ → TimingRecorder × Outcome
  | .span stage message start finish nested body startRaises finishRaises =>
    match stage.stage?, recorder.openStage with
    | none, _ => (recorder, .error invalidStage)
    | some _, some other =>
      (recorder, .error (.runtime s!"timing spans must be sequential; '{other.value}' is open"))
    | some stage, none =>
      if startRaises then ({ recorder with openStage := none }, .error .callback)
      else
        let within := TimingRecorder.runAll { recorder with openStage := some stage } nested
        let event := body.event stage message (datetime.utcNow start.now) (datetime.utcNow finish.now)
          (finish.monotonicNs - start.monotonicNs : Nat)
          (resourceMetrics start.usage finish.usage start.processTimeNs finish.processTimeNs)
        ({ within with openStage := none }.emit event, if finishRaises then .error .callback else body.outcome)
  | .skip stage message metrics now raises =>
    match stage.stage?, recorder.openStage with
    | none, _ => (recorder, .error invalidStage)
    | some _, some other => (recorder, .error (.runtime s!"cannot record skipped stage while '{other.value}' is open"))
    | some stage, none =>
      let event : ProgressEvent := ⟨stage, .skipped, message, some 0, metrics, datetime.utcNow now.now,
        some (datetime.utcNow now.now)⟩
      (recorder.emit event, if raises then .error .callback else .ok ())

def TimingRecorder.runAll (recorder : TimingRecorder) : List (Call τ) → TimingRecorder
  | [] => recorder
  | call :: calls => TimingRecorder.runAll (TimingRecorder.run recorder call).1 calls

end

end Recorder

section Documents

def eventFields (event : ProgressEvent) : Json.Fields :=
  [("stage", .str event.stage.value), ("status", .str event.status.value), ("message", .str event.message),
    ("started_at", .str event.startedAt), ("finished_at", event.finishedAt.elim .null .str),
    ("duration_ns", event.durationNs.elim .null fun n : Nat => .int n), ("metrics", .obj event.metrics.entries)]

def eventDocument (event : ProgressEvent) : Json := .obj (eventFields event)

/-- `{status.value: 0 for status in ProgressStatus}` -/
def noCounts : Dict String Int := Dict.ofList (statuses.map fun status => (status.value, 0))

def countItem (event : ProgressEvent) : String × Int := (event.status.value, 1)

def durationItem (event : ProgressEvent) : Option (String × Int) :=
  event.durationNs.map fun n : Nat => (event.stage.value, (n : Int))

def policyDocument : Json :=
  .obj [("wall_clock", .str "UTC RFC3339 timestamps"), ("duration_clock", .str "monotonic_ns"),
    ("resource_scope", .str "worker process and waited-for child processes"),
    ("rss_semantics", .str "peak reading, not a span delta"),
    ("span_order", .str "strictly sequential; one open stage per attempt")]

def TimingRecorder.summary (recorder : TimingRecorder) (finishedNs : Nanoseconds) : Json.Fields :=
  [("measurement_started_at", .str recorder.startedAt),
    ("elapsed_before_snapshot_ns", .int (finishedNs - recorder.startedNs : Nat)),
    ("terminal_event_counts", .obj (totals (tally noCounts (recorder.terminal.map countItem)))),
    ("stage_duration_ns", .obj (totals (tally Dict.empty (recorder.terminal.filterMap durationItem))))]

def TimingRecorder.document (recorder : TimingRecorder) (finishedNs : Nanoseconds) : Json.Fields :=
  [("schema_version", .str timingSchema), ("policy", policyDocument), ("summary", .obj (recorder.summary finishedNs)),
    ("spans", .arr (recorder.terminal.map eventDocument))]

end Documents

section Sequential

variable {τ : Type} {datetime : Datetime τ} {recorder : TimingRecorder}

/-- While a span is open, every other call is refused and leaves the recorder as it is. -/
theorem run_of_open {stage : CellStage} (h : recorder.openStage = some stage) (call : Call τ) :
    (recorder.run datetime call).1 = recorder := by
  cases call with
  | span argument =>
    rw [TimingRecorder.run, h]
    cases argument.stage? <;> rfl
  | skip argument =>
    rw [TimingRecorder.run, h]
    cases argument.stage? <;> rfl

theorem runAll_of_open {stage : CellStage} (h : recorder.openStage = some stage) (calls : List (Call τ)) :
    recorder.runAll datetime calls = recorder := by
  induction calls with
  | nil => rfl
  | cons call calls ih => rw [TimingRecorder.runAll, run_of_open h, ih]

/-- The terminal event of a call that is made while no span is open. -/
def Call.event? (datetime : Datetime τ) : Call τ → Option ProgressEvent
  | .span stage message start finish _ body startRaises _ => do
    let stage ← stage.stage?
    if startRaises then none
    else some (body.event stage message (datetime.utcNow start.now) (datetime.utcNow finish.now)
      (finish.monotonicNs - start.monotonicNs : Nat)
      (resourceMetrics start.usage finish.usage start.processTimeNs finish.processTimeNs))
  | .skip stage message metrics now _ => do
    let stage ← stage.stage?
    some ⟨stage, .skipped, message, some 0, metrics, datetime.utcNow now.now, some (datetime.utcNow now.now)⟩

/-- A call changes nothing but the terminal events, however it ends. -/
theorem run_closed (h : recorder.openStage = none) (call : Call τ) : (recorder.run datetime call).1 =
    { recorder with terminal := recorder.terminal ++ (call.event? datetime).toList } := by
  obtain ⟨terminal, startedNs, startedAt, openStage⟩ := recorder
  obtain rfl : openStage = none := h
  cases call with
  | span argument message start finish nested body startRaises finishRaises =>
    rw [TimingRecorder.run, Call.event?]
    cases argument.stage? with
    | none => simp
    | some stage =>
      cases startRaises with
      | true => simp
      | false =>
        have hnested := @runAll_of_open _ datetime ⟨terminal, startedNs, startedAt, some stage⟩ stage rfl nested
        simp [hnested, TimingRecorder.emit]
  | skip argument message metrics now raises =>
    rw [TimingRecorder.run, Call.event?]
    cases argument.stage? <;> simp [TimingRecorder.emit]

theorem runAll_closed (h : recorder.openStage = none) (calls : List (Call τ)) : recorder.runAll datetime calls =
    { recorder with terminal := recorder.terminal ++ calls.filterMap (Call.event? datetime) } := by
  induction calls generalizing recorder with
  | nil => simp [TimingRecorder.runAll]
  | cons call calls ih =>
    have hopen : (recorder.run datetime call).1.openStage = none := by rw [run_closed h, h]
    rw [TimingRecorder.runAll, ih hopen, run_closed h]
    cases hevent : call.event? datetime <;> simp [hevent]

theorem openStage_runAll (h : recorder.openStage = none) (calls : List (Call τ)) :
    (recorder.runAll datetime calls).openStage = none := by
  rw [runAll_closed h]
  exact h

/-- While no span is open, no call is refused for its place in the sequence. -/
theorem run_not_refused (h : recorder.openStage = none) (call : Call τ) (message : String) :
    (recorder.run datetime call).2 ≠ .error (.runtime message) := by
  cases call with
  | span argument _ _ _ _ body startRaises finishRaises =>
    rw [TimingRecorder.run, h]
    cases argument.stage? with
    | none => simp [invalidStage]
    | some stage => cases startRaises <;> cases finishRaises <;> cases body <;> simp [Body.outcome]
  | skip argument _ _ _ raises =>
    rw [TimingRecorder.run, h]
    cases argument.stage? <;> cases raises <;> simp [invalidStage]

end Sequential

end FidbPoc.Timing
