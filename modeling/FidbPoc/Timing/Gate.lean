import FidbPoc.Lib.Checked
import FidbPoc.Timing.Recorder

namespace FidbPoc.Timing

open FidbPoc.Lib FidbPoc.Lib.Checked FidbPoc.Lib.Tally
open FidbPoc.Coordinator (CellStage)

section Gate

inductive Fault
  | queueCli (message : String)
  | type
  | key

abbrev Result := Except Fault

/-- The object that a runner returns: a JSON document, a dictionary that `json.dumps` refuses, or no dictionary at all. -/
inductive Returned
  | json (document : Json)
  | refused (schemaVersion : Option Json)
  | other

def get (fields : Json.Fields) (key : String) : Json := (fields.get? key).getD .null

def expect {α : Type} (value : Option α) (message : String) : Result α :=
  match value with
  | some value => .ok value
  | none => .error (.queueCli message)

def nonnegativeInteger (value : Json) (label : String) : Result Nat :=
  expect (value.int?.bind fun n => if 0 ≤ n ∧ n ≤ maxDurationNs then some n.toNat else none)
    s!"{label} must be an integer between 0 and {maxDurationNs}"

/-- A text that ends in `Z` and has, with `+00:00` in its place, the offset zero. -/
def isUtc {τ : Type} (datetime : Datetime τ) (text : String) : Bool :=
  decide (text.toList.getLast? = some 'Z') &&
    decide (datetime.utcoffset (String.ofList text.toList.dropLast ++ "+00:00") = some 0)

variable {τ : Type} (datetime : Datetime τ)

def utcTimingTimestamp (value : Json) (label : String) : Result String :=
  expect (value.str?.filter (isUtc datetime)) s!"{label} must be a UTC RFC3339 timestamp"

def terminalStatuses : List ProgressStatus := [.completed, .failed, .skipped]

/-- `status not in terminal_statuses` raises for a status without a hash. -/
def terminalStatus (value : Json) (label : String) : Result ProgressStatus := do
  require (value.hashable = true) .type
  expect ((value.str?.bind status?).filter fun status => status ∈ terminalStatuses) s!"{label} does not have a terminal status"

/-- What the loop over the spans takes from one of them. -/
def validateSpan (index : Nat) (span : Json) : Result ((String × Int) × (String × Int)) := do
  let label := s!"cell timing span {index}"
  let span ← expect span.fields? s!"{label} must be an object"
  let stage ← expect ((get span "stage").str?.bind stage?) s!"{label} has an invalid stage"
  require (stage ≠ .publication) (.queueCli s!"{label} cannot contain the publication stage")
  let status ← terminalStatus (get span "status") label
  require (status ≠ .failed) (.queueCli "a successful cell result cannot contain a failed span")
  let _ ← expect ((get span "message").str?.filter fun message => message ≠ "") s!"{label} must contain a message"
  let startedAt ← utcTimingTimestamp datetime (get span "started_at") s!"{label} started_at"
  let finishedAt ← utcTimingTimestamp datetime (get span "finished_at") s!"{label} finished_at"
  let duration ← nonnegativeInteger (get span "duration_ns") s!"{label} duration_ns"
  require (status = .skipped → duration = 0) (.queueCli s!"{label} has a non-zero skipped duration")
  require (status = .skipped → startedAt = finishedAt) (.queueCli s!"{label} has unequal skipped timestamps")
  let _ ← expect (get span "metrics").fields? s!"{label} metrics must be an object"
  pure ((status.value, 1), (stage.value, duration))

/-- `status_counts` and `stage_durations` after the loop. -/
def validateSpans (spans : List Json) : Result (Dict String Int × Dict String Int) :=
  spans.zipIdx.foldlM (fun totals row => do
    let items ← validateSpan datetime row.2 row.1
    pure (add totals.1 items.1, add totals.2 items.2)) (noCounts, Dict.empty)

/-- The last span, which the loop found to be an object. -/
def endsWithSeal (spans : List Json) : Bool :=
  (spans.getLast?.bind Json.fields?).any fun final =>
    (get final "stage").isText CellStage.provenanceSeal.value && (get final "status").isText ProgressStatus.completed.value

def validateDocument (timing : Json.Fields) : Result Unit := do
  let policy := (get timing "policy").fields?
  require (policy.any (fun policy => (get policy "duration_clock").isText "monotonic_ns") = true)
    (.queueCli "cell execution timing has an invalid duration policy")
  let summary ← expect (get timing "summary").fields? "cell execution timing is missing its summary"
  let _ ← utcTimingTimestamp datetime (get summary "measurement_started_at") "cell timing measurement_started_at"
  let _ ← nonnegativeInteger (get summary "elapsed_before_snapshot_ns") "cell timing elapsed_before_snapshot_ns"
  let spans ← expect ((get timing "spans").items?.filter fun spans => !spans.isEmpty)
    "cell result is missing terminal execution timing spans"
  let (statusCounts, stageDurations) ← validateSpans datetime spans
  require (endsWithSeal spans = true)
    (.queueCli "cell execution timing must end with a completed provenance-seal span")
  require ((get summary "terminal_event_counts").same (.obj (totals statusCounts)) = true)
    (.queueCli "cell execution timing summary counts do not match its spans")
  require ((get summary "stage_duration_ns").same (.obj (totals stageDurations)) = true)
    (.queueCli "cell execution timing summary durations do not match its spans")

def validateCellTiming (timing : Returned) : Result Unit := do
  let missing := "cell result is missing valid execution timing provenance"
  match timing with
  | .other => .error (.queueCli missing)
  | .refused schemaVersion =>
    require ((schemaVersion.getD .null).isText timingSchema = true) (.queueCli missing)
    .error (.queueCli "cell execution timing provenance is not valid JSON")
  | .json document =>
    let timing ← expect document.fields? missing
    require ((get timing "schema_version").isText timingSchema = true) (.queueCli missing)
    validateDocument datetime timing

end Gate

section Seal

def atKey (fields : Json.Fields) (key : String) : Result Json :=
  match fields.get? key with
  | some value => .ok value
  | none => .error .key

def fieldsAt (fields : Json.Fields) (key : String) : Result Json.Fields := do
  let value ← atKey fields key
  match value with
  | .obj value => pure value
  | _ => .error .type

/-- `prefix_counts[span["status"]] += 1` and the sum of the stage, for one span of the prefix. -/
def prefixSpan (counts : Dict String Int) (span : Json) : Result ((String × Int) × (String × Int)) :=
  match span with
  | .obj span => do
    let status ← atKey span "status"
    let stage ← atKey span "stage"
    let duration ← atKey span "duration_ns"
    match status, stage, duration with
    | .str status, .str stage, .int duration => do
      require ((counts.get? status).isSome = true) .key
      pure ((status, 1), (stage, duration))
    | _, _, _ => .error .type
  | _ => .error .type

def prefixTotals (spans : List Json) : Result (Dict String Int × Dict String Int) :=
  spans.foldlM (fun totals span => do
    let items ← prefixSpan totals.1 span
    pure (add totals.1 items.1, add totals.2 items.2)) (noCounts, Dict.empty)

def itemsAt (fields : Json.Fields) (key : String) : Result (List Json) := do
  let value ← atKey fields key
  match value with
  | .arr items => pure items
  | _ => .error .type

def numberAt (fields : Json.Fields) (key : String) : Result Rat := do
  let value ← atKey fields key
  match value.number? with
  | some n => pure n
  | none => .error .type

/-- The part of `_validate_seal_binding` about timing, for a result whose timing is accepted. -/
def validateSealTiming (cellSeal timing : Json.Fields) : Result Unit := do
  let sealedTiming ← expect (get cellSeal "timing").fields? "generated cell seal is missing its timing provenance"
  let resultSummary ← fieldsAt timing "summary"
  let spans ← itemsAt timing "spans"
  let completed := spans.dropLast
  let mismatch := "generated cell seal timing does not match completed execution timing"
  require ((get sealedTiming "schema_version").isText timingSchema = true) (.queueCli mismatch)
  let policy ← atKey timing "policy"
  require ((get sealedTiming "policy").same policy = true) (.queueCli mismatch)
  require ((get sealedTiming "spans").same (.arr completed) = true) (.queueCli mismatch)
  let sealedSummary ← expect (get sealedTiming "summary").fields? mismatch
  let startedAt ← atKey resultSummary "measurement_started_at"
  require ((get sealedSummary "measurement_started_at").same startedAt = true) (.queueCli mismatch)
  let sealedElapsed ← nonnegativeInteger (get sealedSummary "elapsed_before_snapshot_ns")
    "sealed timing elapsed_before_snapshot_ns"
  let elapsed ← numberAt resultSummary "elapsed_before_snapshot_ns"
  require (sealedElapsed ≤ elapsed) (.queueCli "sealed timing elapsed duration exceeds completed execution")
  let (prefixCounts, prefixDurations) ← prefixTotals completed
  let unequal := "generated cell seal timing summary does not match its prefix"
  require ((get sealedSummary "terminal_event_counts").same (.obj (totals prefixCounts)) = true) (.queueCli unequal)
  require ((get sealedSummary "stage_duration_ns").same (.obj (totals prefixDurations)) = true) (.queueCli unequal)

end Seal

end FidbPoc.Timing
