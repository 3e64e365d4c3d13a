import FidbPoc.Lib.Json
import FidbPoc.Operations.Schedule
import Mathlib.Data.List.Dedup

namespace FidbPoc.Operations

open FidbPoc.Lib FidbPoc.Lib.Calendar FidbPoc.Lib.Checked

/-- What `time.fromisoformat` and `date.fromisoformat` read of a text. -/
structure Readers where
  time : String → Option Time
  date : String → Option Date

/-- `row.get(key, default)`. -/
def get (row : Json.Fields) (key : String) (default : Json) : Json := (row.get? key).getD default

def onlyKeys (row : Json.Fields) (allowed : List String) (context : String) : Result Unit :=
  let unknown := (row.map Prod.fst).filter fun key => key ∉ allowed
  require (unknown = []) (.unsupportedFields context unknown.mergeSort)

def expect {α : Type} (value : Option α) (message : String) : Result α :=
  value.elim (.error (.value message)) .ok

def table (document : Json.Fields) (name : String) : Result Json.Fields :=
  expect (get document name (.obj [])).fields? s!"queue {name} must be a table"

def bool? : Json → Option Bool
  | .bool value => some value
  | _ => none

/-- An integer that is no Boolean and at least 1. -/
def positive? (value : Json) : Option Int := value.int?.filter fun n => 1 ≤ n

/-- `_clock`. -/
def clock (readers : Readers) (value : Json) (context : String) : Result Time := do
  let message := s!"{context} must use HH:MM"
  let text ← expect value.str? message
  let parsed ← expect (readers.time text) message
  require (parsed.second.val = 0 ∧ parsed.microsecond.val = 0 ∧ text.length = 5) (.value message)
  pure parsed

/-- A clock that may be left out. -/
def optionalClock (readers : Readers) (value : Json) (context : String) : Result (Option Time) :=
  match value with
  | .null => pure none
  | value => some <$> clock readers value context

def loadDays (row : Json.Fields) : Result (List String) := do
  let message := "schedule days must be unique values from ['mon', 'tue', 'wed', 'thu', 'fri', 'sat', 'sun']"
  let raw ← expect (get row "days" (.arr (dayNames.map .str))).items? message
  let days ← raw.mapM fun day => expect day.str? message
  require (days ≠ [] ∧ (∀ day ∈ days, day ∈ dayNames) ∧ days.Nodup) (.value message)
  pure days

def loadTailFill (row : Json.Fields) (chainBatches finishStartedBatch : Bool) : Result TailFillPolicy := do
  let tailFill ← expect (get row "tail_fill" (.obj [])).fields? "schedule tail_fill must be a table"
  onlyKeys tailFill ["enabled", "max_active_blocks", "minimum_idle_slots", "conservative_block_minutes",
    "require_estimated_fit_before_cutoff"] "schedule tail_fill table"
  let booleans := "schedule tail_fill booleans must be boolean"
  let enabled ← expect (bool? (get tailFill "enabled" (.bool false))) booleans
  let requireFit ← expect (bool? (get tailFill "require_estimated_fit_before_cutoff" (.bool true))) booleans
  let counted (label : String) (default : Int) : Result Int :=
    expect (positive? (get tailFill label (.int default))) s!"schedule tail_fill {label} must be a positive integer"
  let maxActiveBlocks ← counted "max_active_blocks" (if enabled then 2 else 1)
  let minimumIdleSlots ← counted "minimum_idle_slots" 4
  let conservativeBlockMinutes ← counted "conservative_block_minutes" 60
  require (maxActiveBlocks = 1 ∨ maxActiveBlocks = 2) (.value "schedule tail_fill max_active_blocks must be 1 or 2")
  require (enabled = true → maxActiveBlocks = 2 ∧ chainBatches = true ∧ finishStartedBatch = true)
    (.value "enabled tail_fill requires two active blocks and chained finished batches")
  pure ⟨enabled, maxActiveBlocks, minimumIdleSlots, conservativeBlockMinutes, requireFit⟩

/-- The clocks of the schedule table, which the overrides default to. -/
structure BaseClocks where
  start : Time
  stopClaiming : Time
  hardCutoffValue : Json

/-- One row of `date_overrides`, after the rows for the given dates. -/
def loadOverride (readers : Readers) (base : BaseClocks) (dates : List Date) (index : Nat) (value : Json) :
    Result DateScheduleOverride := do
  let context := s!"schedule date_overrides[{index}]"
  let row ← expect value.fields? s!"{context} must be a table"
  onlyKeys row ["date", "enabled", "start", "stop_claiming", "hard_cutoff"] context
  let rawDate ← expect ((row.get? "date").bind Json.str?) s!"{context} date must use YYYY-MM-DD"
  let date ← expect (readers.date rawDate) s!"{context} date must use YYYY-MM-DD"
  require (date ∉ dates) (.value s!"duplicate schedule date override: {rawDate}")
  let enabled ← expect (bool? (get row "enabled" (.bool true))) s!"{context} enabled must be a boolean"
  let start ← clock readers (get row "start" (.str base.start.hoursAndMinutes)) s!"{context} start"
  let stopClaiming ← clock readers (get row "stop_claiming" (.str base.stopClaiming.hoursAndMinutes))
    s!"{context} stop_claiming"
  let hardCutoff ← optionalClock readers (get row "hard_cutoff" base.hardCutoffValue) s!"{context} hard_cutoff"
  pure ⟨date, enabled, start, stopClaiming, hardCutoff⟩

/-- The rows of `date_overrides` from an index on, after the overrides before it. -/
def loadOverrides (readers : Readers) (base : BaseClocks) (loaded : List DateScheduleOverride) :
    List Json → Result (List DateScheduleOverride)
  | [] => pure loaded
  | value :: rest => do
    let o ← loadOverride readers base (loaded.map DateScheduleOverride.date) loaded.length value
    loadOverrides readers base (loaded ++ [o]) rest

/-- 2026-01-01, the date that the base clocks are tried on. -/
def sampleDate : Date := ⟨739617, by decide⟩

/-- The schedule of `load_operations_policy`. Its other tables are read after it and leave it as it is. -/
def loadSchedule (zones : Zones) (readers : Readers) (document : Json.Fields) : Result SchedulePolicy := do
  let row ← table document "schedule"
  onlyKeys row ["enabled", "timezone", "days", "start", "stop_claiming", "hard_cutoff", "finish_started_batch",
    "chain_batches", "date_overrides", "tail_fill"] "schedule table"
  let enabled ← expect (bool? (get row "enabled" (.bool false))) "schedule enabled must be a boolean"
  let timezoneName ← expect ((get row "timezone" (.str "UTC")).str?.filter fun name => name ≠ "")
    "schedule timezone must be a non-empty IANA timezone"
  require (zones.known timezoneName = true) (.value s!"unknown schedule timezone: {timezoneName}")
  let days ← loadDays row
  let finishStartedBatch ← expect (bool? (get row "finish_started_batch" (.bool false)))
    "schedule finish_started_batch must be a boolean"
  let chainBatches ← expect (bool? (get row "chain_batches" (.bool false))) "schedule chain_batches must be a boolean"
  require (chainBatches = true → finishStartedBatch = true)
    (.value "schedule chain_batches requires finish_started_batch")
  let tailFill ← loadTailFill row chainBatches finishStartedBatch
  let start ← clock readers (get row "start" (.str "00:00")) "schedule start"
  let stopClaiming ← clock readers (get row "stop_claiming" (.str "23:58")) "schedule stop_claiming"
  let hardCutoffValue := get row "hard_cutoff" (if finishStartedBatch then .null else .str "23:59")
  let hardCutoff ← optionalClock readers hardCutoffValue "schedule hard_cutoff"
  let rawOverrides ← expect (get row "date_overrides" (.arr [])).items?
    "schedule date_overrides must be an array of tables"
  let dateOverrides ← loadOverrides readers ⟨start, stopClaiming, hardCutoffValue⟩ [] rawOverrides
  let schedule : SchedulePolicy := ⟨enabled, timezoneName, days, start, stopClaiming, hardCutoff,
    finishStartedBatch, chainBatches, tailFill, dateOverrides⟩
  let _ ← schedule.window sampleDate
  dateOverrides.forM fun o => do
    let _ ← schedule.window o.date
  pure schedule

end FidbPoc.Operations
