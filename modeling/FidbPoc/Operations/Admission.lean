import FidbPoc.Operations.Schedule
import Mathlib.Data.List.Basic
import Mathlib.Data.List.Infix

namespace FidbPoc.Operations.Admission

open FidbPoc.Lib.Calendar FidbPoc.Lib.Checked

/-- A value of a parsed TOML document. -/
inductive Value
  | str (value : String)
  | bool (value : Bool)
  | int (value : Int)
  /-- a float, a date or a time, by its text and its truth value -/
  | scalar (text : String) (truth : Bool)
  | arr (items : List Value)
  | obj (fields : List (String × Value))

abbrev Fields := List (String × Value)

inductive Raised
  | value (message : String)
  | type
  | key (name : String)
  | zone

abbrev Result := Except Raised

/-- What the schedules take from Python. -/
structure Python where
  /-- `str()` of an array or a table -/
  display : Value → String
  /-- `int()` of a text -/
  int : String → Option Int
  /-- whether `ZoneInfo()` finds a zone -/
  zone : String → Bool

namespace Value

def text? : Value → Option String
  | .str value => some value
  | _ => none

def items? : Value → Option (List Value)
  | .arr items => some items
  | _ => none

def isTrue : Value → Bool
  | .bool value => value
  | _ => false

def truthy : Value → Bool
  | .str value => value ≠ ""
  | .bool value => value
  | .int value => value ≠ 0
  | .scalar _ truth => truth
  | .arr items => !items.isEmpty
  | .obj fields => !fields.isEmpty

def hashable : Value → Bool
  | .arr _ => false
  | .obj _ => false
  | _ => true

/-- `str(value)` -/
def str' (python : Python) : Value → String
  | .str value => value
  | .bool value => if value then "True" else "False"
  | .int value => toString value
  | .scalar text _ => text
  | value => python.display value

/-- `text in value` -/
def contains (text : String) : Value → Result Bool
  | .arr items => .ok (items.any fun item => item.text? = some text)
  | .str value => .ok (decide (text.toList <:+: value.toList))
  | .obj fields => .ok (fields.any fun field => field.1 = text)
  | _ => .error .type

end Value

def get? (fields : Fields) (key : String) : Option Value := (fields.find? fun field => field.1 = key).map Prod.snd

/-- `fields[key]` -/
def item (fields : Fields) (key : String) : Result Value := (get? fields key).elim (.error (.key key)) .ok

/-- `set(fields) == names`; a table lists a key once. -/
def HasKeys (fields : Fields) (names : List String) : Prop := (fields.map Prod.fst).Perm names

instance (fields : Fields) (names : List String) : Decidable (HasKeys fields names) :=
  inferInstanceAs (Decidable (List.Perm _ _))

def isText (fields : Fields) (key text : String) : Bool := (get? fields key).bind Value.text? = some text

section Clocks

/-- `_clock_minutes`; the two modules differ in the first words of the message. -/
def clockMinutes (python : Python) (subject value : String) : Result Nat :=
  match ((value.toList.splitOn ':').map String.ofList).map python.int with
  | [some hour, some minute] =>
    if 0 ≤ hour ∧ hour ≤ 23 ∧ 0 ≤ minute ∧ minute ≤ 59 then .ok (hour * 60 + minute).toNat
    else .error (.value s!"invalid {subject} schedule time: {value}")
  | _ => .error (.value s!"invalid {subject} schedule time: {value}")

/-- `_clock_minutes(str(window[key]))` -/
def clock (python : Python) (subject : String) (window : Fields) (key : String) : Result Nat := do
  let value ← item window key
  clockMinutes python subject (value.str' python)

end Clocks

section Hashes

def hashSubject : String := "validation"

def loadHashWindow (python : Python) (ids : List String) : Value → Result (List String)
  | .obj window => do
    require (HasKeys window ["id", "kind", "date", "start", "stop_admitting", "enabled"] ∨
      HasKeys window ["id", "kind", "days", "start", "stop_admitting", "enabled"])
      (.value "hash-analysis window has unsupported fields")
    let id ← item window "id"
    let kind ← item window "kind"
    require (id.hashable = true) .type
    require (∀ text ∈ id.text?, text ∉ ids) (.value "hash-analysis window identity is invalid")
    require (kind.hashable = true) .type
    require (kind.text? = some "once" ∨ kind.text? = some "weekly") (.value "hash-analysis window identity is invalid")
    let start ← clock python hashSubject window "start"
    let stop ← clock python hashSubject window "stop_admitting"
    require (start ≠ stop) (.value "hash-analysis window cannot span a full day")
    return id.str' python :: ids
  | _ => .error (.value "hash-analysis window has unsupported fields")

/-- The windows of an accepted document. -/
def loadHashSchedule (python : Python) (document : Fields) : Result (List Value) := do
  require (HasKeys document ["schema_version", "timezone", "source_run_policy", "runtime", "finish_started", "window"] ∧
    isText document "schema_version" "fidb-machine-validation-hash-schedule/v1" = true)
    (.value "hash-analysis schedule has unsupported fields or schema")
  let policy ← item document "source_run_policy"
  let finishStarted ← item document "finish_started"
  let window ← item document "window"
  let windows := window.items?.getD []
  require (policy.text? = some "latest-complete-full-without-current-hash-report" ∧ finishStarted.isTrue = true ∧
    windows ≠ []) (.value "hash-analysis schedule policy is unsupported")
  let timezone ← item document "timezone"
  require (python.zone (timezone.str' python) = true) .zone
  let _ ← windows.foldlM (loadHashWindow python) []
  return windows

/-- Whether a window of the hash schedule is one of a date. -/
def hashListed (python : Python) (window : Fields) (date : Date) : Result Bool := do
  let kind ← item window "kind"
  if kind.text? = some "once" then
    let listed ← item window "date"
    return listed.str' python = date.isoformat
  else if kind.text? = some "weekly" then
    let days ← item window "days"
    days.contains (dayName date)
  else return true

end Hashes

section Campaigns

def campaignSubject : String := "FID matching"

def loadCampaignWindow (python : Python) : Value → Result Unit
  | .obj window => do
    require (HasKeys window ["id", "kind", "days", "start", "stop_admitting", "enabled"] ∧
      isText window "kind" "weekly" = true) (.value "FID matching schedule window is unsupported")
    let start ← clock python campaignSubject window "start"
    let stop ← clock python campaignSubject window "stop_admitting"
    require (start ≠ stop) (.value "FID matching schedule window cannot span a full day")
  | _ => .error (.value "FID matching schedule window is unsupported")

/-- What `load_campaign` requires of its schedule; the windows of an accepted one. -/
def loadCampaignSchedule (python : Python) (schedule : Fields) : Result (List Value) := do
  require (HasKeys schedule ["timezone", "window"]) (.value "FID matching schedule is invalid")
  let window ← item schedule "window"
  require (window.truthy = true) (.value "FID matching schedule is invalid")
  let timezone ← item schedule "timezone"
  require (python.zone (timezone.str' python) = true) .zone
  let windows ← window.items?.elim (.error .type) .ok
  windows.forM (loadCampaignWindow python)
  return windows

def campaignListed (window : Fields) (date : Date) : Result Bool := do
  let days ← item window "days"
  days.contains (dayName date)

end Campaigns

section Evaluation

variable (python : Python) (subject : String) (listed : Fields → Date → Result Bool)

def minuteOf (now : DateTime) : Nat := now.clock / 60000000

/-- One pass of the loop over the windows. -/
def opensAt (now : DateTime) (window : Fields) : Result Bool := do
  let enabled ← item window "enabled"
  if enabled.truthy = true then
    let today ← listed window now.date
    if today = true then
      let start ← clock python subject window "start"
      let stop ← clock python subject window "stop_admitting"
      let minute := minuteOf now
      return if start < stop then start ≤ minute && minute < stop else start ≤ minute || minute < stop
    else return false
  else return false

/-- The loop of `_window_open`, at a local wall clock. -/
def windowOpen (now : DateTime) : List Value → Result (Bool × Option String)
  | [] => return (false, none)
  | .obj window :: rest => do
    let openNow ← opensAt python subject listed now window
    if openNow = true then
      let id ← item window "id"
      return (true, some (id.str' python))
    else windowOpen now rest
  | _ :: _ => .error .type

end Evaluation

/-- `_window_open` of the hash schedule. -/
def hashWindowOpen (python : Python) : DateTime → List Value → Result (Bool × Option String) :=
  windowOpen python hashSubject (hashListed python)

/-- `_window_open` of a matching campaign. -/
def campaignWindowOpen (python : Python) : DateTime → List Value → Result (Bool × Option String) :=
  windowOpen python campaignSubject campaignListed

end FidbPoc.Operations.Admission
