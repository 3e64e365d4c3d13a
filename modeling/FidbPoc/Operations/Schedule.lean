import FidbPoc.Lib.Calendar
import FidbPoc.Lib.Checked

namespace FidbPoc.Operations

open FidbPoc.Lib.Calendar FidbPoc.Lib.Checked

/-- What reading and evaluating a schedule can raise. -/
inductive Fault
  | value (message : String)
  /-- `{context} contains unsupported fields: {sorted(unknown)}` -/
  | unsupportedFields (context : String) (unknown : List String)
  | type (message : String)
  | overflow
  deriving DecidableEq

abbrev Result := Except Fault

def dayNames : List String := ["mon", "tue", "wed", "thu", "fri", "sat", "sun"]

/-- `DAY_NAMES[date.weekday()]`. -/
def dayName (date : Date) : String := dayNames.get date.weekday

structure DateScheduleOverride where
  date : Date
  enabled : Bool
  start : Time
  stopClaiming : Time
  hardCutoff : Option Time
  deriving DecidableEq

structure TailFillPolicy where
  enabled : Bool
  maxActiveBlocks : Int
  minimumIdleSlots : Int
  conservativeBlockMinutes : Int
  requireEstimatedFitBeforeCutoff : Bool
  deriving DecidableEq

structure SchedulePolicy where
  enabled : Bool
  timezoneName : String
  days : List String
  start : Time
  stopClaiming : Time
  hardCutoff : Option Time
  finishStartedBatch : Bool
  chainBatches : Bool
  tailFill : TailFillPolicy
  dateOverrides : List DateScheduleOverride
  deriving DecidableEq

/-- What the schedule takes from `zoneinfo` and from `datetime` with a zone. -/
structure Zones where
  known : String → Bool
  /-- the wall clock that a zone shows at an instant, in microseconds since the epoch -/
  astimezone : String → Int → Result DateTime
  isoformat : String → DateTime → String

structure ScheduleState where
  claimsAllowed : Bool
  reason : String
  windowStartedAt : Option String
  stopClaimingAt : Option String
  hardCutoffAt : Option String
  nextWindowAt : Option String
  deriving DecidableEq

/-- `date + timedelta(days=n)`. -/
def plusDays (date : Date) (n : Int) : Result Date := (date.addDays n).elim (.error .overflow) .ok

/-- `left <= right` of two clocks. -/
def notAfter (left right : Time) : Result Bool :=
  (left.le? right).elim (.error (.type "can't compare offset-naive and offset-aware times")) .ok

/-- A clock of the window that starts on a date: the next day's, unless it comes after the start. -/
def boundary (startDate : Date) (start clock : Time) : Result DateTime := do
  let rolled ← notAfter clock start
  let day ← if rolled then plusDays startDate 1 else pure startDate
  pure (.combine day clock)

def cutoffBoundary (startDate : Date) (start : Time) : Option Time → Result (Option DateTime)
  | some hardCutoff => some <$> boundary startDate start hardCutoff
  | none => pure none

/-- Whether a date has a window, and the clocks it has. -/
structure Clocks where
  enabled : Bool
  start : Time
  stopClaiming : Time
  hardCutoff : Option Time

structure Window where
  enabled : Bool
  started : DateTime
  stop : DateTime
  cutoff : Option DateTime

def Clocks.window (clocks : Clocks) (startDate : Date) : Result Window := do
  let stop ← boundary startDate clocks.start clocks.stopClaiming
  let cutoff ← cutoffBoundary startDate clocks.start clocks.hardCutoff
  require (∀ limit ∈ cutoff, stop ≤ limit) (.value "schedule stop_claiming must not be after hard_cutoff")
  pure ⟨clocks.enabled, .combine startDate clocks.start, stop, cutoff⟩

/-- When a window ends. -/
def Window.ended (window : Window) : DateTime := window.cutoff.getD window.stop

namespace SchedulePolicy

variable (policy : SchedulePolicy)

def overrideFor (startDate : Date) : Option DateScheduleOverride :=
  policy.dateOverrides.find? fun o => o.date = startDate

/-- The clocks of a date that has no override. -/
def baseClocks (startDate : Date) : Clocks :=
  ⟨dayName startDate ∈ policy.days, policy.start, policy.stopClaiming, policy.hardCutoff⟩

def clocks (startDate : Date) : Clocks :=
  match policy.overrideFor startDate with
  | some o => ⟨o.enabled, o.start, o.stopClaiming, o.hardCutoff⟩
  | none => policy.baseClocks startDate

def window (startDate : Date) : Result Window := (policy.clocks startDate).window startDate

/-- The last of the candidate dates whose window is in force. -/
def activeWindow (now : DateTime) (dates : List Date) : Result (Option Window) :=
  dates.foldlM (fun active date => do
    let window ← policy.window date
    pure (if window.enabled ∧ window.started ≤ now ∧ now < window.ended then some window else active)) none

/-- The first start after now, on the dates that many days ahead. -/
def nextWindow (now : DateTime) : List Int → Result (Option DateTime)
  | [] => pure none
  | offset :: rest => do
    let date ← plusDays now.date offset
    let window ← policy.window date
    if window.enabled ∧ now < window.started then pure (some window.started) else nextWindow now rest

def offsets : List Int := [0, 1, 2, 3, 4, 5, 6, 7, 8]

def reason (active : Option Window) (claimsAllowed : Bool) : String :=
  if claimsAllowed then "inside-claim-window"
  else if active.isSome then "claim-window-closed"
  else "outside-schedule-window"

/-- What the evaluation says of the wall clock `now` of the schedule's zone. -/
def evaluateAt (isoformat : DateTime → String) (now : DateTime) : Result ScheduleState :=
  if policy.enabled = false then pure ⟨true, "schedule-disabled", none, none, none, none⟩
  else do
    let yesterday ← plusDays now.date (-1)
    let active ← policy.activeWindow now [yesterday, now.date]
    let claimsAllowed := active.any fun window => now < window.stop
    let next ← policy.nextWindow now offsets
    pure ⟨claimsAllowed, reason active claimsAllowed, active.map fun window => isoformat window.started,
      active.map fun window => isoformat window.stop, active.bind fun window => window.cutoff.map isoformat,
      next.map isoformat⟩

def evaluate (zones : Zones) (now : Int) : Result ScheduleState := do
  let wall ← zones.astimezone policy.timezoneName now
  policy.evaluateAt (zones.isoformat policy.timezoneName) wall

end SchedulePolicy

end FidbPoc.Operations
