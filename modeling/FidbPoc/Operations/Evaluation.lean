import FidbPoc.Operations.Loading
import FidbPoc.Operations.Windows

namespace FidbPoc.Operations

open FidbPoc.Lib FidbPoc.Lib.Calendar FidbPoc.Lib.Checked

section LookAhead

variable (policy : SchedulePolicy) (now : DateTime)

/-- The enabled window so many days ahead starts after now. -/
def startsLater (offset : Int) : Bool :=
  (now.date.addDays offset).any fun date =>
    (policy.clocks date).enabled && decide (now < .combine date (policy.clocks date).start)

/-- The days ahead up to the first whose window starts after now. -/
def lookAhead : List Int → List Int
  | [] => []
  | offset :: rest => if startsLater policy now offset then [offset] else offset :: lookAhead rest

/-- The days that an evaluation looks at, counted from the current one. -/
def inspected : List Int := -1 :: 0 :: lookAhead policy now SchedulePolicy.offsets

variable {policy now}

theorem lookAhead_subset {offsets : List Int} : lookAhead policy now offsets ⊆ offsets := by
  induction offsets with
  | nil => exact List.Subset.refl _
  | cons offset rest ih =>
    by_cases h : startsLater policy now offset = true
    · simp [lookAhead, h]
    · simpa [lookAhead, h] using List.cons_subset_cons offset ih

/-- The date so many days ahead is in the calendar, and it has its window. -/
def HasWindow (policy : SchedulePolicy) (now : DateTime) (offset : Int) : Prop :=
  ∃ date, now.date.addDays offset = some date ∧ (policy.clocks date).InOrder ∧ (policy.clocks date).Fits date

theorem hasWindow_iff {offset : Int} :
    HasWindow policy now offset ↔
      ∃ date, plusDays now.date offset = .ok date ∧ ∃ window, policy.window date = .ok window := by
  simp only [HasWindow, plusDays_eq_ok, SchedulePolicy.window, window_isOk]

/-- The search for the next window returns when the days it looks at have their windows. -/
theorem nextWindow_isOk {offsets : List Int} :
    (∃ next, policy.nextWindow now offsets = .ok next) ↔ ∀ n ∈ lookAhead policy now offsets, HasWindow policy now n := by
  induction offsets with
  | nil => simp [SchedulePolicy.nextWindow, lookAhead, pure_eq_ok]
  | cons offset rest ih =>
    by_cases hw : HasWindow policy now offset
    · obtain ⟨date, hdate, window, hwindow⟩ := hasWindow_iff.mp hw
      obtain ⟨henabled, hstarted, -⟩ := window_eq_ok hwindow
      have hlater : startsLater policy now offset = true ↔ window.enabled = true ∧ now < window.started := by
        simp [startsLater, plusDays_eq_ok.mp hdate, henabled, hstarted]
      by_cases h : startsLater policy now offset = true
      · simp [SchedulePolicy.nextWindow, hdate, hwindow, ok_bind, hlater.mp h, lookAhead, h, hw, pure_eq_ok]
      · simp [SchedulePolicy.nextWindow, hdate, hwindow, ok_bind, mt hlater.mpr h, lookAhead, h, hw, ih]
    · have hmem : offset ∈ lookAhead policy now (offset :: rest) := by
        by_cases h : startsLater policy now offset = true <;> simp [lookAhead, h]
      refine ⟨?_, fun hall => absurd (hall offset hmem) hw⟩
      rintro ⟨next, hnext⟩
      simp only [SchedulePolicy.nextWindow, bind_eq_ok] at hnext
      obtain ⟨date, hdate, window, hwindow, -⟩ := hnext
      exact absurd (hasWindow_iff.mpr ⟨date, hdate, window, hwindow⟩) hw

theorem activeWindow_isOk {yesterday : Date} (hy : now.date.addDays (-1) = some yesterday) :
    (∃ active, policy.activeWindow now [yesterday, now.date] = .ok active) ↔
      HasWindow policy now (-1) ∧ HasWindow policy now 0 := by
  simp only [SchedulePolicy.activeWindow, List.foldlM_cons, List.foldlM_nil, bind_eq_ok, pure_eq_ok, hasWindow_iff,
    plusDays_eq_ok, hy, Date.addDays_zero, Option.some.injEq, exists_eq_left']
  constructor
  · rintro ⟨-, _, ⟨first, hfirst, -⟩, _, ⟨second, hsecond, -⟩, -⟩
    exact ⟨⟨first, hfirst⟩, second, hsecond⟩
  · rintro ⟨⟨first, hfirst⟩, second, hsecond⟩
    exact ⟨_, _, ⟨first, hfirst, rfl⟩, _, ⟨second, hsecond, rfl⟩, rfl⟩

/-- An enabled schedule is evaluated when every day that the evaluation looks at has its window. -/
theorem evaluateAt_isOk {isoformat : DateTime → String} :
    (∃ state, policy.evaluateAt isoformat now = .ok state) ↔
      (policy.enabled = true → ∀ n ∈ inspected policy now, HasWindow policy now n) := by
  cases henabled : policy.enabled with
  | false => simp [SchedulePolicy.evaluateAt, henabled, pure_eq_ok]
  | true =>
    simp only [SchedulePolicy.evaluateAt, henabled, Bool.true_eq_false, ↓reduceIte, bind_eq_ok, pure_eq_ok, inspected,
      List.forall_mem_cons, forall_const]
    constructor
    · rintro ⟨-, yesterday, hy, active, hactive, next, hnext, -⟩
      obtain ⟨hbefore, htoday⟩ := (activeWindow_isOk (plusDays_eq_ok.mp hy)).mp ⟨active, hactive⟩
      exact ⟨hbefore, htoday, nextWindow_isOk.mp ⟨next, hnext⟩⟩
    · rintro ⟨hbefore, htoday, hahead⟩
      obtain ⟨yesterday, hy, -⟩ := id hbefore
      obtain ⟨active, hactive⟩ := (activeWindow_isOk hy).mpr ⟨hbefore, htoday⟩
      obtain ⟨next, hnext⟩ := nextWindow_isOk.mpr hahead
      exact ⟨_, yesterday, plusDays_eq_ok.mpr hy, active, hactive, next, hnext, rfl⟩

end LookAhead

section Loaded

variable {zones : Zones} {readers : Readers} {document : Json.Fields} {policy : SchedulePolicy}

theorem forM_eq_ok {α : Type} {f : α → Result Unit} {xs : List α} (h : xs.forM f = .ok ()) : ∀ x ∈ xs, f x = .ok () := by
  induction xs with
  | nil => simp
  | cons x xs ih =>
    obtain ⟨_, hx, hxs⟩ := bind_eq_ok.mp h
    exact List.forall_mem_cons.mpr ⟨hx, ih hxs⟩

/-- Loading tries the window of every date that has an override. -/
theorem loadSchedule_window (h : loadSchedule zones readers document = .ok policy) :
    ∀ o ∈ policy.dateOverrides, ∃ window, policy.window o.date = .ok window := by
  simp only [loadSchedule, bind_eq_ok, pure_eq_ok] at h
  obtain ⟨_, -, _, -, _, -, _, -, _, -, _, -, _, -, _, -, _, -, _, -, _, -, _, -, _, -, _, -, overrides, -, _, -, _,
    hoverrides, rfl⟩ := h
  intro o ho
  obtain ⟨window, hwindow, -⟩ := bind_eq_ok.mp (forM_eq_ok hoverrides o ho)
  exact ⟨window, hwindow⟩

theorem loaded_override (h : loadSchedule zones readers document = .ok policy) {d : Date}
    (ho : (policy.overrideFor d).isSome = true) : (policy.clocks d).InOrder ∧ (policy.clocks d).Fits d := by
  obtain ⟨o, ho⟩ := Option.isSome_iff_exists.mp ho
  have hdate : o.date = d := by simpa using List.find?_some ho
  obtain ⟨window, hwindow⟩ := loadSchedule_window h o (List.mem_of_find?_eq_some ho)
  rw [hdate] at hwindow
  exact window_isOk.mp ⟨window, hwindow⟩

/-- A loaded schedule is evaluated at an instant when the zone has a wall clock there and each day that the
evaluation looks at is in the calendar and has an override, or else base clocks in order. -/
theorem loaded_evaluates_iff (h : loadSchedule zones readers document = .ok policy) (now : Int) :
    (∃ state, policy.evaluate zones now = .ok state) ↔
      ∃ wall, zones.astimezone policy.timezoneName now = .ok wall ∧
        (policy.enabled = true → ∀ n ∈ inspected policy wall, ∃ date, wall.date.addDays n = some date ∧
          ((policy.overrideFor date).isSome = true ∨
            (policy.baseClocks date).InOrder ∧ (policy.baseClocks date).Fits date)) := by
  have hclocks (d : Date) : ((policy.clocks d).InOrder ∧ (policy.clocks d).Fits d) ↔
      ((policy.overrideFor d).isSome = true ∨ (policy.baseClocks d).InOrder ∧ (policy.baseClocks d).Fits d) := by
    cases ho : policy.overrideFor d with
    | none => simp [SchedulePolicy.clocks, ho]
    | some o => simp [loaded_override h (d := d) (by simp [ho])]
  have hwall (wall : DateTime) := @evaluateAt_isOk policy wall (zones.isoformat policy.timezoneName)
  simp only [HasWindow, hclocks] at hwall
  simp only [SchedulePolicy.evaluate, bind_eq_ok, ← hwall]
  constructor
  · rintro ⟨state, wall, hz, hstate⟩
    exact ⟨wall, hz, state, hstate⟩
  · rintro ⟨wall, hz, state, hstate⟩
    exact ⟨state, wall, hz, hstate⟩

end Loaded

namespace NewYear

def digit (c : Char) : Option Nat := if c.isDigit then some (c.toNat - 48) else none

def twoDigits (c c' : Char) : Option Nat := do pure (10 * (← digit c) + (← digit c'))

/-- `HH:MM`. -/
def readClock (text : String) : Option Time :=
  match text.toList with
  | [h, h', ':', m, m'] => do
    let hour ← twoDigits h h'
    let minute ← twoDigits m m'
    if valid : hour < 24 ∧ minute < 60 then some ⟨⟨hour, valid.1⟩, ⟨minute, valid.2⟩, 0, 0, none⟩ else none
  | _ => none

def readers : Readers := ⟨readClock, fun text => if text = "2026-01-01" then some sampleDate else none⟩

/-- The wall clock of an instant, counted in microseconds from the ordinal of 1970-01-01. -/
def utcClock (now : Int) : Result DateTime :=
  match Date.addDays ⟨719163, by decide⟩ (now / dayLength) with
  | none => .error .overflow
  | some date => .ok ⟨date, (now % dayLength).toNat, by simp only [dayLength]; omega⟩

/-- The text of a wall clock of January 2026. -/
def januaryText (t : DateTime) : String :=
  s!"2026-01-{Time.twoDigits (t.date.ordinal - 739616)}T{Time.twoDigits (t.clock / 3600000000)}:" ++
    s!"{Time.twoDigits (t.clock / 60000000 % 60)}:00+00:00"

def utc : Zones := ⟨fun name => name = "UTC", fun _ => utcClock, fun _ => januaryText⟩

/-- Noon of a day of January 2026. -/
def noon (day : Nat) : Int := (20453 + day) * 86400000000 + 43200000000

/-- The stop comes after the cutoff, except on New Year's Day. -/
def document : Json.Fields :=
  [("schedule", .obj [("enabled", .bool true), ("start", .str "22:00"), ("stop_claiming", .str "06:15"),
    ("hard_cutoff", .str "05:45"),
    ("date_overrides", .arr [.obj [("date", .str "2026-01-01"), ("stop_claiming", .str "05:30")]])])]

def clockAt (hour : Fin 24) (minute : Fin 60) : Time := ⟨hour, minute, 0, 0, none⟩

def policy : SchedulePolicy where
  enabled := true
  timezoneName := "UTC"
  days := dayNames
  start := clockAt 22 0
  stopClaiming := clockAt 6 15
  hardCutoff := some (clockAt 5 45)
  finishStartedBatch := false
  chainBatches := false
  tailFill := ⟨false, 1, 4, 60, true⟩
  dateOverrides := [⟨sampleDate, true, clockAt 22 0, clockAt 5 30, some (clockAt 5 45)⟩]

/-- The sampled date is the one date whose clocks are replaced, so the base clocks are never tried. -/
theorem override_hides_base : loadSchedule utc readers document = .ok policy ∧
    policy.evaluate utc (noon 10) = .error (.value "schedule stop_claiming must not be after hard_cutoff") := by
  decide

def soundDocument : Json.Fields := [("schedule", .obj [("enabled", .bool true)])]

def soundPolicy : SchedulePolicy where
  enabled := true
  timezoneName := "UTC"
  days := dayNames
  start := clockAt 0 0
  stopClaiming := clockAt 23 58
  hardCutoff := some (clockAt 23 59)
  finishStartedBatch := false
  chainBatches := false
  tailFill := ⟨false, 1, 4, 60, true⟩
  dateOverrides := []

theorem sound_loads : loadSchedule utc readers soundDocument = .ok soundPolicy := by decide

theorem sound_reach (d : Date) :
    (soundPolicy.baseClocks d).reach (clockAt 23 58) = some 86280000000 ∧
      (soundPolicy.baseClocks d).reach (clockAt 23 59) = some 86340000000 := by
  simp only [Clocks.reach, SchedulePolicy.baseClocks, soundPolicy]
  decide

theorem sound_inOrder (d : Date) : (soundPolicy.baseClocks d).InOrder := by
  refine ⟨_, (sound_reach d).1, ?_⟩
  rintro _ ⟨⟩
  exact ⟨_, (sound_reach d).2, by decide⟩

theorem sound_fits (d : Date) : (soundPolicy.baseClocks d).Fits d := by
  intro _ clock hclock reach hreach
  simp only [SchedulePolicy.baseClocks, soundPolicy, Option.toList, List.mem_cons, List.not_mem_nil, or_false] at hclock
  rcases hclock with rfl | rfl
  · obtain rfl := Option.some.inj ((sound_reach d).1.symm.trans hreach)
    decide
  · obtain rfl := Option.some.inj ((sound_reach d).2.symm.trans hreach)
    decide

theorem sound_evaluates : ∃ state, soundPolicy.evaluate utc (noon 1) = .ok state := by
  refine (loaded_evaluates_iff sound_loads (noon 1)).mpr ⟨⟨sampleDate, 43200000000, by decide⟩, by decide, ?_⟩
  intro _ n hn
  have hmem : n ∈ [-1, 0, 0, 1] := by
    have hi : inspected soundPolicy ⟨sampleDate, 43200000000, by decide⟩ = [-1, 0, 0, 1] := by decide
    rwa [hi] at hn
  obtain ⟨date, hdate⟩ : ∃ date, sampleDate.addDays n = some date := by
    simp only [List.mem_cons, List.not_mem_nil, or_false] at hmem
    apply Date.addDays_isSome <;> simp only [sampleDate, maxOrdinal] <;> omega
  exact ⟨date, hdate, .inr ⟨sound_inOrder date, sound_fits date⟩⟩

end NewYear

section LookBack

variable {zones : Zones} {policy : SchedulePolicy} {now : Int} {wall : DateTime}

theorem inspected_range {n : Int} (hn : n ∈ inspected policy wall) : -1 ≤ n ∧ n ≤ 8 := by
  have hsubset : inspected policy wall ⊆ -1 :: 0 :: SchedulePolicy.offsets :=
    List.cons_subset_cons _ (List.cons_subset_cons _ lookAhead_subset)
  have hmem := hsubset hn
  simp only [SchedulePolicy.offsets, List.mem_cons, List.not_mem_nil, or_false] at hmem
  omega

/-- Away from both ends of the calendar, clocks in order are all that an evaluation needs. -/
theorem inspected_hasWindow (hvalid : ∀ d, (policy.clocks d).InOrder) (hfirst : 2 ≤ wall.date.ordinal)
    (hlast : wall.date.ordinal + 9 ≤ maxOrdinal) : ∀ n ∈ inspected policy wall, HasWindow policy wall n := by
  intro n hn
  have hrange := inspected_range hn
  obtain ⟨date, hdate⟩ : ∃ date, wall.date.addDays n = some date := by
    apply Date.addDays_isSome
    · omega
    · omega
  refine ⟨date, hdate, hvalid date, fun hmax => ?_⟩
  have hord := Date.addDays_eq_some.mp hdate
  omega

/-- An enabled schedule reports the window that it found in force. -/
theorem evaluateAt_reports {isoformat : DateTime → String} {state : ScheduleState} (henabled : policy.enabled = true)
    (h : policy.evaluateAt isoformat wall = .ok state) :
    ∃ active : Option Window, (∀ window, active = some window → ∃ d, Latest policy wall d window) ∧
      (active = none → ∀ d window, ¬ InForce policy wall d window) ∧
      state.claimsAllowed = (active.any fun window => wall < window.stop) ∧
      state.windowStartedAt = (active.map fun window => isoformat window.started) ∧
      state.stopClaimingAt = (active.map fun window => isoformat window.stop) ∧
      state.hardCutoffAt = active.bind fun window => window.cutoff.map isoformat := by
  simp only [SchedulePolicy.evaluateAt, henabled, Bool.true_eq_false, ↓reduceIte, bind_eq_ok, pure_eq_ok,
    plusDays_eq_ok] at h
  obtain ⟨yesterday, hy, active, hactive, next, -, rfl⟩ := h
  obtain ⟨hsome, hnone⟩ := activeWindow_spec hy hactive
  exact ⟨active, hsome, hnone, rfl, rfl, rfl, rfl⟩

/-- What an evaluation reports is the latest window in force, of all dates, and claims are allowed until
that window stops them. -/
theorem evaluate_latest (henabled : policy.enabled = true) (hvalid : ∀ d, (policy.clocks d).InOrder)
    (hwall : zones.astimezone policy.timezoneName now = .ok wall) (hfirst : 2 ≤ wall.date.ordinal)
    (hlast : wall.date.ordinal + 9 ≤ maxOrdinal) :
    ∃ state, policy.evaluate zones now = .ok state ∧
      (state.claimsAllowed = true ↔ ∃ d window, Latest policy wall d window ∧ wall < window.stop) ∧
      (∀ d window, Latest policy wall d window →
        state.windowStartedAt = some (zones.isoformat policy.timezoneName window.started) ∧
        state.stopClaimingAt = some (zones.isoformat policy.timezoneName window.stop) ∧
        state.hardCutoffAt = window.cutoff.map (zones.isoformat policy.timezoneName)) ∧
      ((∀ d window, ¬ InForce policy wall d window) →
        state.windowStartedAt = none ∧ state.stopClaimingAt = none ∧ state.hardCutoffAt = none) := by
  obtain ⟨state, hstate⟩ := (@evaluateAt_isOk policy wall (zones.isoformat policy.timezoneName)).mpr fun _ =>
    inspected_hasWindow hvalid hfirst hlast
  refine ⟨state, bind_eq_ok.mpr ⟨wall, hwall, hstate⟩, ?_⟩
  obtain ⟨active, hsome, hnone, hallowed, hstarted, hstop, hcutoff⟩ := evaluateAt_reports henabled hstate
  rw [hallowed, hstarted, hstop, hcutoff]
  cases active with
  | none =>
    have hout := hnone rfl
    refine ⟨?_, fun d window h => absurd h.1 (hout d window), fun _ => ⟨rfl, rfl, rfl⟩⟩
    simp only [Option.any_none, Bool.false_eq_true, false_iff, not_exists, not_and]
    exact fun d window h => absurd h.1 (hout d window)
  | some window =>
    obtain ⟨d, hlatest⟩ := hsome window rfl
    refine ⟨?_, ?_, fun hout => absurd hlatest.1 (hout d window)⟩
    · refine ⟨fun hstop => ⟨d, window, hlatest, of_decide_eq_true hstop⟩, ?_⟩
      rintro ⟨d', window', hlatest', hstop⟩
      obtain rfl := hlatest.unique hlatest'
      exact decide_eq_true hstop
    · intro d' window' hlatest'
      rw [hlatest'.unique hlatest]
      exact ⟨rfl, rfl, rfl⟩

end LookBack

namespace NewYear

/-- New Year's Day at noon, a Thursday. -/
def thursday : DateTime := ⟨sampleDate, 43200000000, by decide⟩

theorem noon_latest : ∃ state, soundPolicy.evaluate utc (noon 1) = .ok state ∧
    (state.claimsAllowed = true ↔ ∃ d window, Latest soundPolicy thursday d window ∧ thursday < window.stop) := by
  obtain ⟨state, hstate, hallowed, -⟩ := @evaluate_latest utc soundPolicy (noon 1) thursday rfl sound_inOrder
    (by decide) (by decide) (by decide)
  exact ⟨state, hstate, hallowed⟩

/-- A schedule that is off, with windows on Mondays. -/
def offPolicy : SchedulePolicy := { soundPolicy with enabled := false, days := ["mon"] }

def lastNoon : Int := 2932896 * 86400000000 + 43200000000

def lastDay : DateTime := ⟨⟨maxOrdinal, by decide⟩, 43200000000, by decide⟩

theorem off_not_inForce (d : Date) (window : Window) : ¬ InForce offPolicy thursday d window := by
  intro h
  have henabled := (window_eq_ok h.1).1.symm.trans h.2.1
  rcases h.date with hd | hd
  · have heq : d = sampleDate := Date.ext_ordinal hd
    subst heq
    exact absurd henabled (by decide)
  · have heq : d = ⟨739616, by decide⟩ := Date.ext_ordinal (by change d.ordinal = 739616; change _ = 739617 at hd; omega)
    subst heq
    exact absurd henabled (by decide)

/-- A schedule that is off allows claims outside every window; on the last day of the calendar, inside a
window, the search for the next one leaves the calendar. -/
theorem off_allows_claims :
    ((∃ state, offPolicy.evaluate utc (noon 1) = .ok state ∧ state.claimsAllowed = true) ∧
      ∀ d window, ¬ InForce offPolicy thursday d window) ∧
    (∃ window, InForce soundPolicy lastDay lastDay.date window ∧ lastDay < window.stop) ∧
      soundPolicy.evaluate utc lastNoon = .error .overflow := by
  refine ⟨⟨⟨⟨true, "schedule-disabled", none, none, none, none⟩, by decide, rfl⟩, off_not_inForce⟩, ?_⟩
  refine ⟨⟨⟨true, ⟨lastDay.date, 0, by decide⟩, ⟨lastDay.date, 86280000000, by decide⟩,
    some ⟨lastDay.date, 86340000000, by decide⟩⟩, ⟨by rfl, rfl, by decide, by decide⟩, by decide⟩, by decide⟩

end NewYear

end FidbPoc.Operations
