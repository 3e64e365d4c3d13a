import FidbPoc.Operations.Evaluation

namespace FidbPoc.Operations

open FidbPoc.Lib FidbPoc.Lib.Calendar FidbPoc.Lib.Checked

section Search

variable (policy : SchedulePolicy) (now : DateTime)

/-- The enabled window of a date, which starts after now. -/
def Starts (d : Date) (window : Window) : Prop :=
  policy.window d = .ok window ∧ window.enabled = true ∧ now < window.started

/-- The earliest start after now among the windows of all dates, if there is one. -/
def Earliest : Option DateTime → Prop
  | some start => (∃ d window, Starts policy now d window ∧ window.started = start) ∧
      ∀ d window, Starts policy now d window → start ≤ window.started
  | none => ∀ d window, ¬ Starts policy now d window

variable {policy now} {d d' : Date} {window window' : Window}

theorem Starts.started_date (h : Starts policy now d window) : window.started.date = d := by
  rw [(window_eq_ok h.1).2.1]
  rfl

theorem Starts.date_le (h : Starts policy now d window) : now.date.ordinal ≤ d.ordinal := by
  have hlt := DateTime.lt_iff.mp h.2.2
  have hle := DateTime.date_le (DateTime.le_iff.mpr hlt.le)
  rwa [h.started_date] at hle

/-- A date has one window. -/
theorem Starts.unique (h : Starts policy now d window) (h' : Starts policy now d window') : window = window' :=
  Except.ok.inj (h.1.symm.trans h'.1)

theorem addDays_sub (d d' : Date) : d.addDays ((d'.ordinal : Int) - d.ordinal) = some d' :=
  Date.addDays_eq_some.mpr (by omega)

theorem mem_offsets {n : Int} : n ∈ SchedulePolicy.offsets ↔ 0 ≤ n ∧ n ≤ 8 := by
  simp only [SchedulePolicy.offsets, List.mem_cons, List.not_mem_nil, or_false]
  omega

/-- The search over days that are counted upwards stops at the first of them that has a later start. -/
theorem nextWindow_eq_ok {offsets : List Int} (hsorted : offsets.Pairwise (· < ·)) {next : Option DateTime}
    (h : policy.nextWindow now offsets = .ok next) :
    (∀ start, next = some start → ∃ n ∈ offsets, ∃ d window, now.date.addDays n = some d ∧ Starts policy now d window ∧
      window.started = start ∧ ∀ m ∈ offsets, ∀ d' window', now.date.addDays m = some d' →
        Starts policy now d' window' → n ≤ m) ∧
    (next = none → ∀ n ∈ offsets, ∀ d window, now.date.addDays n = some d → ¬ Starts policy now d window) := by
  induction offsets with
  | nil =>
    rw [SchedulePolicy.nextWindow, pure_eq_ok] at h
    simp [← h]
  | cons offset rest ih =>
    obtain ⟨hfirst, hrest⟩ := List.pairwise_cons.mp hsorted
    simp only [SchedulePolicy.nextWindow, bind_eq_ok, plusDays_eq_ok] at h
    obtain ⟨date, hdate, window, hwindow, h⟩ := h
    by_cases hstarts : window.enabled = true ∧ now < window.started
    · rw [if_pos hstarts, pure_eq_ok] at h
      subst h
      refine ⟨?_, fun hnone => by cases hnone⟩
      rintro _ ⟨⟩
      refine ⟨offset, List.mem_cons_self, date, window, hdate, ⟨hwindow, hstarts⟩, rfl, fun m hm _ _ _ _ => ?_⟩
      rcases List.mem_cons.mp hm with rfl | hm
      · exact Int.le_refl m
      · exact (hfirst m hm).le
    · rw [if_neg hstarts] at h
      have hnot : ∀ d window', now.date.addDays offset = some d → ¬ Starts policy now d window' := by
        intro d window' hd hs
        obtain rfl := Option.some.inj (hdate.symm.trans hd)
        obtain rfl := Except.ok.inj (hwindow.symm.trans hs.1)
        exact hstarts hs.2
      obtain ⟨hsome, hnone⟩ := ih hrest h
      refine ⟨fun start hstart => ?_, fun hnext => List.forall_mem_cons.mpr ⟨hnot, hnone hnext⟩⟩
      obtain ⟨n, hn, d, window', hd, hs, heq, hmin⟩ := hsome start hstart
      refine ⟨n, List.mem_cons_of_mem _ hn, d, window', hd, hs, heq, fun m hm d' window'' hd' hs' => ?_⟩
      rcases List.mem_cons.mp hm with rfl | hm
      · exact absurd hs' (hnot d' window'' hd')
      · exact hmin m hm d' window'' hd' hs'

/-- The nine days that the search looks at hold the earliest start when they hold any, or none is left. -/
theorem nextWindow_earliest {next : Option DateTime} (h : policy.nextWindow now SchedulePolicy.offsets = .ok next) :
    Earliest policy now next ↔ ((∃ d window, Starts policy now d window) →
      ∃ d window, Starts policy now d window ∧ d.ordinal ≤ now.date.ordinal + 8) := by
  obtain ⟨hsome, hnone⟩ := nextWindow_eq_ok (by decide) h
  cases next with
  | none =>
    have hnear {d window} (hs : Starts policy now d window) : ¬ d.ordinal ≤ now.date.ordinal + 8 := by
      intro hd
      have hle := hs.date_le
      exact hnone rfl _ (mem_offsets.mpr (by omega)) d window (addDays_sub _ d) hs
    constructor
    · rintro hearliest ⟨d, window, hs⟩
      exact absurd hs (hearliest d window)
    · intro hfound d window hs
      obtain ⟨d', window', hs', hd'⟩ := hfound ⟨d, window, hs⟩
      exact hnear hs' hd'
  | some start =>
    obtain ⟨n, hn, d, window, hd, hs, rfl, hmin⟩ := hsome start rfl
    have hord := Date.addDays_eq_some.mp hd
    have hrange := mem_offsets.mp hn
    refine ⟨fun _ _ => ⟨d, window, hs, by omega⟩, fun _ => ⟨⟨d, window, hs, rfl⟩, fun d' window' hs' => ?_⟩⟩
    -- a later date starts later, and an earlier one would have been found first
    by_cases hlt : d.ordinal < d'.ordinal
    · apply DateTime.le_of_date_lt
      rwa [hs.started_date, hs'.started_date]
    · have hle := hs'.date_le
      have hfound := hmin _ (mem_offsets.mpr (by omega)) d' window' (addDays_sub _ d') hs'
      have heq : d' = d := Date.ext_ordinal (by omega)
      subst heq
      rw [hs.unique hs']
      exact DateTime.le_refl _

end Search

section Evaluated

variable {zones : Zones} {policy : SchedulePolicy} {now : Int} {wall : DateTime}

/-- An enabled schedule reports as its next window the one that the search finds. -/
theorem evaluateAt_next {isoformat : DateTime → String} {state : ScheduleState} (henabled : policy.enabled = true)
    (h : policy.evaluateAt isoformat wall = .ok state) :
    ∃ next, policy.nextWindow wall SchedulePolicy.offsets = .ok next ∧ state.nextWindowAt = next.map isoformat := by
  simp only [SchedulePolicy.evaluateAt, henabled, Bool.true_eq_false, ↓reduceIte, bind_eq_ok, pure_eq_ok] at h
  obtain ⟨_, -, _, -, next, hnext, rfl⟩ := h
  exact ⟨next, hnext, rfl⟩

/-- The next window that an enabled schedule reports is the earliest one of all future dates exactly when the days
looked at have their windows and one of the nine days from today has a later start, or no day has. -/
theorem next_window_earliest_iff (henabled : policy.enabled = true)
    (hwall : zones.astimezone policy.timezoneName now = .ok wall) :
    (∃ state next, policy.evaluate zones now = .ok state ∧ Earliest policy wall next ∧
        state.nextWindowAt = next.map (zones.isoformat policy.timezoneName)) ↔
      (∀ n ∈ inspected policy wall, HasWindow policy wall n) ∧
        ((∃ d window, Starts policy wall d window) →
          ∃ d window, Starts policy wall d window ∧ d.ordinal ≤ wall.date.ordinal + 8) := by
  have heval : ∀ state, policy.evaluate zones now = .ok state ↔
      policy.evaluateAt (zones.isoformat policy.timezoneName) wall = .ok state := by
    intro state
    rw [SchedulePolicy.evaluate, hwall, ok_bind]
  have hisOk := @evaluateAt_isOk policy wall (zones.isoformat policy.timezoneName)
  simp only [henabled, forall_const] at hisOk
  constructor
  · rintro ⟨state, next, hstate, hearliest, htext⟩
    have hstate := (heval state).mp hstate
    obtain ⟨found, hfound, hreported⟩ := evaluateAt_next henabled hstate
    refine ⟨hisOk.mp ⟨state, hstate⟩, fun hstarts => ?_⟩
    obtain ⟨hsome, -⟩ := nextWindow_eq_ok (by decide) hfound
    have hnone : next ≠ none := by
      rintro rfl
      obtain ⟨d, window, hs⟩ := hstarts
      exact hearliest d window hs
    -- the report is not empty, so the search has found a start
    obtain ⟨start, rfl⟩ : ∃ start, found = some start := by
      rw [← Option.isSome_iff_exists, ← Option.isSome_map (f := zones.isoformat policy.timezoneName), ← hreported, htext,
        Option.isSome_map, Option.isSome_iff_ne_none]
      exact hnone
    obtain ⟨n, hn, d, window, hd, hs, -, -⟩ := hsome start rfl
    have hord := Date.addDays_eq_some.mp hd
    have hrange := mem_offsets.mp hn
    exact ⟨d, window, hs, by omega⟩
  · rintro ⟨hwindows, hnear⟩
    obtain ⟨state, hstate⟩ := hisOk.mpr hwindows
    obtain ⟨found, hfound, hreported⟩ := evaluateAt_next henabled hstate
    exact ⟨state, found, (heval state).mpr hstate, (nextWindow_earliest hfound).mpr hnear, hreported⟩

end Evaluated

namespace NewYear

/-- A noon on Thursday is followed by the window of Friday. -/
theorem friday_next : ∃ state next, soundPolicy.evaluate utc (noon 1) = .ok state ∧
    Earliest soundPolicy thursday next ∧ state.nextWindowAt = next.map januaryText := by
  refine (@next_window_earliest_iff utc soundPolicy (noon 1) thursday rfl (by decide)).mpr ⟨?_, fun _ => ?_⟩
  · exact inspected_hasWindow sound_inOrder (by decide) (by decide)
  · exact ⟨⟨739618, by decide⟩, ⟨true, ⟨⟨739618, by decide⟩, 0, by decide⟩, ⟨⟨739618, by decide⟩, 86280000000, by decide⟩,
      some ⟨⟨739618, by decide⟩, 86340000000, by decide⟩⟩, ⟨by rfl, rfl, by decide⟩, by decide⟩

/-- 2026-01-05, a Monday. -/
def monday : Date := ⟨739621, by decide⟩

def mondayReaders : Readers := ⟨readClock, fun text => if text = "2026-01-05" then some monday else none⟩

/-- A schedule for Mondays, of which one is taken out. -/
def mondayDocument : Json.Fields :=
  [("schedule", .obj [("enabled", .bool true), ("days", .arr [.str "mon"]),
    ("date_overrides", .arr [.obj [("date", .str "2026-01-05"), ("enabled", .bool false)]])])]

def mondayPolicy : SchedulePolicy :=
  { soundPolicy with
    days := ["mon"]
    dateOverrides := [⟨monday, false, soundPolicy.start, soundPolicy.stopClaiming, soundPolicy.hardCutoff⟩] }

theorem monday_clocks (d : Date) :
    ∃ enabled, mondayPolicy.clocks d = ⟨enabled, clockAt 0 0, clockAt 23 58, some (clockAt 23 59)⟩ := by
  by_cases h : monday = d
  · subst h
    exact ⟨false, rfl⟩
  · have hnone : mondayPolicy.overrideFor d = none := by simp [SchedulePolicy.overrideFor, mondayPolicy, h]
    exact ⟨_, by rw [SchedulePolicy.clocks, hnone]; rfl⟩

theorem monday_inOrder (d : Date) : (mondayPolicy.clocks d).InOrder := by
  obtain ⟨enabled, hclocks⟩ := monday_clocks d
  rw [hclocks]
  refine ⟨86280000000, by cases enabled <;> decide, ?_⟩
  rintro _ ⟨⟩
  exact ⟨86340000000, by cases enabled <;> decide, by decide⟩

/-- With one Monday off, the schedule reports no next window on the Thursday before, though the Monday after has one. -/
theorem monday_off_hides_next : loadSchedule utc mondayReaders mondayDocument = .ok mondayPolicy ∧
    (∀ d, (mondayPolicy.clocks d).InOrder) ∧
    ¬ ∃ state next, mondayPolicy.evaluate utc (noon 1) = .ok state ∧ Earliest mondayPolicy thursday next ∧
      state.nextWindowAt = next.map januaryText := by
  refine ⟨by decide, monday_inOrder, ?_⟩
  rintro ⟨state, next, hstate, hearliest, htext⟩
  have hreport : mondayPolicy.evaluate utc (noon 1) =
      .ok ⟨false, "outside-schedule-window", none, none, none, none⟩ := by decide
  obtain rfl := Except.ok.inj (hreport.symm.trans hstate)
  have hstarts : Starts mondayPolicy thursday ⟨739628, by decide⟩
      ⟨true, ⟨⟨739628, by decide⟩, 0, by decide⟩, ⟨⟨739628, by decide⟩, 86280000000, by decide⟩,
        some ⟨⟨739628, by decide⟩, 86340000000, by decide⟩⟩ := ⟨by rfl, rfl, by decide⟩
  cases next with
  | none => exact hearliest _ _ hstarts
  | some start => cases htext

end NewYear

end FidbPoc.Operations
