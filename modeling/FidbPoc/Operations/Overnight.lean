import FidbPoc.Lib.Python
import FidbPoc.Operations.Admission

namespace FidbPoc.Operations.Admission

open FidbPoc.Lib.Calendar FidbPoc.Lib.Checked

section Spec

variable (python : Python) (subject : String) (listed : Fields → Date → Result Bool)

def enabled (window : Fields) : Bool := ((get? window "enabled").map Value.truthy).getD false

/-- A clock of an accepted window, in minutes after midnight. -/
def minutes (window : Fields) (key : String) : Nat :=
  match clock python subject window key with
  | .ok value => value
  | .error _ => 0

/-- The instant lies between the start on a date and the stop, which is on the next day if it is the earlier clock. -/
def Covers (date : Date) (start stop : Nat) (now : DateTime) : Prop :=
  date.ordinal * dayLength + start * 60000000 ≤ now.moment ∧
    now.moment < (if stop < start then date.ordinal + 1 else date.ordinal) * dayLength + stop * 60000000

/-- What an open window should mean. -/
def Scheduled (windows : List Value) (now : DateTime) : Prop :=
  ∃ window date, .obj window ∈ windows ∧ enabled window = true ∧ listed window date = .ok true ∧
    Covers date (minutes python subject window "start") (minutes python subject window "stop_admitting") now

/-- The evaluation says open exactly when it should. -/
def Exact (windows : List Value) (now : DateTime) : Prop :=
  ∃ result, windowOpen python subject listed now windows = .ok result ∧
    (result.1 = true ↔ Scheduled python subject listed windows now)

/-- The part of a window before midnight. -/
def Before (window : Fields) (now : DateTime) : Prop :=
  enabled window = true ∧ listed window now.date = .ok true ∧ minutes python subject window "start" ≤ minuteOf now ∧
    (minutes python subject window "stop_admitting" < minutes python subject window "start" ∨
      minuteOf now < minutes python subject window "stop_admitting")

/-- The part after midnight of a window that is listed for a date. -/
def After (window : Fields) (date : Date) (now : DateTime) : Prop :=
  enabled window = true ∧ listed window date = .ok true ∧
    minutes python subject window "stop_admitting" < minutes python subject window "start" ∧
    minuteOf now < minutes python subject window "stop_admitting"

/-- What the loop takes for open. -/
def Opens (window : Fields) (now : DateTime) : Prop :=
  Before python subject listed window now ∨ After python subject listed window now.date now

def Raises (window : Fields) (now : DateTime) : Prop :=
  enabled window = true ∧ ∃ raised, listed window now.date = .error raised

/-- Every enabled window without a date or days of its kind comes after one that is open. -/
def Readable (windows : List Value) (now : DateTime) : Prop :=
  ∀ before window after, windows = before ++ .obj window :: after → Raises listed window now →
    ∃ other, .obj other ∈ before ∧ Opens python subject listed other now

/-- Unless a window is open before midnight, today has an overnight window that is still to
stop this morning exactly when yesterday has one. -/
def SameMorning (windows : List Value) (now : DateTime) : Prop :=
  (∃ window, .obj window ∈ windows ∧ Before python subject listed window now) ∨
    ((∃ window, .obj window ∈ windows ∧ After python subject listed window now.date now) ↔
      ∃ window date, .obj window ∈ windows ∧ date.ordinal + 1 = now.date.ordinal ∧
        After python subject listed window date now)

/-- What the loaders require of a window. -/
structure Accepted (window : Fields) : Prop where
  hasEnabled : ∃ value, item window "enabled" = .ok value
  hasId : ∃ value, item window "id" = .ok value
  start : ∃ start, clock python subject window "start" = .ok start ∧ start < 1440
  stop : ∃ stop, clock python subject window "stop_admitting" = .ok stop ∧ stop < 1440
  different : minutes python subject window "start" ≠ minutes python subject window "stop_admitting"

end Spec

section Windows

variable {python : Python} {subject : String} {listed : Fields → Date → Result Bool} {window : Fields} {now : DateTime}

theorem minutes_of_ok {key : String} {n : Nat} (h : clock python subject window key = .ok n) :
    minutes python subject window key = n := by
  rw [minutes, h]

/-- In minutes of a day a window covers a part of its date and, when it is overnight, of the next. -/
theorem covers_iff {date : Date} {start stop : Nat} (hstart : start < 1440) (hstop : stop < 1440) :
    Covers date start stop now ↔
      (date = now.date ∧ start ≤ minuteOf now ∧ (stop < start ∨ minuteOf now < stop)) ∨
      (date.ordinal + 1 = now.date.ordinal ∧ stop < start ∧ minuteOf now < stop) := by
  have hclock := now.valid
  have hdate : date = now.date ↔ date.ordinal = now.date.ordinal := ⟨congrArg Date.ordinal, Date.ext_ordinal⟩
  rw [hdate]
  simp only [Covers, DateTime.moment, minuteOf, dayLength] at hclock ⊢
  split <;> omega

theorem Accepted.minutes_lt (h : Accepted python subject window) :
    minutes python subject window "start" < 1440 ∧ minutes python subject window "stop_admitting" < 1440 := by
  obtain ⟨start, hstart, hlt⟩ := h.start
  obtain ⟨stop, hstop, hlt'⟩ := h.stop
  rw [minutes_of_ok hstart, minutes_of_ok hstop]
  exact ⟨hlt, hlt'⟩

theorem Accepted.item_enabled (h : Accepted python subject window) :
    ∃ value, item window "enabled" = .ok value ∧ value.truthy = enabled window := by
  obtain ⟨value, hvalue⟩ := h.hasEnabled
  refine ⟨value, hvalue, ?_⟩
  unfold item at hvalue
  cases hget : get? window "enabled" with
  | none =>
    rw [hget] at hvalue
    cases hvalue
  | some found =>
    rw [hget] at hvalue
    cases hvalue
    rw [enabled, hget]
    rfl

/-- A window is read unless it is enabled and its dates cannot be. -/
theorem opensAt_ok (h : Accepted python subject window) (hreads : ¬Raises listed window now) :
    ∃ openNow, opensAt python subject listed now window = .ok openNow ∧
      (openNow = true ↔ Opens python subject listed window now) := by
  obtain ⟨value, hvalue, htruthy⟩ := h.item_enabled
  obtain ⟨start, hstart, _⟩ := h.start
  obtain ⟨stop, hstop, _⟩ := h.stop
  have hdifferent := h.different
  simp only [opensAt, hvalue, ok_bind, htruthy, Opens, Before, After, minutes_of_ok hstart, minutes_of_ok hstop] at hdifferent ⊢
  by_cases henabled : enabled window = true
  · cases htoday : listed window now.date with
    | error raised => exact absurd ⟨henabled, raised, htoday⟩ hreads
    | ok today =>
      cases today with
      | false => exact ⟨false, by simp [henabled, ok_bind, pure, Except.pure], by simp⟩
      | true =>
        refine ⟨_, by simp only [henabled, ok_bind, if_true, hstart, hstop]; rfl, ?_⟩
        by_cases hday : start < stop
        · simp only [hday, if_true, henabled, Bool.and_eq_true, decide_eq_true_eq, true_and]
          omega
        · simp only [hday, if_false, henabled, Bool.or_eq_true, decide_eq_true_eq, true_and]
          omega
  · exact ⟨false, by simp [henabled, pure, Except.pure], by simp [henabled]⟩

theorem opensAt_error (h : Accepted python subject window) (hraises : Raises listed window now) :
    ∃ raised, opensAt python subject listed now window = .error raised := by
  obtain ⟨value, hvalue, htruthy⟩ := h.item_enabled
  obtain ⟨henabled, raised, hraised⟩ := hraises
  exact ⟨raised, by simp [opensAt, hvalue, htruthy, henabled, hraised, ok_bind, error_bind]⟩

variable {windows : List Value}

theorem readable_cons : Readable python subject listed (.obj window :: windows) now ↔
    ¬Raises listed window now ∧ (Opens python subject listed window now ∨ Readable python subject listed windows now) := by
  constructor
  · intro h
    refine ⟨fun hraises => ?_, ?_⟩
    · obtain ⟨other, hother, _⟩ := h [] window windows rfl hraises
      cases hother
    · by_cases hopen : Opens python subject listed window now
      · exact .inl hopen
      · refine .inr fun before later after heq hraises => ?_
        obtain ⟨other, hother, hopens⟩ := h (.obj window :: before) later after (by rw [heq]; rfl) hraises
        obtain heq | hother := List.mem_cons.mp hother
        · exact absurd (Value.obj.inj heq ▸ hopens) hopen
        · exact ⟨other, hother, hopens⟩
  · rintro ⟨hreads, hrest⟩ before later after heq hraises
    cases before with
    | nil =>
      obtain ⟨hhead, _⟩ := List.cons.inj heq
      exact absurd (Value.obj.inj hhead ▸ hraises) hreads
    | cons first before =>
      obtain ⟨rfl, htail⟩ := List.cons.inj heq
      obtain hopen | hrest := hrest
      · exact ⟨window, List.mem_cons_self, hopen⟩
      · obtain ⟨other, hother, hopens⟩ := hrest before later after htail hraises
        exact ⟨other, List.mem_cons_of_mem _ hother, hopens⟩

/-- The loop gives a result when its windows can be read, and says whether one of them opens. -/
theorem windowOpen_iff (haccepted : ∀ value ∈ windows, ∃ window, value = .obj window ∧ Accepted python subject window)
    (P : Prop) :
    (∃ result, windowOpen python subject listed now windows = .ok result ∧ (result.1 = true ↔ P)) ↔
      Readable python subject listed windows now ∧
        ((∃ window, .obj window ∈ windows ∧ Opens python subject listed window now) ↔ P) := by
  induction windows with
  | nil =>
    have hreadable : Readable python subject listed [] now := fun before _ after heq => by
      cases before <;> cases heq
    simp [windowOpen, hreadable, pure, Except.pure]
  | cons value rest ih =>
    obtain ⟨hfirst, hrest⟩ := List.forall_mem_cons.mp haccepted
    obtain ⟨window, rfl, hwindow⟩ := hfirst
    rw [readable_cons, windowOpen]
    by_cases hraises : Raises listed window now
    · obtain ⟨raised, hraised⟩ := opensAt_error hwindow hraises
      simp [hraised, error_bind, hraises]
    · obtain ⟨openNow, hopenNow, hopens⟩ := opensAt_ok hwindow hraises
      rw [hopenNow, ok_bind]
      by_cases hopen : Opens python subject listed window now
      · obtain ⟨id, hid⟩ := hwindow.hasId
        have hsome : ∃ other, .obj other ∈ Value.obj window :: rest ∧ Opens python subject listed other now :=
          ⟨window, List.mem_cons_self, hopen⟩
        simp only [hopens.mpr hopen, if_true, hid, ok_bind, hraises, hopen, not_false_eq_true, true_or, true_and,
          iff_true_left hsome]
        simp [pure, Except.pure]
      · have hsame : (∃ other, .obj other ∈ Value.obj window :: rest ∧ Opens python subject listed other now) ↔
            ∃ other, .obj other ∈ rest ∧ Opens python subject listed other now := by
          constructor
          · rintro ⟨other, hother, hopens'⟩
            obtain heq | hother := List.mem_cons.mp hother
            · exact absurd (Value.obj.inj heq ▸ hopens') hopen
            · exact ⟨other, hother, hopens'⟩
          · rintro ⟨other, hother, hopens'⟩
            exact ⟨other, List.mem_cons_of_mem _ hother, hopens'⟩
        rw [if_neg fun h => hopen (hopens.mp h), ih hrest, hsame]
        simp only [hraises, hopen, not_false_eq_true, false_or, true_and]

/-- What should be open is a part before midnight of today, or one after midnight of yesterday. -/
theorem scheduled_iff (haccepted : ∀ value ∈ windows, ∃ window, value = .obj window ∧ Accepted python subject window) :
    Scheduled python subject listed windows now ↔
      (∃ window, .obj window ∈ windows ∧ Before python subject listed window now) ∨
      ∃ window date, .obj window ∈ windows ∧ date.ordinal + 1 = now.date.ordinal ∧
        After python subject listed window date now := by
  constructor
  · rintro ⟨window, date, hmem, henabled, hlisted, hcovers⟩
    obtain ⟨_, heq, hwindow⟩ := haccepted _ hmem
    cases heq
    obtain ⟨rfl, hpart⟩ | ⟨hnext, hstop, hminute⟩ :=
      (covers_iff hwindow.minutes_lt.1 hwindow.minutes_lt.2).mp hcovers
    · exact .inl ⟨window, hmem, henabled, hlisted, hpart⟩
    · exact .inr ⟨window, date, hmem, hnext, henabled, hlisted, hstop, hminute⟩
  · rintro (⟨window, hmem, henabled, hlisted, hpart⟩ | ⟨window, date, hmem, hnext, henabled, hlisted, hstop, hminute⟩)
    · obtain ⟨_, heq, hwindow⟩ := haccepted _ hmem
      cases heq
      refine ⟨window, now.date, hmem, henabled, hlisted, ?_⟩
      exact (covers_iff hwindow.minutes_lt.1 hwindow.minutes_lt.2).mpr (.inl ⟨rfl, hpart⟩)
    · obtain ⟨_, heq, hwindow⟩ := haccepted _ hmem
      cases heq
      refine ⟨window, date, hmem, henabled, hlisted, ?_⟩
      exact (covers_iff hwindow.minutes_lt.1 hwindow.minutes_lt.2).mpr (.inr ⟨hnext, hstop, hminute⟩)

theorem exact_iff (haccepted : ∀ value ∈ windows, ∃ window, value = .obj window ∧ Accepted python subject window) :
    Exact python subject listed windows now ↔
      Readable python subject listed windows now ∧ SameMorning python subject listed windows now := by
  rw [Exact, windowOpen_iff haccepted, scheduled_iff haccepted]
  refine and_congr_right fun _ => ?_
  have hopens : (∃ window, .obj window ∈ windows ∧ Opens python subject listed window now) ↔
      (∃ window, .obj window ∈ windows ∧ Before python subject listed window now) ∨
      ∃ window, .obj window ∈ windows ∧ After python subject listed window now.date now := by
    simp only [Opens, and_or_left, exists_or]
  rw [hopens, SameMorning]
  by_cases hbefore : ∃ window, .obj window ∈ windows ∧ Before python subject listed window now
  · simp only [hbefore, true_or]
  · simp only [hbefore, false_or]

end Windows

section Loaders

variable {python : Python} {subject : String} {window : Fields}

theorem item_of_hasKeys {names : List String} {key : String} (h : HasKeys window names) (hkey : key ∈ names) :
    ∃ value, item window key = .ok value := by
  obtain ⟨field, hfield, hfst⟩ := List.mem_map.mp (h.mem_iff.mpr hkey)
  have hsome : (window.find? fun field => field.1 = key).isSome :=
    List.find?_isSome.mpr ⟨field, hfield, by simpa using hfst⟩
  obtain ⟨found, hfound⟩ := Option.isSome_iff_exists.mp hsome
  exact ⟨found.2, by simp [item, get?, hfound]⟩

theorem clockMinutes_lt {value : String} {n : Nat} (h : clockMinutes python subject value = .ok n) : n < 1440 := by
  unfold clockMinutes at h
  split at h
  · split at h
    · cases h
      omega
    · cases h
  · cases h

theorem clock_lt {key : String} {n : Nat} (h : clock python subject window key = .ok n) : n < 1440 := by
  obtain ⟨value, _, hvalue⟩ := bind_eq_ok.mp h
  exact clockMinutes_lt hvalue

/-- The fields and clocks that both loaders ask for. -/
theorem accepted_of {names : List String} {start stop : Nat} (hkeys : HasKeys window names) (hid : "id" ∈ names)
    (henabled : "enabled" ∈ names) (hstart : clock python subject window "start" = .ok start)
    (hstop : clock python subject window "stop_admitting" = .ok stop) (hne : start ≠ stop) :
    Accepted python subject window := by
  refine ⟨item_of_hasKeys hkeys henabled, item_of_hasKeys hkeys hid, ⟨start, hstart, clock_lt hstart⟩,
    ⟨stop, hstop, clock_lt hstop⟩, ?_⟩
  rwa [minutes_of_ok hstart, minutes_of_ok hstop]

theorem loadHashWindow_accepted {ids ids' : List String} {value : Value} (h : loadHashWindow python ids value = .ok ids') :
    ∃ window, value = .obj window ∧ Accepted python hashSubject window := by
  cases value with
  | obj window =>
    simp only [loadHashWindow, bind_eq_ok, require_eq_ok, exists_const] at h
    obtain ⟨hkeys, id, _, kind, _, _, _, _, _, start, hstart, stop, hstop, hne, _⟩ := h
    obtain hkeys | hkeys := hkeys
    · exact ⟨window, rfl, accepted_of hkeys (by decide) (by decide) hstart hstop hne⟩
    · exact ⟨window, rfl, accepted_of hkeys (by decide) (by decide) hstart hstop hne⟩
  | str _ | bool _ | int _ | scalar _ _ | arr _ => cases h

theorem foldlM_accepted {windows : List Value} {ids ids' : List String}
    (h : windows.foldlM (loadHashWindow python) ids = .ok ids') :
    ∀ value ∈ windows, ∃ window, value = .obj window ∧ Accepted python hashSubject window := by
  induction windows generalizing ids with
  | nil => exact fun _ hm => absurd hm List.not_mem_nil
  | cons value rest ih =>
    obtain ⟨next, hnext, hrest⟩ := bind_eq_ok.mp h
    exact List.forall_mem_cons.mpr ⟨loadHashWindow_accepted hnext, ih hrest⟩

theorem loadHashSchedule_accepted {document : Fields} {windows : List Value}
    (h : loadHashSchedule python document = .ok windows) :
    ∀ value ∈ windows, ∃ window, value = .obj window ∧ Accepted python hashSubject window := by
  simp only [loadHashSchedule, bind_eq_ok, require_eq_ok, exists_const] at h
  obtain ⟨_, policy, _, finishStarted, _, window, _, _, timezone, _, _, ids, hids, hwindows⟩ := h
  cases hwindows
  exact foldlM_accepted hids

theorem loadCampaignWindow_accepted {value : Value} (h : loadCampaignWindow python value = .ok ()) :
    ∃ window, value = .obj window ∧ Accepted python campaignSubject window := by
  cases value with
  | obj window =>
    simp only [loadCampaignWindow, bind_eq_ok, require_eq_ok, exists_const] at h
    obtain ⟨⟨hkeys, _⟩, start, hstart, stop, hstop, hne⟩ := h
    exact ⟨window, rfl, accepted_of hkeys (by decide) (by decide) hstart hstop hne⟩
  | str _ | bool _ | int _ | scalar _ _ | arr _ => cases h

theorem forM_accepted {windows : List Value} (h : windows.forM (loadCampaignWindow python) = .ok ()) :
    ∀ value ∈ windows, ∃ window, value = .obj window ∧ Accepted python campaignSubject window := by
  induction windows with
  | nil => exact fun _ hm => absurd hm List.not_mem_nil
  | cons value rest ih =>
    obtain ⟨_, hvalue, hrest⟩ := bind_eq_ok.mp h
    exact List.forall_mem_cons.mpr ⟨loadCampaignWindow_accepted hvalue, ih hrest⟩

theorem loadCampaignSchedule_accepted {schedule : Fields} {windows : List Value}
    (h : loadCampaignSchedule python schedule = .ok windows) :
    ∀ value ∈ windows, ∃ window, value = .obj window ∧ Accepted python campaignSubject window := by
  simp only [loadCampaignSchedule, bind_eq_ok, require_eq_ok, exists_const] at h
  obtain ⟨_, window, _, _, timezone, _, _, found, _, _, hloaded, hwindows⟩ := h
  cases hwindows
  exact forM_accepted hloaded

/-- Exactly which accepted schedules open only inside their windows, at which instants. -/
theorem window_open_exact_iff (python : Python) (now : DateTime) :
    (∀ document windows, loadHashSchedule python document = .ok windows →
      ((∃ result, hashWindowOpen python now windows = .ok result ∧
          (result.1 = true ↔ Scheduled python hashSubject (hashListed python) windows now)) ↔
        Readable python hashSubject (hashListed python) windows now ∧
          SameMorning python hashSubject (hashListed python) windows now)) ∧
    ∀ schedule windows, loadCampaignSchedule python schedule = .ok windows →
      ((∃ result, campaignWindowOpen python now windows = .ok result ∧
          (result.1 = true ↔ Scheduled python campaignSubject campaignListed windows now)) ↔
        Readable python campaignSubject campaignListed windows now ∧
          SameMorning python campaignSubject campaignListed windows now) :=
  ⟨fun _ _ h => exact_iff (loadHashSchedule_accepted h), fun _ _ h => exact_iff (loadCampaignSchedule_accepted h)⟩

/-- An accepted document gives the windows that it lists. -/
theorem loadHashSchedule_windows {document : Fields} {windows : List Value}
    (h : loadHashSchedule python document = .ok windows) :
    ∃ window, item document "window" = .ok window ∧ windows = window.items?.getD [] := by
  simp only [loadHashSchedule, bind_eq_ok, require_eq_ok, exists_const] at h
  obtain ⟨_, policy, _, finishStarted, _, window, hwindow, _, timezone, _, _, ids, _, hwindows⟩ := h
  cases hwindows
  exact ⟨window, hwindow, rfl⟩

end Loaders

section Night

def plain : Python := ⟨fun _ => "", fun text => (Lib.Python.decimal text.toList).map Int.ofNat, fun name => name = "Europe/Luxembourg"⟩

def night : Fields :=
  [("id", .str "one-night"), ("kind", .str "once"), ("date", .str "2026-09-05"), ("start", .str "22:00"),
    ("stop_admitting", .str "02:00"), ("enabled", .bool true)]

/-- A schedule of one night, from 2026-09-05 22:00 to 2026-09-06 02:00. -/
def nightSchedule : Fields :=
  [("schema_version", .str "fidb-machine-validation-hash-schedule/v1"), ("timezone", .str "Europe/Luxembourg"),
    ("source_run_policy", .str "latest-complete-full-without-current-hash-report"),
    ("runtime", .str "validation/machine-validation-runtime.toml"), ("finish_started", .bool true),
    ("window", .arr [.obj night])]

def saturday : Date := ⟨739864, by decide, by decide⟩

def evening : DateTime := ⟨saturday, 23 * 3600000000, by decide⟩

def earlyMorning : DateTime := ⟨saturday, 3600000000, by decide⟩

theorem nightSchedule_loads : loadHashSchedule plain nightSchedule = .ok [.obj night] := by
  have hok : (loadHashSchedule plain nightSchedule).isOk = true := by decide
  cases hload : loadHashSchedule plain nightSchedule with
  | error raised =>
    rw [hload] at hok
    cases hok
  | ok windows =>
    obtain ⟨window, hwindow, rfl⟩ := loadHashSchedule_windows hload
    cases hwindow
    rfl

/-- In the evening of its date the window is open, as it should be. -/
theorem window_open_exact_iff_evening : ∃ result, hashWindowOpen plain evening [.obj night] = .ok result ∧
    (result.1 = true ↔ Scheduled plain hashSubject (hashListed plain) [.obj night] evening) := by
  refine ((window_open_exact_iff plain evening).1 nightSchedule [.obj night] nightSchedule_loads).mpr ⟨?_, .inl ⟨night, ?_⟩⟩
  · intro before window after heq hraises
    obtain ⟨_, raised, hraised⟩ := hraises
    cases before with
    | nil =>
      obtain ⟨hhead, _⟩ := List.cons.inj heq
      rw [← Value.obj.inj hhead] at hraised
      cases hraised
    | cons first before =>
      obtain ⟨_, htail⟩ := List.cons.inj heq
      cases before <;> cases htail
  · exact ⟨List.mem_cons_self, by decide, rfl, by decide, by decide⟩

/-- Early on its date, hours before it starts, the window is open; after midnight of its own night it is closed. -/
theorem early_morning_open : ∃ document windows, loadHashSchedule plain document = .ok windows ∧
    hashWindowOpen plain earlyMorning windows = .ok (true, some "one-night") ∧
    ¬Scheduled plain hashSubject (hashListed plain) windows earlyMorning := by
  refine ⟨nightSchedule, [.obj night], nightSchedule_loads, rfl, fun hscheduled => ?_⟩
  obtain ⟨window, hmem, hbefore⟩ | ⟨window, date, hmem, hnext, _, hlisted, _⟩ :=
    (scheduled_iff (loadHashSchedule_accepted nightSchedule_loads)).mp hscheduled
  · cases List.mem_singleton.mp hmem
    exact absurd hbefore.2.2.1 (by decide)
  · cases List.mem_singleton.mp hmem
    have hdate : date = ⟨739863, by decide, by decide⟩ := Date.ext_ordinal (Nat.succ.inj hnext)
    rw [hdate] at hlisted
    cases hlisted

end Night

end FidbPoc.Operations.Admission
