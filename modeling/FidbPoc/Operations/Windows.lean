import FidbPoc.Operations.Schedule

namespace FidbPoc.Operations

open FidbPoc.Lib.Calendar FidbPoc.Lib.Checked

theorem plusDays_eq_ok {d e : Date} {n : Int} : plusDays d n = .ok e ↔ d.addDays n = some e := by
  cases h : d.addDays n with
  | none => simp [plusDays, h]
  | some e' => simp [plusDays, h]

theorem notAfter_eq_ok {left right : Time} {b : Bool} : notAfter left right = .ok b ↔ left.le? right = some b := by
  cases h : left.le? right with
  | none => simp [notAfter, h]
  | some b' => simp [notAfter, h]

section Boundaries

/-- How long after midnight of its start date a window reaches a clock; `none` for a clock that has no
order with the start. -/
def Clocks.reach (clocks : Clocks) (clock : Time) : Option Nat :=
  (clock.le? clocks.start).map fun rolled => (if rolled then dayLength else 0) + clock.clock

/-- Stop claiming does not come after the cutoff, when both are counted from the start. -/
def Clocks.InOrder (clocks : Clocks) : Prop :=
  ∃ stop, clocks.reach clocks.stopClaiming = some stop ∧
    ∀ hardCutoff ∈ clocks.hardCutoff, ∃ cutoff, clocks.reach hardCutoff = some cutoff ∧ stop ≤ cutoff

/-- No boundary of the window falls after the last date of the calendar. -/
def Clocks.Fits (clocks : Clocks) (d : Date) : Prop :=
  d.ordinal = maxOrdinal → ∀ clock ∈ clocks.stopClaiming :: clocks.hardCutoff.toList,
    ∀ reach, clocks.reach clock = some reach → reach < dayLength

variable {clocks : Clocks} {d : Date}

theorem reach_lt {clock : Time} {reach : Nat} (h : clocks.reach clock = some reach) : reach < 2 * dayLength := by
  have hclock := clock.clock_lt
  obtain ⟨rolled, -, rfl⟩ := Option.map_eq_some_iff.mp h
  cases rolled <;> simp only [Bool.false_eq_true, ↓reduceIte, dayLength] at * <;> omega

theorem boundary_eq (start clock : Time) :
    boundary d start clock = (notAfter clock start).bind fun rolled =>
      (plusDays d (if rolled then 1 else 0)).map fun day => .combine day clock := by
  cases h : notAfter clock start with
  | error fault => simp [boundary, h, error_bind, Except.bind]
  | ok rolled =>
    cases rolled with
    | false => simp [boundary, h, ok_bind, Except.bind, plusDays, Date.addDays_zero, Except.map, pure, Except.pure]
    | true => cases hd : plusDays d 1 <;> simp [boundary, h, hd, ok_bind, Except.bind, Except.map]

/-- A boundary lies as long after midnight of the start date as the clock is reached. -/
theorem boundary_eq_ok {clock : Time} {t : DateTime} :
    boundary d clocks.start clock = .ok t ↔
      ∃ reach, clocks.reach clock = some reach ∧ t.moment = d.ordinal * dayLength + reach := by
  have hclock := clock.clock_lt
  have hvalid := t.valid
  cases h : clock.le? clocks.start with
  | none => simp [boundary_eq, notAfter, h, Clocks.reach, Except.bind]
  | some rolled =>
    have hn : notAfter clock clocks.start = .ok rolled := notAfter_eq_ok.mpr h
    simp only [boundary_eq, hn, Except.bind, Clocks.reach, h, Option.map_some, Option.some.injEq, exists_eq_left']
    constructor
    · intro ht
      obtain ⟨day, hday, rfl⟩ := map_eq_ok.mp ht
      have hord := Date.addDays_eq_some.mp (plusDays_eq_ok.mp hday)
      cases rolled <;> simp only [DateTime.moment, DateTime.combine, Bool.false_eq_true, ↓reduceIte, dayLength] at * <;>
        omega
    · intro ht
      refine map_eq_ok.mpr ⟨t.date, plusDays_eq_ok.mpr (Date.addDays_eq_some.mpr ?_), ?_⟩
      · cases rolled <;> simp only [DateTime.moment, Bool.false_eq_true, ↓reduceIte, dayLength] at * <;> omega
      · refine DateTime.ext_clock (Eq.refl t.date) ?_
        cases rolled <;> simp only [DateTime.moment, DateTime.combine, Bool.false_eq_true, ↓reduceIte, dayLength] at * <;>
          omega

/-- On the last date of the calendar, a boundary that exists is one of that date. -/
theorem boundary_fits {clock : Time} {t : DateTime} (h : boundary d clocks.start clock = .ok t)
    (hlast : d.ordinal = maxOrdinal) : ∀ reach, clocks.reach clock = some reach → reach < dayLength := by
  intro reach hreach
  obtain ⟨reach', hreach', hmoment⟩ := boundary_eq_ok.mp h
  obtain rfl := Option.some.inj (hreach.symm.trans hreach')
  have ht := t.date.valid
  have hvalid := t.valid
  simp only [DateTime.moment, dayLength, maxOrdinal] at *
  omega

theorem boundary_isOk {clock : Time} :
    (∃ t, boundary d clocks.start clock = .ok t) ↔
      ∃ reach, clocks.reach clock = some reach ∧ (d.ordinal = maxOrdinal → reach < dayLength) := by
  constructor
  · rintro ⟨t, ht⟩
    obtain ⟨reach, hreach, -⟩ := boundary_eq_ok.mp ht
    exact ⟨reach, hreach, fun hlast => boundary_fits ht hlast reach hreach⟩
  · rintro ⟨reach, hreach, hfits⟩
    have hd := d.valid
    have hlt : reach < 2 * dayLength := reach_lt hreach
    refine ⟨⟨⟨d.ordinal + reach / dayLength, ?_⟩, reach % dayLength, Nat.mod_lt _ (by decide)⟩, ?_⟩
    · simp only [dayLength, maxOrdinal] at *
      omega
    · refine boundary_eq_ok.mpr ⟨reach, hreach, ?_⟩
      simp only [DateTime.moment, dayLength]
      omega

theorem cutoffBoundary_none {start : Time} {cutoff : Option DateTime} :
    cutoffBoundary d start none = .ok cutoff ↔ cutoff = none := by
  rw [cutoffBoundary, pure_eq_ok, eq_comm]

theorem cutoffBoundary_some {start hardCutoff : Time} {cutoff : Option DateTime} :
    cutoffBoundary d start (some hardCutoff) = .ok cutoff ↔
      ∃ limit, boundary d start hardCutoff = .ok limit ∧ cutoff = some limit := by
  simp only [cutoffBoundary, map_eq_ok]
  exact exists_congr fun limit => and_congr_right fun _ => eq_comm

/-- What a window says: its date's clocks, none of them two days after the start of its date. -/
theorem window_eq_ok {window : Window} (h : clocks.window d = .ok window) :
    window.enabled = clocks.enabled ∧ window.started = .combine d clocks.start ∧
      ∃ reach, window.ended.moment = d.ordinal * dayLength + reach ∧ reach < 2 * dayLength := by
  simp only [Clocks.window, bind_eq_ok, require_eq_ok, pure_eq_ok] at h
  obtain ⟨stop, hstop, cutoff, hcutoff, -, -, rfl⟩ := h
  refine ⟨rfl, rfl, ?_⟩
  cases hhard : clocks.hardCutoff with
  | none =>
    obtain rfl := cutoffBoundary_none.mp (hhard ▸ hcutoff)
    obtain ⟨reach, hreach, hmoment⟩ := boundary_eq_ok.mp hstop
    exact ⟨reach, hmoment, reach_lt hreach⟩
  | some hardCutoff =>
    obtain ⟨limit, hlimit, rfl⟩ := cutoffBoundary_some.mp (hhard ▸ hcutoff)
    obtain ⟨reach, hreach, hmoment⟩ := boundary_eq_ok.mp hlimit
    exact ⟨reach, hmoment, reach_lt hreach⟩

/-- A date has its window as long as the clocks are in order and the window fits in the calendar. -/
theorem window_isOk : (∃ window, clocks.window d = .ok window) ↔ clocks.InOrder ∧ clocks.Fits d := by
  constructor
  · rintro ⟨window, h⟩
    simp only [Clocks.window, bind_eq_ok, require_eq_ok, pure_eq_ok] at h
    obtain ⟨stop, hstop, cutoff, hcutoff, -, horder, -⟩ := h
    obtain ⟨reach, hreach, hmoment⟩ := boundary_eq_ok.mp hstop
    have hfits := boundary_fits hstop
    cases hhard : clocks.hardCutoff with
    | none => exact ⟨⟨reach, hreach, by simp [hhard]⟩, fun hlast => by simpa [hhard] using hfits hlast⟩
    | some hardCutoff =>
      obtain ⟨limit, hlimit, rfl⟩ := cutoffBoundary_some.mp (hhard ▸ hcutoff)
      obtain ⟨reach', hreach', hmoment'⟩ := boundary_eq_ok.mp hlimit
      have hle := DateTime.le_iff.mp (horder limit rfl)
      refine ⟨⟨reach, hreach, ?_⟩, fun hlast => ?_⟩
      · simp only [hhard, Option.mem_some_iff, forall_eq']
        exact ⟨reach', hreach', by omega⟩
      · simpa [hhard] using ⟨hfits hlast, boundary_fits hlimit hlast⟩
  · rintro ⟨⟨reach, hreach, horder⟩, hfits⟩
    obtain ⟨stop, hstop⟩ := boundary_isOk.mpr ⟨reach, hreach, fun hlast => hfits hlast _ (by simp) _ hreach⟩
    obtain ⟨_, hreach', hmoment⟩ := boundary_eq_ok.mp hstop
    obtain rfl := Option.some.inj (hreach.symm.trans hreach')
    simp only [Clocks.window, bind_eq_ok, require_eq_ok, pure_eq_ok]
    cases hhard : clocks.hardCutoff with
    | none => exact ⟨_, stop, hstop, none, rfl, (), by simp, rfl⟩
    | some hardCutoff =>
      obtain ⟨reach', hreach', hle⟩ := horder hardCutoff hhard
      obtain ⟨limit, hlimit⟩ := boundary_isOk.mpr
        ⟨reach', hreach', fun hlast => hfits hlast hardCutoff (by simp [hhard]) _ hreach'⟩
      obtain ⟨_, hreach'', hmoment'⟩ := boundary_eq_ok.mp hlimit
      obtain rfl := Option.some.inj (hreach'.symm.trans hreach'')
      refine ⟨_, stop, hstop, some limit, cutoffBoundary_some.mpr ⟨limit, hlimit, rfl⟩, (), ?_, rfl⟩
      rintro _ ⟨⟩
      apply DateTime.le_iff.mpr
      omega

end Boundaries

section InForce

variable (policy : SchedulePolicy) (now : DateTime)

/-- The enabled window of a date, of which the wall clock `now` is inside. -/
def InForce (d : Date) (window : Window) : Prop :=
  policy.window d = .ok window ∧ window.enabled = true ∧ window.started ≤ now ∧ now < window.ended

def Latest (d : Date) (window : Window) : Prop :=
  InForce policy now d window ∧
    ∀ d' window', InForce policy now d' window' → window'.started ≤ window.started

variable {policy now} {d d' : Date} {window window' : Window}

theorem InForce.started_date (h : InForce policy now d window) : window.started.date = d := by
  rw [(window_eq_ok h.1).2.1]
  rfl

/-- A window in force is that of the day or of the day before. -/
theorem InForce.date (h : InForce policy now d window) :
    d.ordinal = now.date.ordinal ∨ d.ordinal + 1 = now.date.ordinal := by
  have hlt := DateTime.lt_iff.mp h.2.2.2
  have hd := DateTime.date_le h.2.2.1
  rw [h.started_date] at hd
  obtain ⟨reach, hmoment, hreach⟩ := (window_eq_ok h.1).2.2
  simp only [DateTime.moment, dayLength] at *
  omega

theorem InForce.unique (h : InForce policy now d window) (h' : InForce policy now d window') : window = window' :=
  Except.ok.inj (h.1.symm.trans h'.1)

/-- Of two windows in force, that of the later date starts later. -/
theorem InForce.started_le (h : InForce policy now d window) (h' : InForce policy now d' window')
    (hd : d'.ordinal ≤ d.ordinal) : window'.started ≤ window.started := by
  by_cases hlt : d'.ordinal < d.ordinal
  · have hstarted : window'.started.date.ordinal < window.started.date.ordinal := by
      rwa [h.started_date, h'.started_date]
    exact DateTime.le_of_date_lt hstarted
  · have heq : d' = d := Date.ext_ordinal (by omega)
    subst heq
    rw [h.unique h']
    exact DateTime.le_refl _

theorem Latest.unique (h : Latest policy now d window) (h' : Latest policy now d' window') : window = window' := by
  have hle : window.started ≤ window'.started := h'.2 d window h.1
  have hle' : window'.started ≤ window.started := h.2 d' window' h'.1
  have hd := DateTime.date_le hle
  have hd' := DateTime.date_le hle'
  rw [h.1.started_date, h'.1.started_date] at hd hd'
  have heq : d = d' := Date.ext_ordinal (by omega)
  subst heq
  exact h.1.unique h'.1

/-- The windows of two consecutive days, the second being today, tell which window is in force. -/
theorem activeWindow_spec {yesterday : Date} (hy : now.date.addDays (-1) = some yesterday)
    {active : Option Window} (h : policy.activeWindow now [yesterday, now.date] = .ok active) :
    (∀ window, active = some window → ∃ d, Latest policy now d window) ∧
      (active = none → ∀ d window, ¬ InForce policy now d window) := by
  have hord := Date.addDays_eq_some.mp hy
  simp only [SchedulePolicy.activeWindow, List.foldlM_cons, List.foldlM_nil, bind_eq_ok, pure_eq_ok] at h
  obtain ⟨_, ⟨first, hfirst, rfl⟩, _, ⟨second, hsecond, rfl⟩, rfl⟩ := h
  have hdates {d window} (hin : InForce policy now d window) :
      d = now.date ∧ window = second ∨ d = yesterday ∧ window = first := by
    rcases hin.date with heq | heq
    · have hdate : d = now.date := Date.ext_ordinal heq
      subst hdate
      exact .inl ⟨rfl, Except.ok.inj (hin.1.symm.trans hsecond)⟩
    · have hdate : d = yesterday := Date.ext_ordinal (by omega)
      subst hdate
      exact .inr ⟨rfl, Except.ok.inj (hin.1.symm.trans hfirst)⟩
  by_cases htoday : second.enabled = true ∧ second.started ≤ now ∧ now < second.ended
  · have hin : InForce policy now now.date second := ⟨hsecond, htoday⟩
    simp only [htoday, and_self, ↓reduceIte, Option.some.injEq, reduceCtorEq, false_imp_iff, and_true]
    rintro _ rfl
    refine ⟨now.date, hin, fun d' window' hin' => hin.started_le hin' ?_⟩
    have hdate' := hin'.date
    omega
  · have hnot {d window} (hin : InForce policy now d window) : d = yesterday ∧ window = first := by
      rcases hdates hin with ⟨-, rfl⟩ | heq
      · exact absurd hin.2 htoday
      · exact heq
    by_cases hbefore : first.enabled = true ∧ first.started ≤ now ∧ now < first.ended
    · have hin : InForce policy now yesterday first := ⟨hfirst, hbefore⟩
      simp only [htoday, hbefore, and_self, ↓reduceIte, Option.some.injEq, reduceCtorEq, false_imp_iff, and_true]
      rintro _ rfl
      refine ⟨yesterday, hin, fun d' window' hin' => ?_⟩
      rw [(hnot hin').2]
      exact DateTime.le_refl _
    · simp only [htoday, hbefore, ↓reduceIte, reduceCtorEq, false_imp_iff, implies_true, forall_const, true_and]
      intro d window hin
      obtain ⟨-, rfl⟩ := hnot hin
      exact hbefore hin.2

end InForce

end FidbPoc.Operations
