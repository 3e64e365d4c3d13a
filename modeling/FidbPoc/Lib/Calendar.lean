import Mathlib.Data.Nat.Notation
import Mathlib.Data.Int.Notation
import Mathlib.Algebra.Order.Ring.Nat

namespace FidbPoc.Lib.Calendar

/-- The ordinal of 9999-12-31, the last date. -/
def maxOrdinal : Nat := 3652059

/-- `datetime.date`, by its ordinal in the proleptic Gregorian calendar. -/
structure Date where
  ordinal : Nat
  valid : 1 ≤ ordinal ∧ ordinal ≤ maxOrdinal
  deriving DecidableEq

namespace Date

theorem ext_ordinal {d d' : Date} (h : d.ordinal = d'.ordinal) : d = d' := by
  cases d
  cases d'
  cases h
  rfl

/-- `date.weekday()`: Monday is 0. -/
def weekday (d : Date) : Fin 7 := ⟨(d.ordinal + 6) % 7, by omega⟩

/-- `date + timedelta(days=n)`; `none` where it raises `OverflowError`. -/
def addDays (d : Date) (n : Int) : Option Date :=
  if h : 1 ≤ ((d.ordinal : Int) + n).toNat ∧ ((d.ordinal : Int) + n).toNat ≤ maxOrdinal then
    some ⟨((d.ordinal : Int) + n).toNat, h⟩
  else none

theorem addDays_eq_some {d e : Date} {n : Int} :
    d.addDays n = some e ↔ (e.ordinal : Int) = d.ordinal + n := by
  have he := e.valid
  by_cases h : 1 ≤ ((d.ordinal : Int) + n).toNat ∧ ((d.ordinal : Int) + n).toNat ≤ maxOrdinal
  · simp only [addDays, h, and_self, dite_true, Option.some.injEq]
    constructor
    · rintro rfl
      simp only
      omega
    · intro heq
      apply ext_ordinal
      simp only
      omega
  · simp only [addDays, h, dite_false, reduceCtorEq, false_iff]
    omega

theorem addDays_isSome {d : Date} {n : Int} (hl : 1 ≤ (d.ordinal : Int) + n)
    (hu : (d.ordinal : Int) + n ≤ maxOrdinal) : ∃ e, d.addDays n = some e :=
  ⟨⟨((d.ordinal : Int) + n).toNat, by omega, by omega⟩, addDays_eq_some.mpr (by simp only; omega)⟩

theorem addDays_zero (d : Date) : d.addDays 0 = some d := addDays_eq_some.mpr (by omega)

/-- The days of the year before each month, and those of the month. -/
def daysBeforeMonth (month : Nat) : Nat := [0, 0, 31, 59, 90, 120, 151, 181, 212, 243, 273, 304, 334].getD month 0

def daysInMonth (month : Nat) : Nat := [0, 31, 28, 31, 30, 31, 30, 31, 31, 30, 31, 30, 31].getD month 0

/-- `_ord2ymd`, the year, the month and the day of a date. -/
def civil (d : Date) : Nat × Nat × Nat :=
  let n := d.ordinal - 1
  let (n400, n) := (n / 146097, n % 146097)
  let (n100, n) := (n / 36524, n % 36524)
  let (n4, n) := (n / 1461, n % 1461)
  let (n1, n) := (n / 365, n % 365)
  let year := n400 * 400 + 1 + n100 * 100 + n4 * 4 + n1
  if n1 = 4 ∨ n100 = 4 then (year - 1, 12, 31)
  else
    let leap := n1 = 3 ∧ (n4 ≠ 24 ∨ n100 = 3)
    let month := (n + 50) / 32
    let preceding := daysBeforeMonth month + if month > 2 ∧ leap then 1 else 0
    if preceding > n then
      (year, month - 1, n - (preceding - (daysInMonth (month - 1) + if month - 1 = 2 ∧ leap then 1 else 0)) + 1)
    else (year, month, n - preceding + 1)

/-- A number with zeros before it. -/
def padded (width n : Nat) : String :=
  String.ofList ((List.range width).reverse.map fun i => Nat.digitChar (n / 10 ^ i % 10))

/-- `date.isoformat()` -/
def isoformat (d : Date) : String :=
  let (year, month, day) := d.civil
  padded 4 year ++ "-" ++ padded 2 month ++ "-" ++ padded 2 day

end Date

/-- The microseconds of a day. -/
def dayLength : Nat := 86400000000

/-- `datetime.time`; an offset from UTC is counted in minutes. -/
structure Time where
  hour : Fin 24
  minute : Fin 60
  second : Fin 60
  microsecond : Fin 1000000
  utcoffset : Option Int
  deriving DecidableEq

namespace Time

def clock (t : Time) : Nat :=
  ((t.hour.val * 60 + t.minute.val) * 60 + t.second.val) * 1000000 + t.microsecond.val

theorem clock_lt (t : Time) : t.clock < dayLength := by
  have hh := t.hour.isLt
  have hm := t.minute.isLt
  have hs := t.second.isLt
  have hu := t.microsecond.isLt
  simp only [clock, dayLength]
  omega

/-- `left <= right`; `none` for a naive and an aware time, which have no order. -/
def le? (left right : Time) : Option Bool :=
  match left.utcoffset, right.utcoffset with
  | none, none => some (left.clock ≤ right.clock)
  | some x, some y => some ((left.clock : Int) - x * 60000000 ≤ (right.clock : Int) - y * 60000000)
  | _, _ => none

def twoDigits (n : Nat) : String := String.ofList [Nat.digitChar (n / 10), Nat.digitChar (n % 10)]

/-- `time.strftime("%H:%M")`. -/
def hoursAndMinutes (t : Time) : String := twoDigits t.hour.val ++ ":" ++ twoDigits t.minute.val

end Time

/-- A wall-clock `datetime`. Two of one time zone are compared by their wall clocks. -/
structure DateTime where
  date : Date
  clock : Nat
  valid : clock < dayLength
  deriving DecidableEq

namespace DateTime

theorem ext_clock {a b : DateTime} (hdate : a.date = b.date) (hclock : a.clock = b.clock) : a = b := by
  cases a
  cases b
  cases hdate
  cases hclock
  rfl

def moment (t : DateTime) : Nat := t.date.ordinal * dayLength + t.clock

instance : LT DateTime :=
  ⟨fun a b => a.date.ordinal < b.date.ordinal ∨ a.date.ordinal = b.date.ordinal ∧ a.clock < b.clock⟩

instance : LE DateTime :=
  ⟨fun a b => a.date.ordinal < b.date.ordinal ∨ a.date.ordinal = b.date.ordinal ∧ a.clock ≤ b.clock⟩

instance (a b : DateTime) : Decidable (a < b) := inferInstanceAs (Decidable (_ ∨ _))

instance (a b : DateTime) : Decidable (a ≤ b) := inferInstanceAs (Decidable (_ ∨ _))

/-- `datetime.combine`. -/
def combine (date : Date) (time : Time) : DateTime := ⟨date, time.clock, time.clock_lt⟩

theorem lt_iff {a b : DateTime} : a < b ↔ a.moment < b.moment := by
  have ha := a.valid
  have hb := b.valid
  change _ ∨ _ ↔ _
  simp only [moment, dayLength] at *
  omega

theorem le_iff {a b : DateTime} : a ≤ b ↔ a.moment ≤ b.moment := by
  have ha := a.valid
  have hb := b.valid
  change _ ∨ _ ↔ _
  simp only [moment, dayLength] at *
  omega

theorem le_refl (a : DateTime) : a ≤ a := .inr ⟨rfl, Nat.le_refl _⟩

theorem le_of_date_lt {a b : DateTime} (h : a.date.ordinal < b.date.ordinal) : a ≤ b := .inl h

theorem date_le {a b : DateTime} (h : a ≤ b) : a.date.ordinal ≤ b.date.ordinal := by
  rcases h with h | h <;> omega

end DateTime

end FidbPoc.Lib.Calendar
