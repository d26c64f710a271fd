import ActionPolicy.Time.Duration

/-!
# Instants

What a clock can show, in universal time: a day of the calendar, a second of the day, and a fraction
of the second. The calendar ends with the year 262142. The fraction may be more than a second: then
it belongs to a leap second, which has no number of its own and comes after the one it is counted
with.

## Main definitions

* `Instant` – what a clock can show, in the order in which it does.
* `Instant.later?` – what it shows a span later, if the calendar reaches that far.
* `Instant.plus?`, `Instant.plus` – the same for a duration; the second one stops at the calendar's
  end.
* `Instant.text` – an instant written as in RFC 3339.
* `ManualClock` – a clock that moves only when told to.

## Design notes

The calendar does not know when leap seconds are inserted. A span counts one only if it begins
within it, and then only as long as it does not leave it.
-/

namespace ActionPolicy

namespace Calendar

/-- The first day of the calendar, `-262143-01-01`, in days since the first one of 1970. -/
def firstDay : Int := -96465292

/-- The last day of the calendar, `+262142-12-31`, in days since the first one of 1970. -/
def lastDay : Int := 95026236

/-- Seconds of a day without leap seconds. -/
def secsPerDay : Nat := 86400

end Calendar

open Calendar Duration

/-- What a clock can show. -/
structure Instant where
  /-- Days since the first one of 1970; negative before it. -/
  day : Int
  /-- Seconds since the start of the day. -/
  second : Nat
  /-- Nanoseconds since the start of the second; from `10 ^ 9` on, within a leap second after it. -/
  nano : Nat
  /-- It is a day of the calendar. -/
  day_mem : firstDay ≤ day ∧ day ≤ lastDay
  second_lt : second < secsPerDay
  nano_lt : nano < 2 * nanosPerSec
  deriving DecidableEq, Repr

namespace Instant

instance : LE Instant := ⟨fun a b => a.day < b.day ∨ a.day = b.day ∧
  (a.second < b.second ∨ a.second = b.second ∧ a.nano ≤ b.nano)⟩

instance : LT Instant := ⟨fun a b => a.day < b.day ∨ a.day = b.day ∧
  (a.second < b.second ∨ a.second = b.second ∧ a.nano < b.nano)⟩

instance (a b : Instant) : Decidable (a ≤ b) :=
  inferInstanceAs (Decidable (a.day < b.day ∨ a.day = b.day ∧
    (a.second < b.second ∨ a.second = b.second ∧ a.nano ≤ b.nano)))

instance (a b : Instant) : Decidable (a < b) :=
  inferInstanceAs (Decidable (a.day < b.day ∨ a.day = b.day ∧
    (a.second < b.second ∨ a.second = b.second ∧ a.nano < b.nano)))

/-- Seconds since the start of 1970, without leap seconds. -/
def secs (t : Instant) : Int := t.day * 86400 + t.second

section Order

variable {t t' : Instant}

theorem le_iff : t ≤ t' ↔ t.secs < t'.secs ∨ t.secs = t'.secs ∧ t.nano ≤ t'.nano := by
  have hsecond : t.second < 86400 := t.second_lt
  have hsecond' : t'.second < 86400 := t'.second_lt
  change (t.day < t'.day ∨ t.day = t'.day ∧ (t.second < t'.second ∨ t.second = t'.second ∧
    t.nano ≤ t'.nano)) ↔ _
  unfold secs
  omega

theorem lt_iff : t < t' ↔ t.secs < t'.secs ∨ t.secs = t'.secs ∧ t.nano < t'.nano := by
  have hsecond : t.second < 86400 := t.second_lt
  have hsecond' : t'.second < 86400 := t'.second_lt
  change (t.day < t'.day ∨ t.day = t'.day ∧ (t.second < t'.second ∨ t.second = t'.second ∧
    t.nano < t'.nano)) ↔ _
  unfold secs
  omega

theorem not_lt : ¬t < t' ↔ t' ≤ t := by
  rw [lt_iff, le_iff]
  omega

theorem not_le : ¬t ≤ t' ↔ t' < t := by
  rw [lt_iff, le_iff]
  omega

theorem lt_of_lt_of_le {t'' : Instant} (h : t < t') (h' : t' ≤ t'') : t < t'' := by
  rw [lt_iff] at *
  rw [le_iff] at h'
  omega

end Order

/-- The start of 1970. -/
def epoch : Instant := ⟨0, 0, 0, by decide, by decide, by decide⟩

instance : Inhabited Instant := ⟨epoch⟩

/-- The end of the calendar, `+262142-12-31T23:59:59.999999999Z`. Only a leap second comes later. -/
def calendarEnd : Instant := ⟨lastDay, 86399, 999999999, by decide, by decide, by decide⟩

/-- The instant is within a leap second. -/
def InLeapSecond (t : Instant) : Prop := nanosPerSec ≤ t.nano

instance (t : Instant) : Decidable t.InLeapSecond :=
  inferInstanceAs (Decidable (nanosPerSec ≤ t.nano))

/-- So many seconds and nanoseconds after the start of a day, if the calendar reaches that far. -/
def after? (day : Int) (second nano : Nat) : Option Instant :=
  let second := second + nano / nanosPerSec
  let day := day + second / secsPerDay
  if h : firstDay ≤ day ∧ day ≤ lastDay then
    some ⟨day, second % secsPerDay, nano % nanosPerSec, h, Nat.mod_lt _ (by decide),
      Nat.lt_of_lt_of_le (Nat.mod_lt _ (by decide)) (by decide)⟩
  else none

/-- The instant `n` nanoseconds from the start of 1970, if the calendar has it. -/
def ofNanos? (n : Int) : Option Instant :=
  after? (n / (secsPerDay * nanosPerSec)) 0 (n % (secsPerDay * nanosPerSec)).toNat

/-- The instant `n` milliseconds from the start of 1970, if the calendar has it. -/
def ofMillis? (n : Int) : Option Instant := ofNanos? (n * nanosPerMilli)

/-- What a clock shows a span later, if the calendar reaches that far. A span that leaves a leap
second is counted from the second before it. -/
def later? (t : Instant) (s : Span) : Option Instant :=
  if h : t.InLeapSecond ∧ s.secs = 0 ∧ t.nano + s.nanos < 2 * nanosPerSec then
    some { t with nano := t.nano + s.nanos, nano_lt := h.2.2 }
  else after? t.day (t.second + s.secs) (t.nano % nanosPerSec + s.nanos)

/-- The instant `d` after `t`, if `d` is a span and the calendar reaches that far. -/
def plus? (t : Instant) (d : Duration) : Option Instant := d.span?.bind t.later?

/-- The instant `d` after `t`, or the calendar's end if there is none. -/
def plus (t : Instant) (d : Duration) : Instant := (t.plus? d).getD calendarEnd

/-! ### RFC 3339 -/

/-- A date of the civil calendar. -/
structure Date where
  /-- Astronomical year; 0 is the year before year 1. -/
  year : Int
  /-- Month, 1 to 12. -/
  month : Nat
  /-- Day of the month, from 1. -/
  day : Nat

/-- The date `n` days after 1 January 1970, counting years from March so that the leap day comes
last and eras of 400 years so that all have the same length. -/
def Date.ofDays (n : Int) : Date :=
  let z := n + 719468
  let era := z / 146097
  let dayOfEra := (z % 146097).toNat
  let yearOfEra := (dayOfEra - dayOfEra / 1460 + dayOfEra / 36524 - dayOfEra / 146096) / 365
  let dayOfYear := dayOfEra - (365 * yearOfEra + yearOfEra / 4 - yearOfEra / 100)
  let shifted := (5 * dayOfYear + 2) / 153
  let month := if shifted < 10 then shifted + 3 else shifted - 9
  { year := era * 400 + yearOfEra + (if month ≤ 2 then 1 else 0)
    month := month
    day := dayOfYear - (153 * shifted + 2) / 5 + 1 }

/-- `n` in decimal with at least `width` digits. -/
def padded (width n : Nat) : String :=
  let s := toString n
  String.ofList (List.replicate (width - s.length) '0') ++ s

/-- A year has four digits; one outside 0 to 9999 also has a sign. -/
def yearText (y : Int) : String :=
  if 0 ≤ y ∧ y ≤ 9999 then padded 4 y.toNat
  else if 0 ≤ y then "+" ++ padded 4 y.toNat
  else "-" ++ padded 4 (-y).toNat

/-- The fraction of a second with none, 3, 6 or 9 digits, the fewest that are exact. -/
def fractionText (nanos : Nat) : String :=
  if nanos = 0 then ""
  else if nanos % 1000000 = 0 then "." ++ padded 3 (nanos / 1000000)
  else if nanos % 1000 = 0 then "." ++ padded 6 (nanos / 1000)
  else "." ++ padded 9 nanos

/-- An instant written as in RFC 3339, in universal time. A leap second has the number after that of
the second before it. -/
def text (t : Instant) : String :=
  let date := Date.ofDays t.day
  yearText date.year ++ "-" ++ padded 2 date.month ++ "-" ++ padded 2 date.day ++ "T" ++
    padded 2 (t.second / 3600) ++ ":" ++ padded 2 (t.second / 60 % 60) ++ ":" ++
    padded 2 (t.second % 60 + t.nano / nanosPerSec) ++ fractionText (t.nano % nanosPerSec) ++ "Z"

/-- The leap second at the end of the year 2016. -/
example : text ⟨17166, 86399, 1300000000, by decide, by decide, by decide⟩ =
    "2016-12-31T23:59:60.300Z" := by rfl

/-- The calendar ends with a year. -/
example : calendarEnd.text = "+262142-12-31T23:59:59.999999999Z" := by rfl

end Instant

/-- A clock that moves only when told to. -/
structure ManualClock where
  now : Instant

namespace ManualClock

/-- Move the clock on by `d`; a move beyond the calendar's end is not made. -/
def advance (c : ManualClock) (d : Duration) : ManualClock :=
  match c.now.plus? d with
  | some t => ⟨t⟩
  | none => c

/-- Set the clock to `t`, forward or back. -/
def set (_ : ManualClock) (t : Instant) : ManualClock := ⟨t⟩

end ManualClock

end ActionPolicy
