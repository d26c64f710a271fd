/-!
# Durations

A length of time, counted in nanoseconds.

## Main definitions

* `Duration` – a length of time.
* `Duration.ofMillis`, `Duration.ofSecs` – lengths in the usual units.
* `Duration.wholeSecs`, `Duration.subsecNanos` – the two parts a length is written with.
* `Duration.period` – the shortest period a timer keeps is one millisecond.
* `Span`, `Duration.span?` – a length that a calendar can be moved by.
-/

namespace ActionPolicy

/-- A length of time in nanoseconds. -/
structure Duration where
  /-- How many nanoseconds it lasts. -/
  nanos : Nat
  deriving DecidableEq, Repr, Inhabited

namespace Duration

/-- Nanoseconds in a second. -/
def nanosPerSec : Nat := 1000000000

/-- Nanoseconds in a millisecond. -/
def nanosPerMilli : Nat := 1000000

/-- A length given in milliseconds. -/
def ofMillis (n : Nat) : Duration := ⟨n * nanosPerMilli⟩

/-- A length given in seconds. -/
def ofSecs (n : Nat) : Duration := ⟨n * nanosPerSec⟩

/-- The whole seconds of a length. -/
def wholeSecs (d : Duration) : Nat := d.nanos / nanosPerSec

/-- The nanoseconds beyond the whole seconds. -/
def subsecNanos (d : Duration) : Nat := d.nanos % nanosPerSec

/-- A timer asked to fire more often than every millisecond fires every millisecond. -/
def period (d : Duration) : Duration := ⟨max d.nanos nanosPerMilli⟩

theorem period_pos (d : Duration) : 0 < d.period.nanos :=
  Nat.lt_of_lt_of_le (by decide) (Nat.le_max_right d.nanos nanosPerMilli)

end Duration

/-- A length of time that a calendar can be moved by. -/
structure Span where
  secs : Nat
  /-- Nanoseconds beyond the whole seconds. -/
  nanos : Nat
  deriving DecidableEq, Repr

/-- A length as a span, if it has no more than `2 ^ 63 - 1` milliseconds. -/
def Duration.span? (d : Duration) : Option Span :=
  if 9223372036854775 < d.wholeSecs then none
  else if d.wholeSecs = 9223372036854775 ∧ 807000000 < d.subsecNanos then none
  else some ⟨d.wholeSecs, d.subsecNanos⟩

end ActionPolicy
