import ActionPolicy.Time.Instant

/-!
# Later instants

To find the instant a duration later, the duration is first made a span, which may not be too long,
and then the parts are added and carried over, up to the last day of the calendar. Both may fail.
They do so only if the sum is beyond the calendar's end.

Outside leap seconds nothing is lost by counting in nanoseconds. A duration that leaves a leap
second is counted from the second before it, so there the sum is a second less.

## Main definitions

* `Instant.nanos` – how far an instant is from the start of 1970.
* `Instant.regular` – the same fraction of the second before a leap second.
* `Instant.IsSum` – an instant is a duration after another one, or the calendar's end.

## Main statements

* `Duration.span?_eq_none_iff`, `Instant.after?_eq_none_iff` – when the two steps fail.
* `Instant.plus_cases` – all that `Instant.plus` can give.
* `Instant.isSum_plus` – it gives the sum.
* `Instant.plus_mono` – it ascends with the duration, and with the instant but for a step into a
  leap second.
* `Instant.nanos_plus_lt` – in such a step it descends by less than a second.
-/

namespace ActionPolicy

open Calendar Duration

theorem Duration.span?_eq_none_iff {d : Duration} :
    d.span? = none ↔ 9223372036854775807 * 1000000 < d.nanos := by
  unfold span? wholeSecs subsecNanos nanosPerSec
  split
  · simp
    omega
  split
  · simp
    omega
  · simp
    omega

theorem Duration.span?_eq_some {d : Duration} {s : Span} (h : d.span? = some s) :
    s.nanos < 1000000000 ∧ s.secs * 1000000000 + s.nanos = d.nanos := by
  unfold span? at h
  split at h
  · contradiction
  split at h
  · contradiction
  obtain rfl := Option.some.inj h
  unfold wholeSecs subsecNanos nanosPerSec
  dsimp only
  omega

namespace Instant

/-- Nanoseconds since the start of 1970, without leap seconds before the instant. -/
def nanos (t : Instant) : Int := t.secs * 1000000000 + t.nano

/-- The instant, or if it is within a leap second, the one a second before it. -/
def regular (t : Instant) : Instant :=
  { t with
    nano := t.nano % nanosPerSec
    nano_lt := Nat.lt_of_lt_of_le (Nat.mod_lt _ (by decide)) (by decide) }

variable {t t' : Instant} {d d' : Duration}

theorem inLeapSecond_iff : t.InLeapSecond ↔ 1000000000 ≤ t.nano := Iff.rfl

theorem nano_lt_two (t : Instant) : t.nano < 2000000000 := t.nano_lt

theorem nanos_regular (t : Instant) :
    t.regular.nanos = t.secs * 1000000000 + (t.nano % 1000000000 : Nat) := rfl

theorem regular_eq_self (h : ¬t.InLeapSecond) : t.regular = t := by
  have hnano : t.nano % nanosPerSec = t.nano := Nat.mod_eq_of_lt (Nat.lt_of_not_le h)
  simp only [regular, hnano]

/-! ### Order -/

/-- The seconds and the fraction say which instant it is. -/
theorem eq_of_secs_of_nano (hsecs : t.secs = t'.secs) (hnano : t.nano = t'.nano) : t = t' := by
  have hsecond : t.second < 86400 := t.second_lt
  have hsecond' : t'.second < 86400 := t'.second_lt
  unfold secs at hsecs
  obtain ⟨day, second, nano, _, _, _⟩ := t
  obtain ⟨day', second', nano', _, _, _⟩ := t'
  dsimp only at *
  obtain rfl : day = day' := by omega
  obtain rfl : second = second' := by omega
  subst hnano
  rfl

theorem le_iff_nanos (h : ¬t.InLeapSecond) (h' : ¬t'.InLeapSecond) :
    t ≤ t' ↔ t.nanos ≤ t'.nanos := by
  rw [inLeapSecond_iff] at h h'
  rw [le_iff]
  unfold nanos
  omega

/-- Outside leap seconds the nanoseconds say which instant it is. -/
theorem eq_of_nanos (h : ¬t.InLeapSecond) (h' : ¬t'.InLeapSecond) (hnanos : t.nanos = t'.nanos) :
    t = t' := by
  rw [inLeapSecond_iff] at h h'
  unfold nanos at hnanos
  exact eq_of_secs_of_nano (by omega) (by omega)

/-! ### The calendar's end -/

theorem secs_calendarEnd : calendarEnd.secs = 8210266876799 := rfl

theorem nanos_calendarEnd : calendarEnd.nanos = 8210266876799999999999 := rfl

theorem secs_le (t : Instant) : t.secs ≤ 8210266876799 := by
  have hday : t.day ≤ 95026236 := t.day_mem.2
  have hsecond : t.second < 86400 := t.second_lt
  unfold secs
  omega

theorem le_secs (t : Instant) : -8334601228800 ≤ t.secs := by
  have hday : -96465292 ≤ t.day := t.day_mem.1
  unfold secs
  omega

theorem le_calendarEnd_iff : t ≤ calendarEnd ↔ t.secs < 8210266876799 ∨ t.nano < 1000000000 := by
  have hsecs := t.secs_le
  have hend : calendarEnd.nano = 999999999 := rfl
  rw [le_iff, secs_calendarEnd, hend]
  omega

theorem not_inLeapSecond_calendarEnd : ¬calendarEnd.InLeapSecond := by decide

/-- Only a leap second comes after the calendar's end. -/
theorem nanos_le_of_not_inLeapSecond (h : ¬t.InLeapSecond) : t.nanos ≤ calendarEnd.nanos := by
  have hsecs := t.secs_le
  rw [inLeapSecond_iff] at h
  rw [nanos_calendarEnd, nanos]
  omega

/-! ### Sums -/

theorem after?_eq_some {day : Int} {second nano : Nat} (h : after? day second nano = some t) :
    ¬t.InLeapSecond ∧ t.nanos = (day * 86400 + second) * 1000000000 + nano := by
  unfold after? at h
  obtain ⟨hday, ht⟩ := Option.dite_none_right_eq_some.mp h
  obtain rfl := Option.some.inj ht
  unfold InLeapSecond nanos secs secsPerDay nanosPerSec
  dsimp only
  omega

/-- The calendar ends before, and only then there is no such instant. -/
theorem after?_eq_none_iff {day : Int} (hday : firstDay ≤ day) {second nano : Nat} :
    after? day second nano = none ↔
      calendarEnd.nanos < (day * 86400 + second) * 1000000000 + nano := by
  rw [nanos_calendarEnd]
  unfold after? firstDay lastDay secsPerDay nanosPerSec
  unfold firstDay at hday
  dsimp only
  split <;> simp <;> omega

/-- Seconds and nanoseconds after the start of a day, or the calendar's end. -/
theorem nanos_getD_after? {day : Int} (hday : firstDay ≤ day) (second nano : Nat) :
    ¬((after? day second nano).getD calendarEnd).InLeapSecond ∧
      ((after? day second nano).getD calendarEnd).nanos =
        min ((day * 86400 + second) * 1000000000 + nano) calendarEnd.nanos := by
  cases hafter : after? day second nano with
  | none =>
    rw [after?_eq_none_iff hday] at hafter
    exact ⟨not_inLeapSecond_calendarEnd, (Int.min_eq_right (Int.le_of_lt hafter)).symm⟩
  | some r =>
    obtain ⟨hregular, hexact⟩ := after?_eq_some hafter
    have hend := nanos_le_of_not_inLeapSecond hregular
    rw [hexact] at hend
    exact ⟨hregular, hexact.trans (Int.min_eq_left hend).symm⟩

/-- All that can be found a duration after an instant. -/
theorem plus_cases (t : Instant) (d : Duration) :
    (t.InLeapSecond ∧ t.nano + d.nanos < 2000000000 ∧
      (t.plus d).secs = t.secs ∧ (t.plus d).nano = t.nano + d.nanos) ∨
    (t.InLeapSecond → 2000000000 ≤ t.nano + d.nanos) ∧ ¬(t.plus d).InLeapSecond ∧
      (t.plus d).nanos = min (t.regular.nanos + d.nanos) calendarEnd.nanos := by
  unfold plus plus?
  cases hspan : d.span? with
  | none =>
    -- The duration alone is longer than the calendar.
    have hlong := Duration.span?_eq_none_iff.mp hspan
    have hfirst := t.le_secs
    refine .inr ⟨fun _ => by omega, not_inLeapSecond_calendarEnd, ?_⟩
    rw [Option.bind_none, Option.getD_none, nanos_regular, nanos_calendarEnd]
    omega
  | some s =>
    obtain ⟨hnanos, hsum⟩ := Duration.span?_eq_some hspan
    rw [Option.bind_some]
    by_cases hstays : t.InLeapSecond ∧ s.secs = 0 ∧ t.nano + s.nanos < 2 * nanosPerSec
    · have hlater : t.later? s =
          some { t with nano := t.nano + s.nanos, nano_lt := hstays.2.2 } := dif_pos hstays
      obtain ⟨hleap, hsecs, hnano⟩ := hstays
      change t.nano + s.nanos < 2000000000 at hnano
      rw [hlater, Option.getD_some]
      refine .inl ⟨hleap, by omega, rfl, ?_⟩
      show t.nano + s.nanos = t.nano + d.nanos
      omega
    · have hlater : t.later? s =
          after? t.day (t.second + s.secs) (t.nano % nanosPerSec + s.nanos) := dif_neg hstays
      have hcount : (t.day * 86400 + (t.second + s.secs : Nat)) * 1000000000 +
          (t.nano % nanosPerSec + s.nanos : Nat) = t.regular.nanos + d.nanos := by
        rw [nanos_regular]
        unfold secs nanosPerSec
        omega
      rw [hlater, ← hcount]
      refine .inr ⟨fun hleap => ?_, nanos_getD_after? t.day_mem.1 _ _⟩
      have hnot : ¬(s.secs = 0 ∧ t.nano + s.nanos < 2000000000) := fun h => hstays ⟨hleap, h⟩
      rw [inLeapSecond_iff] at hleap
      omega

/-- `e` is the instant `d` after `t`, or the calendar's end if that comes before. If `d` leaves the
leap second that `t` is in, it is counted from the second before. -/
structure IsSum (t : Instant) (d : Duration) (e : Instant) : Prop where
  exact : ¬t.InLeapSecond → t.nanos + d.nanos ≤ calendarEnd.nanos →
    ¬e.InLeapSecond ∧ e.nanos = t.nanos + d.nanos
  saturated : ¬t.InLeapSecond → calendarEnd.nanos < t.nanos + d.nanos → e = calendarEnd
  stays : t.InLeapSecond → t.nano + d.nanos < 2000000000 →
    e.secs = t.secs ∧ e.nano = t.nano + d.nanos
  leaves : t.InLeapSecond → 2000000000 ≤ t.nano + d.nanos →
    ¬e.InLeapSecond ∧ e.nanos = min (t.regular.nanos + d.nanos) calendarEnd.nanos
  le_iff : t ≤ e ↔ t ≤ calendarEnd ∨ t.nano + d.nanos < 2000000000

theorem le_plus_iff (t : Instant) (d : Duration) :
    t ≤ t.plus d ↔ t ≤ calendarEnd ∨ t.nano + d.nanos < 2000000000 := by
  have hsecs := t.secs_le
  have hnano := t.nano_lt_two
  have hcases := t.plus_cases d
  rw [nanos_regular, inLeapSecond_iff, inLeapSecond_iff, nanos_calendarEnd, nanos] at hcases
  rw [Instant.le_iff, le_calendarEnd_iff]
  omega

theorem isSum_plus (t : Instant) (d : Duration) : t.IsSum d (t.plus d) where
  exact hregular hle := by
    rcases t.plus_cases d with ⟨hleap, -⟩ | ⟨-, hsum, hnanos⟩
    · exact absurd hleap hregular
    · rw [regular_eq_self hregular, Int.min_eq_left hle] at hnanos
      exact ⟨hsum, hnanos⟩
  saturated hregular hlt := by
    rcases t.plus_cases d with ⟨hleap, -⟩ | ⟨-, hsum, hnanos⟩
    · exact absurd hleap hregular
    · rw [regular_eq_self hregular, Int.min_eq_right (Int.le_of_lt hlt)] at hnanos
      exact eq_of_nanos hsum not_inLeapSecond_calendarEnd hnanos
  stays hleap hstays := by
    rcases t.plus_cases d with ⟨-, -, hsum⟩ | ⟨hleaves, -⟩
    · exact hsum
    · exact absurd (hleaves hleap) (Nat.not_le.mpr hstays)
  leaves _ hleaves := by
    rcases t.plus_cases d with ⟨-, hstays, -⟩ | ⟨-, hsum⟩
    · exact absurd hleaves (Nat.not_le.mpr hstays)
    · exact hsum
  le_iff := t.le_plus_iff d

/-- The seconds before leap seconds are in the order of the instants, but for two in one second of
which the later one is within its leap second. -/
theorem nanos_regular_mono (hle : t ≤ t')
    (hleap : t'.InLeapSecond → t.InLeapSecond ∨ t.secs ≠ t'.secs) :
    t.regular.nanos ≤ t'.regular.nanos := by
  have hnano := t.nano_lt_two
  have hnano' := t'.nano_lt_two
  rw [Instant.le_iff] at hle
  rw [inLeapSecond_iff, inLeapSecond_iff] at hleap
  rw [nanos_regular, nanos_regular]
  omega

/-- The sum ascends with both, unless the later instant is within a leap second and the earlier one
is in the second before it. -/
theorem plus_mono (hle : t ≤ t') (hd : d.nanos ≤ d'.nanos) (hend : t ≤ calendarEnd)
    (hleap : t'.InLeapSecond → t.InLeapSecond ∨ t.secs ≠ t'.secs) : t.plus d ≤ t'.plus d' := by
  have hregular := nanos_regular_mono hle hleap
  have hsecs := t'.secs_le
  have hnano := t'.nano_lt_two
  rw [le_calendarEnd_iff] at hend
  rw [Instant.le_iff] at hle
  rcases t.plus_cases d with ⟨hin, hstays, hsum⟩ | ⟨hleaves, hout, hsum⟩ <;>
    rcases t'.plus_cases d' with ⟨hin', hstays', hsum'⟩ | ⟨hleaves', hout', hsum'⟩
  · rw [Instant.le_iff]
    omega
  · -- The first one stays within its leap second, which is over before the other one begins.
    rw [nanos_regular, nanos_calendarEnd, nanos] at hsum'
    rw [inLeapSecond_iff] at hin hleaves' hout'
    rw [Instant.le_iff]
    omega
  · -- The first one begins in an earlier second, and its sum is not within a leap second.
    rw [nanos_regular, nanos_calendarEnd, nanos] at hsum
    rw [inLeapSecond_iff] at hin' hleaves hout
    rw [inLeapSecond_iff, inLeapSecond_iff] at hleap
    rw [Instant.le_iff]
    omega
  · have hsums : (t.plus d).nanos ≤ (t'.plus d').nanos := by
      rw [hsum, hsum']
      omega
    exact (le_iff_nanos hout hout').mpr hsums

/-- Also then the sum is less than a second earlier. -/
theorem nanos_plus_lt (hle : t ≤ t') (hd : d.nanos ≤ d'.nanos) (hend : t ≤ calendarEnd) :
    (t.plus d).nanos < (t'.plus d').nanos + 1000000000 := by
  by_cases hleap : t'.InLeapSecond → t.InLeapSecond ∨ t.secs ≠ t'.secs
  · have hmono := plus_mono hle hd hend hleap
    have hnano := (t.plus d).nano_lt_two
    rw [Instant.le_iff] at hmono
    unfold nanos
    omega
  · -- The later instant is within a leap second, and the earlier one is in the second before.
    have hin' : t'.InLeapSecond := Decidable.byContradiction fun h => hleap fun hin => absurd hin h
    have hout : ¬t.InLeapSecond := fun h => hleap fun _ => .inl h
    have hsecond : t.secs = t'.secs := Decidable.byContradiction fun h => hleap fun _ => .inr h
    have hnano' := t'.nano_lt_two
    rw [inLeapSecond_iff] at hin' hout
    rcases t.plus_cases d with ⟨hin, -⟩ | ⟨-, -, hsum⟩
    · exact absurd hin hout
    rw [nanos_regular] at hsum
    rcases t'.plus_cases d' with ⟨-, -, hstays⟩ | ⟨-, -, hsum'⟩
    · have hsum' : (t'.plus d').nanos = t'.secs * 1000000000 + t'.nano + d'.nanos := by
        rw [nanos]
        omega
      omega
    · rw [nanos_regular] at hsum'
      omega

end Instant

end ActionPolicy
