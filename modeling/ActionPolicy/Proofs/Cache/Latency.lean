import ActionPolicy.Proofs.Cache.Exposition
import ActionPolicy.Time.Duration
import Mathlib.Algebra.BigOperators.Group.List.Basic
import Mathlib.Algebra.GroupWithZero.Nat
import Mathlib.Data.List.Induction

/-!
# Exported latencies

Each sample of the exported latencies counts the derivations that took less than its own upper bound
and no less than the bound before it. So the number of derivations below a bound is the sum of the
samples up to there, and the sum of all samples is the number of derivations.

A histogram is exported otherwise: each of its samples counts all that is below its bound, and the
last one everything. The samples are those of a histogram only if no derivation took less than the
greatest finite bound.

## Main definitions

* `MetricsEvent`, `CacheMetrics.recorded` – what is counted, and the counters after some events.
* `Duration.countedMicros` – a latency as it is counted.
* `LatencyBand` – the latencies between two bounds.
* `IsHistogram` – a text holds the histogram of some latencies.

## Main statements

* `LatencyBuckets.Tallies.record`, `CacheMetrics.tallies_recorded` – one recorded latency, and all
  of them.
* `LatencyBand.sum_countP_upTo` – the latencies below a bound.
* `CacheMetrics.exposition_latencies` – what is exported.
* `CacheMetrics.exposition_quick` – a quick derivation makes a text that holds no histogram.

## Design notes

A latency is read in whole microseconds, of which 64 bits are kept. It takes more than half a
million years to see the difference.
-/

namespace ActionPolicy

/-- A latency as it is counted: whole microseconds, in 64 bits. -/
def Duration.countedMicros (d : Duration) : Nat := d.nanos / 1000 % UInt64.size

/-- Something that is counted. -/
inductive MetricsEvent where
  | lookup (hit : Bool)
  | expiration
  | versionMismatch
  | eviction
  | transformError
  /-- A sweep that removed so many entries. -/
  | sweep (removed : Nat)
  /-- A derivation that took so long. -/
  | derivation (took : Duration)
  deriving DecidableEq, Repr

namespace CacheMetrics

/-- Count an event. -/
def note (m : CacheMetrics) : MetricsEvent → CacheMetrics
  | .lookup hit => m.recordLookup hit
  | .expiration => m.recordExpiration
  | .versionMismatch => m.recordVersionMismatch
  | .eviction => m.recordEviction
  | .transformError => m.recordTransformError
  | .sweep removed => m.recordSweep removed
  | .derivation took => m.recordDerivation took.countedMicros

/-- The counters after some events. -/
def recorded (events : List MetricsEvent) : CacheMetrics := events.foldl note zero

end CacheMetrics

/-- How long the derivations among some events took. -/
def latencies (events : List MetricsEvent) : List Duration :=
  events.filterMap fun
    | .derivation took => some took
    | _ => none

/-- The latencies between two bounds, in microseconds. -/
structure LatencyBand where
  /-- The upper bound as it is exported, in seconds. -/
  label : String
  lower : Nat
  upper : Option Nat
  deriving DecidableEq, Repr

namespace LatencyBand

/-- Less than a millisecond. -/
def first : LatencyBand := ⟨"0.001", 0, some 1000⟩

/-- A tenth of a second and more. -/
def last : LatencyBand := ⟨"+Inf", 100000, none⟩

/-- The bands, each beginning where the one before it ends. -/
def all : List LatencyBand :=
  [first, ⟨"0.005", 1000, some 5000⟩, ⟨"0.01", 5000, some 10000⟩, ⟨"0.05", 10000, some 50000⟩,
    ⟨"0.1", 50000, some 100000⟩, last]

/-- A latency is below the upper bound. -/
def below (band : LatencyBand) (micros : Nat) : Bool := band.upper.all (micros < ·)

/-- A latency is between the bounds. -/
def contains (band : LatencyBand) (micros : Nat) : Bool := band.lower ≤ micros && band.below micros

/-- A latency, to the nanosecond, is below the upper bound. -/
def covers (band : LatencyBand) (d : Duration) : Bool := band.upper.all (d.nanos < · * 1000)

/-- The bands up to one. -/
def upTo (band : LatencyBand) : List LatencyBand := all.filter (·.lower ≤ band.lower)

/-- The series that is exported for a band. -/
def series (band : LatencyBand) : String :=
  CacheMetrics.seriesName "flowpolicy_derivation_latency_bucket" (some ("le", band.label))

end LatencyBand

/-- A text holds the histogram of some latencies: each sample counts the latencies below its upper
bound, and that of the last band counts all derivations. -/
structure IsHistogram (text : String) (took : List Duration) : Prop where
  sample : ∀ band ∈ LatencyBand.all,
    Exposition.value? text band.series = some (took.countP band.covers)
  total : Exposition.value? text LatencyBand.last.series =
    Exposition.value? text "flowpolicy_derivations_total"

/-! ### Counting -/

theorem Duration.countedMicros_le (d : Duration) : d.countedMicros ≤ d.nanos / 1000 :=
  Nat.mod_le _ _

namespace LatencyBand

variable {band : LatencyBand} {d : Duration}

/-- Whole microseconds are enough to tell what is below a bound. -/
theorem below_countedMicros (hd : d.nanos / 1000 < UInt64.size) :
    band.below d.countedMicros = band.covers d := by
  have hcounted : d.countedMicros = d.nanos / 1000 := Nat.mod_eq_of_lt hd
  unfold below covers
  cases band.upper with
  | none => rfl
  | some bound =>
    rw [Option.all_some, Option.all_some, hcounted, decide_eq_decide]
    omega

theorem contains_last {n : Nat} : last.contains n = true ↔ 100000 ≤ n := by
  rw [contains, Bool.and_eq_true, decide_eq_true_iff]
  exact and_iff_left rfl

/-- Of a latency that is no less than the greatest finite bound only the last band tells. -/
theorem contains_eq_covers_of_le (h : band ∈ all) (hd : 100000 ≤ d.countedMicros) :
    band.contains d.countedMicros = band.covers d := by
  have hle := d.countedMicros_le
  simp only [all, List.mem_cons, List.not_mem_nil, or_false] at h
  rw [Bool.eq_iff_iff]
  rcases h with rfl | rfl | rfl | rfl | rfl | rfl
  case inr.inr.inr.inr.inr => exact iff_of_true (contains_last.mpr hd) rfl
  all_goals
    simp only [first, contains, below, covers, Option.all_some, Bool.and_eq_true,
      decide_eq_true_eq]
    omega

/-- A latency below a bound is in exactly one of the bands up to there. -/
theorem countP_upTo (h : band ∈ all) (n : Nat) :
    band.upTo.countP (·.contains n) = if band.below n then 1 else 0 := by
  simp only [all, List.mem_cons, List.not_mem_nil, or_false] at h
  rcases h with rfl | rfl | rfl | rfl | rfl | rfl <;>
    simp [upTo, all, first, last, contains, below, List.countP_cons] <;> grind

/-- One more latency counts once in every band that it is in. -/
theorem sum_countP_cons (bands : List LatencyBand) (n : Nat) (micros : List Nat) :
    (bands.map fun b => (n :: micros).countP b.contains).sum =
      bands.countP (·.contains n) + (bands.map fun b => micros.countP b.contains).sum := by
  induction bands with
  | nil => rfl
  | cons b bands ih =>
    simp only [List.map_cons, List.sum_cons, List.countP_cons] at ih ⊢
    omega

/-- The latencies below a bound are those in the bands up to there. -/
theorem sum_countP_upTo (h : band ∈ all) (micros : List Nat) :
    (band.upTo.map fun b => micros.countP b.contains).sum = micros.countP band.below := by
  induction micros with
  | nil => simp
  | cons n micros ih => rw [sum_countP_cons, ih, countP_upTo h, List.countP_cons, Nat.add_comm]

end LatencyBand

namespace LatencyBuckets

open LatencyBand

/-- The buckets count the latencies between their bounds. -/
def Tallies (b : LatencyBuckets) (micros : List Nat) : Prop :=
  b.samples = all.map fun band => (band.label, micros.countP band.contains)

theorem Tallies.record {b : LatencyBuckets} {micros : List Nat} (h : b.Tallies micros) (n : Nat) :
    (b.record n).Tallies (micros ++ [n]) := by
  unfold Tallies at h ⊢
  simp only [samples, all, first, last, List.map_cons, List.map_nil, List.cons.injEq,
    Prod.mk.injEq, true_and, and_true, List.countP_append, List.countP_singleton, contains, below,
    Option.all_some, Option.all_none] at h ⊢
  unfold LatencyBuckets.record
  grind

end LatencyBuckets

namespace CacheMetrics

open Exposition LatencyBand

variable {m : CacheMetrics} {took : List Duration}

/-- The counters tell how many derivations there were, and how long they took. -/
structure Tallies (m : CacheMetrics) (took : List Duration) : Prop where
  derivations : m.counts.derivations = took.length
  latency : m.latency.Tallies (took.map Duration.countedMicros)

theorem Tallies.note (h : m.Tallies took) (event : MetricsEvent) :
    (m.note event).Tallies (took ++ latencies [event]) := by
  cases event with
  | derivation d =>
    refine ⟨?_, ?_⟩
    · show m.counts.derivations + 1 = (took ++ [d]).length
      rw [h.derivations, List.length_append, List.length_singleton]
    · show (m.latency.record d.countedMicros).Tallies ((took ++ [d]).map Duration.countedMicros)
      rw [List.map_append]
      exact h.latency.record d.countedMicros
  | lookup hit =>
    show (m.recordLookup hit).Tallies (took ++ [])
    rw [List.append_nil]
    cases hit <;> exact ⟨h.derivations, h.latency⟩
  | expiration | versionMismatch | eviction | transformError | sweep removed =>
    rw [← List.append_nil took] at h
    exact ⟨h.derivations, h.latency⟩

theorem tallies_recorded (events : List MetricsEvent) :
    (recorded events).Tallies (latencies events) := by
  induction events using List.reverseRecOn with
  | nil => exact ⟨rfl, rfl⟩
  | append_singleton events event ih =>
    have hlatencies : latencies (events ++ [event]) = latencies events ++ latencies [event] :=
      List.filterMap_append
    rw [recorded, List.foldl_append, hlatencies]
    exact ih.note event

/-! ### Exporting -/

theorem Tallies.value?_total (h : m.Tallies took) :
    value? m.exposition "flowpolicy_derivations_total" = some took.length := by
  rw [← h.derivations]
  exact value?_exposition (by simp [series, seriesOf, seriesName])

theorem Tallies.value?_band (h : m.Tallies took) {band : LatencyBand} (hband : band ∈ all) :
    value? m.exposition band.series =
      some (took.countP fun d => band.contains d.countedMicros) := by
  have hsample : (band.label, took.countP fun d => band.contains d.countedMicros) ∈
      m.latency.samples := by
    rw [h.latency]
    refine List.mem_map.mpr ⟨band, hband, ?_⟩
    rw [List.countP_map]
    rfl
  refine value?_exposition ?_
  -- The latencies are the last of six families.
  simp only [series, List.mem_append]
  refine Or.inr (Or.inr (Or.inr (Or.inr (Or.inr ?_))))
  exact List.mem_map.mpr ⟨_, List.mem_map.mpr ⟨_, hsample, rfl⟩, rfl⟩

/-- The samples make a histogram only if every latency is counted in the last band. -/
theorem Tallies.isHistogram_iff (h : m.Tallies took) :
    IsHistogram m.exposition took ↔ ∀ d ∈ took, 100000 ≤ d.countedMicros := by
  constructor
  · intro hist
    have hlast := hist.total
    rw [h.value?_band (by simp [all]), h.value?_total, Option.some_inj,
      List.countP_eq_length] at hlast
    intro d hd
    exact contains_last.mp (hlast d hd)
  · intro hslow
    refine ⟨fun band hband => ?_, ?_⟩
    · rw [h.value?_band hband]
      exact congrArg some (List.countP_congr fun d hd => by
        rw [contains_eq_covers_of_le hband (hslow d hd)])
    · rw [h.value?_band (by simp [all]), h.value?_total, Option.some_inj, List.countP_eq_length]
      intro d hd
      exact contains_last.mpr (hslow d hd)

/-- Whatever is counted, the exported text has the number of derivations, and in each sample of the
latencies those between two bounds. The samples up to a bound sum up to the derivations that took
less, as long as none took so long that 64 bits do not hold its microseconds. So the samples are
those of a histogram exactly if every derivation is counted as a tenth of a second or more. -/
theorem exposition_latencies (events : List MetricsEvent) :
    let text := (recorded events).exposition
    let took := latencies events
    value? text "flowpolicy_derivations_total" = some took.length ∧
      (∀ band ∈ all, value? text band.series =
        some (took.countP fun d => band.contains d.countedMicros)) ∧
      ((∀ d ∈ took, d.nanos / 1000 < UInt64.size) → ∀ band ∈ all,
        (band.upTo.map fun b => (value? text b.series).getD 0).sum = took.countP band.covers) ∧
      (IsHistogram text took ↔ ∀ d ∈ took, 100000 ≤ d.countedMicros) := by
  intro text took
  have htallies : (recorded events).Tallies took := tallies_recorded events
  refine ⟨htallies.value?_total, fun band => htallies.value?_band, fun hshort band hband => ?_,
    htallies.isHistogram_iff⟩
  have hsamples : (band.upTo.map fun b => (value? text b.series).getD 0) =
      band.upTo.map fun b => (took.map Duration.countedMicros).countP b.contains := by
    refine List.map_congr_left fun b hb => ?_
    rw [htallies.value?_band (List.mem_filter.mp hb).1, Option.getD_some, List.countP_map]
    rfl
  rw [hsamples, sum_countP_upTo hband, List.countP_map]
  exact List.countP_congr fun d hd => by
    rw [Function.comp_apply, below_countedMicros (hshort d hd)]

/-- Derivations of half a millisecond, of seven milliseconds and of two tenths of a second, with a
lookup between them. -/
def threeDerivations : List MetricsEvent :=
  [.derivation ⟨500000⟩, .lookup false, .derivation ⟨7000000⟩, .derivation ⟨200000000⟩]

theorem exposition_latencies_three :
    let text := (recorded threeDerivations).exposition
    let took := latencies threeDerivations
    first ∈ all ∧ value? text first.series = some 1 ∧
      (∀ d ∈ took, d.nanos / 1000 < UInt64.size) ∧
      (last.upTo.map fun b => (value? text b.series).getD 0).sum = 3 ∧
      ¬IsHistogram text took := by
  obtain ⟨-, hsample, hsum, hiff⟩ := exposition_latencies threeDerivations
  have hshort : ∀ d ∈ latencies threeDerivations, d.nanos / 1000 < UInt64.size := by decide
  have hfirst : first ∈ all := by decide
  refine ⟨hfirst, hsample first hfirst, hshort, hsum hshort last (by decide), ?_⟩
  rw [hiff]
  decide

/-- After one derivation of half a millisecond the text says that one took less than a millisecond,
and that none took any time at all. -/
theorem exposition_quick :
    let text := (recorded [.derivation ⟨500000⟩]).exposition
    value? text first.series = some 1 ∧ value? text last.series = some 0 ∧
      value? text "flowpolicy_derivations_total" = some 1 ∧
      ¬IsHistogram text (latencies [.derivation ⟨500000⟩]) := by
  have htallies := tallies_recorded [.derivation ⟨500000⟩]
  have hfirst := htallies.value?_band (show first ∈ all by decide)
  have hlast := htallies.value?_band (show last ∈ all by decide)
  refine ⟨hfirst, hlast, htallies.value?_total, ?_⟩
  rw [htallies.isHistogram_iff]
  decide

end CacheMetrics

end ActionPolicy
