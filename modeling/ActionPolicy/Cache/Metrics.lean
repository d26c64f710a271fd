import ActionPolicy.Decimal.Binary64

/-!
# Cache metrics

Counters of what a cache does, and the text they are exported as.

## Main definitions

* `MetricsSnapshot` – the counters.
* `LatencyBuckets` – derivations by the time they took.
* `CacheMetrics` – both, with one function for each event.
* `CacheMetrics.hitRate` – the share of lookups that found something.
* `CacheMetrics.exposition` – the counters in the text format of a metrics server.
-/

namespace ActionPolicy

/-- Counters of cache events. -/
structure MetricsSnapshot where
  hits : Nat
  misses : Nat
  expirations : Nat
  /-- Entries dropped because another version was asked for. -/
  versionMismatches : Nat
  /-- Entries that made room for another. -/
  evictions : Nat
  /-- Failures to encode or decode a value. -/
  transformErrors : Nat
  sweeps : Nat
  /-- Entries removed by sweeps, counted in 64 bits. -/
  sweptEntries : Nat
  /-- Derivations of values that were not found. -/
  derivations : Nat
  deriving DecidableEq, Repr, Inhabited

/-- Derivations by how long they took, in milliseconds. -/
structure LatencyBuckets where
  /-- Less than one. -/
  under1 : Nat
  /-- One to less than five. -/
  from1to5 : Nat
  /-- Five to less than ten. -/
  from5to10 : Nat
  /-- Ten to less than fifty. -/
  from10to50 : Nat
  /-- Fifty to less than a hundred. -/
  from50to100 : Nat
  /-- A hundred and more. -/
  over100 : Nat
  deriving DecidableEq, Repr, Inhabited

namespace LatencyBuckets

/-- Count a derivation that took so many microseconds. -/
def record (b : LatencyBuckets) (micros : Nat) : LatencyBuckets :=
  if micros < 1000 then { b with under1 := b.under1 + 1 }
  else if micros < 5000 then { b with from1to5 := b.from1to5 + 1 }
  else if micros < 10000 then { b with from5to10 := b.from5to10 + 1 }
  else if micros < 50000 then { b with from10to50 := b.from10to50 + 1 }
  else if micros < 100000 then { b with from50to100 := b.from50to100 + 1 }
  else { b with over100 := b.over100 + 1 }

/-- The buckets with their upper bounds in seconds. -/
def samples (b : LatencyBuckets) : List (String × Nat) :=
  [("0.001", b.under1), ("0.005", b.from1to5), ("0.01", b.from5to10), ("0.05", b.from10to50),
    ("0.1", b.from50to100), ("+Inf", b.over100)]

end LatencyBuckets

/-- Counters of what a cache does. -/
structure CacheMetrics where
  counts : MetricsSnapshot
  /-- Derivations by the time they took. -/
  latency : LatencyBuckets
  deriving DecidableEq, Repr, Inhabited

namespace CacheMetrics

/-- Nothing has happened yet. -/
def zero : CacheMetrics := ⟨⟨0, 0, 0, 0, 0, 0, 0, 0, 0⟩, ⟨0, 0, 0, 0, 0, 0⟩⟩

/-- Change the counters of events. -/
def count (m : CacheMetrics) (f : MetricsSnapshot → MetricsSnapshot) : CacheMetrics :=
  { m with counts := f m.counts }

/-- A lookup found a value or did not. -/
def recordLookup (m : CacheMetrics) (hit : Bool) : CacheMetrics :=
  m.count fun c => if hit then { c with hits := c.hits + 1 } else { c with misses := c.misses + 1 }

/-- A lookup found an expired entry. -/
def recordExpiration (m : CacheMetrics) : CacheMetrics :=
  m.count fun c => { c with expirations := c.expirations + 1 }

/-- A lookup found an entry of another version. -/
def recordVersionMismatch (m : CacheMetrics) : CacheMetrics :=
  m.count fun c => { c with versionMismatches := c.versionMismatches + 1 }

/-- An entry made room for another. -/
def recordEviction (m : CacheMetrics) : CacheMetrics :=
  m.count fun c => { c with evictions := c.evictions + 1 }

/-- A value could not be encoded or decoded. -/
def recordTransformError (m : CacheMetrics) : CacheMetrics :=
  m.count fun c => { c with transformErrors := c.transformErrors + 1 }

/-- A sweep removed so many entries. Their count starts again from zero behind the last number of
64 bits. -/
def recordSweep (m : CacheMetrics) (removed : Nat) : CacheMetrics :=
  m.count fun c => { c with
    sweeps := c.sweeps + 1
    sweptEntries := (c.sweptEntries + removed) % UInt64.size }

/-- A derivation took so many microseconds. -/
def recordDerivation (m : CacheMetrics) (micros : Nat) : CacheMetrics :=
  { m.count fun c => { c with derivations := c.derivations + 1 } with
    latency := m.latency.record micros }

/-- The share of lookups that found something; none before the first lookup. -/
def hitRate (m : CacheMetrics) : Option Binary64 :=
  let total := m.counts.hits + m.counts.misses
  if total = 0 then none else some (.ofRatio false m.counts.hits total)

/-! ### Export -/

/-- One line with the value of a counter; the label, if there is one, tells it from others of the
same name. -/
def sampleLine (name : String) (label : Option (String × String)) (value : Nat) : String :=
  let labels := match label with
    | none => ""
    | some (key, text) => "\x7b" ++ key ++ "=\x22" ++ text ++ "\x22\x7d"
  name ++ labels ++ " " ++ toString value ++ "\n"

/-- The lines of one family of counters, headed by what they count. -/
def family (name help : String) (samples : List (Option (String × String) × Nat)) : String :=
  "# HELP " ++ name ++ " " ++ help ++ "\n# TYPE " ++ name ++ " counter\n" ++
    String.join (samples.map fun (label, value) => sampleLine name label value)

/-- The families of counters, in their order. -/
def families (m : CacheMetrics) : List String :=
  let c := m.counts
  [ family "flowpolicy_cache_lookups_total" "Cache lookups by outcome"
      [(some ("outcome", "hit"), c.hits), (some ("outcome", "miss"), c.misses)],
    family "flowpolicy_cache_removals_total" "Entries removed by cause"
      [(some ("cause", "expired"), c.expirations),
        (some ("cause", "version_mismatch"), c.versionMismatches),
        (some ("cause", "evicted"), c.evictions), (some ("cause", "swept"), c.sweptEntries)],
    family "flowpolicy_cache_transform_errors_total" "Recovered encode/decode failures"
      [(none, c.transformErrors)],
    family "flowpolicy_cache_sweeps_total" "Background sweeps run" [(none, c.sweeps)],
    family "flowpolicy_derivations_total" "Derivations run on cache miss" [(none, c.derivations)],
    family "flowpolicy_derivation_latency_bucket" "Derivation latency histogram"
      (m.latency.samples.map fun (bound, n) => (some ("le", bound), n)) ]

/-- The counters in the text format of a metrics server, families parted by an empty line. -/
def exposition (m : CacheMetrics) : String := "\n".intercalate m.families

end CacheMetrics

end ActionPolicy
