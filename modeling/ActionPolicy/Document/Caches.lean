import ActionPolicy.Cache.Basic
import ActionPolicy.Json.Basic

/-!
# Documents of caches

How what can be seen of a cache is written.

## Main definitions

* `CacheStats.toJson` – what a cache holds in numbers.
* `EntryInfo.toJson` – what is known about an entry.
* `MetricsSnapshot.toJson` – the counters.
-/

namespace ActionPolicy

/-- What a cache holds in numbers, with a member for each namespace that has some. -/
def CacheStats.toJson (s : CacheStats) : Json :=
  .object [("size", .nat s.size), ("capacity", .nat s.capacity),
    ("by_namespace", .object (s.byNamespace.map fun (ns, n) => (ns.name, .nat n)))]

/-- What is known about an entry. -/
def EntryInfo.toJson (i : EntryInfo) : Json :=
  .object [("stored_at", .string i.storedAt.text), ("touched_at", .string i.touchedAt.text),
    ("expires_at", .string i.expiresAt.text), ("version", .ofOption .string i.version),
    ("encoded", .bool i.encoded)]

/-- The counters. -/
def MetricsSnapshot.toJson (s : MetricsSnapshot) : Json :=
  .object [("hits", .nat s.hits), ("misses", .nat s.misses), ("expirations", .nat s.expirations),
    ("version_mismatches", .nat s.versionMismatches), ("evictions", .nat s.evictions),
    ("transform_errors", .nat s.transformErrors), ("sweeps", .nat s.sweeps),
    ("swept_entries", .nat s.sweptEntries), ("derivations", .nat s.derivations)]

end ActionPolicy
