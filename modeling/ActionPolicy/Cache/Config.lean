import ActionPolicy.Time.Duration

/-!
# Cache settings

## Main definitions

* `CacheConfig` – what a cache is told when it is made.
* `CacheConfig.limit` – how many entries it holds at most, which is one at least.
-/

namespace ActionPolicy

/-- Settings of a cache. -/
structure CacheConfig where
  /-- How many entries are held at most. -/
  capacity : Nat
  /-- How long an entry stays valid if nothing else is said. -/
  defaultTtl : Duration
  /-- How often expired entries are swept out. -/
  sweepInterval : Duration
  /-- Values are held in encoded form. -/
  compress : Bool
  deriving DecidableEq, Repr

namespace CacheConfig

/-- The usual settings: a hundred entries, five minutes, a sweep every minute, values as they
are. -/
def usual : CacheConfig := ⟨100, .ofSecs 300, .ofSecs 60, false⟩

instance : Inhabited CacheConfig := ⟨usual⟩

/-- At least one entry is held. -/
def limit (c : CacheConfig) : Nat := max c.capacity 1

end CacheConfig

end ActionPolicy
