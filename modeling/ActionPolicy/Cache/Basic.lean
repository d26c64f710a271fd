import ActionPolicy.Cache.Codec
import ActionPolicy.Cache.Config
import ActionPolicy.Cache.Metrics
import ActionPolicy.Cache.Store

/-!
# Caches

A bounded store of values that age, may carry a version, and may be held in encoded form. Every
operation takes its readings of the clock and gives the new state of the cache with its result.

## Main definitions

* `Cache` – settings, codec, store and counters.
* `Cache.set`, `Cache.tryGet`, `Cache.delete`, `Cache.clearNamespace`, `Cache.clear`,
  `Cache.purgeExpired`, `Cache.destroy` – its operations.
* `Cache.stats`, `Cache.info` – what can be seen without changing anything.
* `Cache.complete`, `Cache.abandon` – the two ends of a derivation that a miss began.
* `Cache.getOrInsert` – a lookup and, after a miss, a derivation that nothing comes into.

## Design notes

An entry past its expiry counts as absent whether or not a sweep has removed it. A value that
cannot be encoded is stored as it is; one that cannot be decoded is dropped.
-/

namespace ActionPolicy

/-- Why a lookup found nothing usable. -/
inductive MissReason where
  | absent
  /-- The entry is past its expiry. -/
  | expired
  /-- The entry has another version than the one asked for. -/
  | versionMismatch
  | undecodable
  deriving DecidableEq, Repr

/-- What a cache holds in numbers. -/
structure CacheStats where
  size : Nat
  capacity : Nat
  /-- How many there are in each namespace that has some. -/
  byNamespace : List (Namespace × Nat)
  deriving DecidableEq, Repr

/-- What is known about an entry apart from its value. -/
structure EntryInfo where
  storedAt : Instant
  /-- When it was last stored or found. -/
  touchedAt : Instant
  /-- The last instant at which it is valid. -/
  expiresAt : Instant
  /-- What it was made from. -/
  version : Option String
  /-- It is held in encoded form. -/
  encoded : Bool
  deriving DecidableEq, Repr

/-- A cache of values of one type. -/
structure Cache (V : Type) where
  config : CacheConfig
  /-- How values are held, if not as they are. -/
  codec : Option (Codec V)
  store : Store V
  metrics : CacheMetrics
  /-- It has been destroyed: nothing sweeps it any more. -/
  destroyed : Bool

namespace Cache

variable {V : Type}

/-- A new cache. A capacity of zero is raised to one. -/
def new (config : CacheConfig) (codec : Option (Codec V)) : Cache V :=
  { config := { config with capacity := config.limit }
    codec := codec
    store := .empty
    metrics := .zero
    destroyed := false }

/-- A value as it is held, and whether encoding it failed. -/
def encode (c : Cache V) (value : V) : Stored V × Bool :=
  match c.codec with
  | none => (.raw value, false)
  | some codec =>
    match codec.encode value with
    | some bytes => (.encoded bytes, false)
    | none => (.raw value, true)

/-- The value that is held, if it can be decoded. -/
def decode (c : Cache V) : Stored V → Option V
  | .raw value => some value
  | .encoded bytes => c.codec.bind fun codec => codec.decode bytes

/-- The store with room for a new entry under a key, and whether an entry had to go. -/
def makeRoom (c : Cache V) (k : CacheKey) : Store V × Bool :=
  if (c.store.get? k).isSome then (c.store, false)
  else if c.config.capacity ≤ c.store.size then
    match c.store.evictOldest with
    | some s => (s, true)
    | none => (c.store, false)
  else (c.store, false)

/-- Store a value. Without a time to live of its own it has the one of the settings. -/
def set (c : Cache V) (now : Instant) (k : CacheKey) (value : V) (ttl : Option Duration)
    (version : Option String) : Cache V :=
  let (stored, failed) := c.encode value
  let (store, evicted) := c.makeRoom k
  let expiresAt := now.plus (ttl.getD c.config.defaultTtl)
  let metrics := if failed then c.metrics.recordTransformError else c.metrics
  { c with
    store := store.insert k stored now expiresAt version
    metrics := if evicted then metrics.recordEviction else metrics }

/-- The cache without the entry under a key, after counting why. -/
def drop (c : Cache V) (k : CacheKey) (count : CacheMetrics → CacheMetrics) : Cache V :=
  { c with store := c.store.remove k, metrics := count c.metrics }

/-- A requested version and a stored one are both given, and differ. -/
def conflicting (wanted stored : Option String) : Bool :=
  match wanted, stored with
  | some w, some s => w != s
  | _, _ => false

/-- Look a value up, without counting the lookup itself. -/
def lookup (c : Cache V) (now : Instant) (k : CacheKey) (version : Option String) :
    Cache V × Except MissReason V :=
  match c.store.get? k with
  | none => (c, .error .absent)
  | some e =>
    if e.expiredAt now then (c.drop k .recordExpiration, .error .expired)
    else if conflicting version e.version then
      (c.drop k .recordVersionMismatch, .error .versionMismatch)
    else
      match c.decode e.value with
      | none => (c.drop k .recordTransformError, .error .undecodable)
      | some value => ({ c with store := c.store.touch k now }, .ok value)

/-- Look a value up; if there is none that can be used, say why. -/
def tryGet (c : Cache V) (now : Instant) (k : CacheKey) (version : Option String) :
    Cache V × Except MissReason V :=
  let (c, outcome) := c.lookup now k version
  ({ c with metrics := c.metrics.recordLookup outcome.toBool }, outcome)

/-- Look a value up. -/
def get (c : Cache V) (now : Instant) (k : CacheKey) (version : Option String) :
    Cache V × Option V :=
  let (c, outcome) := c.tryGet now k version
  (c, outcome.toOption)

/-- Look a value up and tell only whether there is one. -/
def has (c : Cache V) (now : Instant) (k : CacheKey) (version : Option String) :
    Cache V × Bool :=
  let (c, outcome) := c.tryGet now k version
  (c, outcome.toBool)

/-- Remove the entry under a key; tells whether there was one. -/
def delete (c : Cache V) (k : CacheKey) : Cache V × Bool :=
  ({ c with store := c.store.remove k }, (c.store.get? k).isSome)

/-- Remove the entries of a namespace; tells how many there were. -/
def clearNamespace (c : Cache V) (ns : Namespace) : Cache V × Nat :=
  let (store, removed) := c.store.retain fun k _ => k.ns != ns
  ({ c with store := store }, removed)

/-- Remove all entries. -/
def clear (c : Cache V) : Cache V := { c with store := c.store.clear }

/-- Remove the entries past their expiry; tells how many there were. -/
def purgeExpired (c : Cache V) (now : Instant) : Cache V × Nat :=
  let (store, removed) := c.store.retain fun _ e => !e.expiredAt now
  ({ c with store := store }, removed)

/-- Remove the entries past their expiry and count a sweep. -/
def sweep (c : Cache V) (now : Instant) : Cache V :=
  let (c, removed) := c.purgeExpired now
  { c with metrics := c.metrics.recordSweep removed }

/-- Remove all entries for good. -/
def destroy (c : Cache V) : Cache V := { c.clear with destroyed := true }

/-- What the cache holds in numbers. -/
def stats (c : Cache V) : CacheStats :=
  ⟨c.store.size, c.config.capacity, c.store.countByNamespace⟩

/-- What is known about the entry under a key, valid or not. -/
def info (c : Cache V) (k : CacheKey) : Option EntryInfo :=
  (c.store.get? k).map fun e =>
    ⟨e.storedAt, e.touchedAt, e.expiresAt, e.version, e.value.isEncoded⟩

/-! ### Derivations

A call that finds no value derives one. Other operations may come between the lookup and the end
of the derivation, so the call is made of steps: a lookup with `Cache.get`, and after a miss either
a completion or an abandonment. The time that a derivation takes is counted in microseconds. -/

/-- A derivation ends without a value; it is counted, and nothing is stored. -/
def abandon (c : Cache V) (micros : Nat) : Cache V :=
  { c with metrics := c.metrics.recordDerivation micros }

/-- A derivation ends with a value, which is stored. -/
def complete (c : Cache V) (now : Instant) (k : CacheKey) (value : V) (ttl : Option Duration)
    (version : Option String) (micros : Nat) : Cache V :=
  (c.abandon micros).set now k value ttl version

/-- The value that is found, or else the derived one, which is stored; tells whether it was
derived. The clock reads `now` at the lookup and `later` at the end of the derivation. -/
def getOrInsert (c : Cache V) (now later : Instant) (k : CacheKey) (ttl : Option Duration)
    (version : Option String) (derived : V) (micros : Nat) : Cache V × V × Bool :=
  match c.get now k version with
  | (c, some value) => (c, value, false)
  | (c, none) => (c.complete later k derived ttl version micros, derived, true)

end Cache

end ActionPolicy
