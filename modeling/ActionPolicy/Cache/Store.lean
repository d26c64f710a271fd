import ActionPolicy.CacheKey
import ActionPolicy.Time.Instant

/-!
# Stores

What a cache holds: entries by key, and an index that tells in which order they were last touched.

## Main definitions

* `Stored`, `Entry` – a value at rest, with the times and the version that go with it.
* `Store` – the entries and the recency index.
* `Store.insert`, `Store.remove`, `Store.touch`, `Store.evictOldest`, `Store.retain` – its changes.

## Design notes

Every insertion and every touch takes a fresh tick. The index lists ticks in ascending order, so
the entry touched longest ago comes first, and a fresh tick goes to the end.
-/

namespace ActionPolicy

/-- A value at rest. -/
inductive Stored (V : Type) where
  | raw (value : V)
  | encoded (bytes : ByteArray)

namespace Stored

/-- The value is held in encoded form. -/
def isEncoded {V : Type} : Stored V → Bool
  | raw _ => false
  | encoded _ => true

end Stored

/-- A value with what is known about it. -/
structure Entry (V : Type) where
  value : Stored V
  storedAt : Instant
  /-- When it was last stored or found. -/
  touchedAt : Instant
  /-- The last instant at which it is valid. -/
  expiresAt : Instant
  /-- What it was made from. -/
  version : Option String
  /-- Its place in the order of touches. -/
  tick : Nat

namespace Entry

/-- The entry is not valid any more. -/
def expiredAt {V : Type} (e : Entry V) (now : Instant) : Bool := e.expiresAt < now

end Entry

/-- Entries by key, and the keys in the order in which they were last touched. -/
structure Store (V : Type) where
  entries : List (CacheKey × Entry V)
  /-- Ticks in ascending order with the keys that were touched then. -/
  recency : List (Nat × CacheKey)
  nextTick : Nat

namespace Store

variable {V : Type}

/-- Nothing is stored. -/
def empty : Store V := ⟨[], [], 0⟩

/-- How many entries there are. -/
def size (s : Store V) : Nat := s.entries.length

/-- The entry under a key. -/
def get? (s : Store V) (k : CacheKey) : Option (Entry V) := s.entries.lookup k

/-- Entries without the one under a key. -/
def eraseEntry (k : CacheKey) (entries : List (CacheKey × Entry V)) :
    List (CacheKey × Entry V) :=
  entries.filter fun (k', _) => k' != k

/-- A recency index without a tick. -/
def eraseTick (tick : Nat) (recency : List (Nat × CacheKey)) : List (Nat × CacheKey) :=
  recency.filter fun (t, _) => t != tick

/-- The store without the entry under a key. -/
def remove (s : Store V) (k : CacheKey) : Store V :=
  match s.get? k with
  | some e => { s with entries := eraseEntry k s.entries, recency := eraseTick e.tick s.recency }
  | none => s

/-- The entry under a key touched at a new tick. -/
def touch (s : Store V) (k : CacheKey) (now : Instant) : Store V :=
  match s.get? k with
  | some e =>
    { entries := s.entries.map fun (k', e') =>
        if k' = k then (k', { e' with tick := s.nextTick, touchedAt := now }) else (k', e')
      recency := eraseTick e.tick s.recency ++ [(s.nextTick, k)]
      nextTick := s.nextTick + 1 }
  | none => { s with nextTick := s.nextTick + 1 }

/-- The store without the entry touched longest ago, if there is one. -/
def evictOldest (s : Store V) : Option (Store V) :=
  match s.recency with
  | [] => none
  | (_, k) :: rest => some { s with entries := eraseEntry k s.entries, recency := rest }

/-- The store with a new entry under a key, at a new tick. An entry that was there is replaced. -/
def insert (s : Store V) (k : CacheKey) (value : Stored V) (now expiresAt : Instant)
    (version : Option String) : Store V :=
  let s := s.remove k
  { entries := s.entries ++ [(k, ⟨value, now, now, expiresAt, version, s.nextTick⟩)]
    recency := s.recency ++ [(s.nextTick, k)]
    nextTick := s.nextTick + 1 }

/-- The store with only those entries that a test keeps, and how many were removed. -/
def retain (s : Store V) (keep : CacheKey → Entry V → Bool) : Store V × Nat :=
  let kept := s.entries.filter fun (k, e) => keep k e
  let dropped := s.entries.filter fun (k, e) => !keep k e
  ({ s with
      entries := kept
      recency := s.recency.filter fun (t, _) => !dropped.any fun (_, e) => e.tick == t },
    s.entries.length - kept.length)

/-- The store without entries; ticks go on counting. -/
def clear (s : Store V) : Store V := { s with entries := [], recency := [] }

/-- How many entries there are in each namespace that has some, in the order of namespaces. -/
def countByNamespace (s : Store V) : List (Namespace × Nat) :=
  (Named.all (α := Namespace)).filterMap fun ns =>
    let n := s.entries.countP fun (k, _) => k.ns == ns
    if n = 0 then none else some (ns, n)

end Store

end ActionPolicy
