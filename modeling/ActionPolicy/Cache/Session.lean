import ActionPolicy.Cache.Calls

/-!
# Sessions of a cache

A call that finds no value derives one, and while it does so the cache is open to others. In a
session any number of such calls are under way, beside all other calls.

## Main definitions

* `CallId`, `UnderWay` – what tells derivations apart, and what is remembered of each.
* `SessionEvent` – a call in one piece, or a step of one that derives a value.
* `CacheSession.step`, `CacheSession.run`, `CacheSession.trace` – one event, the state after a
  sequence of events, and what was answered.

## Design notes

A lookup names the call by an identity of its own, and so does the end of the derivation. The end
of a call that is not under way does nothing: the call found a value and has returned it, or it has
ended before.
-/

namespace ActionPolicy

/-- What tells calls apart that derive values. -/
structure CallId where
  key : CacheKey
  /-- Tells it from other calls for the key. -/
  number : Nat
  deriving DecidableEq

/-- A call that has found nothing and derives its value. -/
structure UnderWay where
  id : CallId
  ttl : Option Duration
  version : Option String

/-- What can happen to a cache while values are derived. -/
inductive SessionEvent (V : Type) where
  /-- A call that nothing comes into. -/
  | call (call : CacheCall V)
  /-- A call begins with a lookup. -/
  | ask (now : Instant) (id : CallId) (ttl : Option Duration) (version : Option String)
  | derived (now : Instant) (id : CallId) (value : V) (micros : Nat)
  /-- A derivation fails, or whoever waits for it has gone. -/
  | abandoned (now : Instant) (id : CallId) (micros : Nat)

/-- A cache in use. -/
structure CacheSession (V : Type) where
  cache : Cache V
  /-- The calls that derive their values. -/
  underWay : List UnderWay

namespace CacheSession

variable {V : Type}

def start (c : Cache V) : CacheSession V := ⟨c, []⟩

/-- The call under way that has an identity. -/
def find? (s : CacheSession V) (id : CallId) : Option UnderWay :=
  s.underWay.find? fun u => u.id = id

/-- The calls under way but the one that has an identity. -/
def others (s : CacheSession V) (id : CallId) : List UnderWay :=
  s.underWay.filter fun u => u.id ≠ id

/-- The session after an event, and the answer. -/
def step (s : CacheSession V) : SessionEvent V → CacheSession V × CacheAnswer V
  | .call call =>
    let (c, answer) := s.cache.step call
    ({ s with cache := c }, answer)
  | .ask now id ttl version =>
    let (c, found) := s.cache.get now id.key version
    (⟨c, if found.isSome then s.underWay else s.underWay ++ [⟨id, ttl, version⟩]⟩, .value found)
  | .derived now id value micros =>
    match s.find? id with
    | some u =>
      (⟨s.cache.complete now id.key value u.ttl u.version micros, s.others id⟩,
        .derived value true)
    | none => (s, .done)
  | .abandoned _ id micros =>
    match s.find? id with
    | some _ => (⟨s.cache.abandon micros, s.others id⟩, .done)
    | none => (s, .done)

def run (s : CacheSession V) (events : List (SessionEvent V)) : CacheSession V :=
  events.foldl (fun s event => (s.step event).1) s

/-- The events with their answers. -/
def trace (s : CacheSession V) :
    List (SessionEvent V) → List (SessionEvent V × CacheAnswer V)
  | [] => []
  | event :: events => (event, (s.step event).2) :: (s.step event).1.trace events

end CacheSession

end ActionPolicy
