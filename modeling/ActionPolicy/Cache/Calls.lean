import ActionPolicy.Cache.Basic

/-!
# Calls to a cache

A cache is used by a sequence of calls. Each takes what the clock reads then, which need not go
forward from call to call.

## Main definitions

* `CacheOp`, `CacheCall` – what is asked of a cache, and when.
* `CacheOp.writes`, `CacheOp.ordinary` – what may store a value, and what its users ask for.
* `CacheAnswer` – what is answered.
* `Cache.step`, `Cache.run`, `Cache.trace` – one call, the state after a sequence of calls, and
  what can be seen of the sequence.

## Design notes

A call that derives what it does not find is one call as long as nothing else is asked of the cache
meanwhile. Otherwise it is made of a lookup and, when the derivation has ended, a completion or an
abandonment, with the other calls between them.
-/

namespace ActionPolicy

/-- What can be asked of a cache. -/
inductive CacheOp (V : Type) where
  | set (k : CacheKey) (value : V) (ttl : Option Duration) (version : Option String)
  | get (k : CacheKey) (version : Option String)
  /-- Look a value up, or learn why there is none. -/
  | tryGet (k : CacheKey) (version : Option String)
  /-- Look up whether there is a value. -/
  | has (k : CacheKey) (version : Option String)
  | delete (k : CacheKey)
  | clearNamespace (ns : Namespace)
  | clear
  | purgeExpired
  /-- The same, as a background sweep does it. -/
  | sweep
  | stats
  | info (k : CacheKey)
  /-- Find a value or derive and store it; the clock reads `later` when the derivation ends. -/
  | getOrInsert (k : CacheKey) (ttl : Option Duration) (version : Option String) (derived : V)
      (later : Instant) (micros : Nat)
  /-- A derivation that a miss began ends with a value. -/
  | complete (k : CacheKey) (derived : V) (ttl : Option Duration) (version : Option String)
      (micros : Nat)
  /-- A derivation that a miss began ends without a value. -/
  | abandon (micros : Nat)
  | destroy

namespace CacheOp

variable {V : Type}

/-- A value may be stored. -/
def writes : CacheOp V → Bool
  | set _ _ _ _ => true
  | getOrInsert _ _ _ _ _ _ => true
  | complete _ _ _ _ _ => true
  | _ => false

/-- It is neither a sweep nor the end of the cache. -/
def ordinary : CacheOp V → Bool
  | sweep => false
  | destroy => false
  | _ => true

end CacheOp

/-- What is asked of a cache, and what the clock reads then. -/
structure CacheCall (V : Type) where
  now : Instant
  op : CacheOp V

/-- What a cache answers. -/
inductive CacheAnswer (V : Type) where
  | done
  /-- The value that was found, if one was. -/
  | value (found : Option V)
  /-- The value that was found, or why none was. -/
  | outcome (result : Except MissReason V)
  /-- There was one, or was none. -/
  | existed (yes : Bool)
  | removed (n : Nat)
  | stats (numbers : CacheStats)
  /-- What is known about an entry, if there is one. -/
  | info (known : Option EntryInfo)
  /-- The value, and whether it had to be derived. -/
  | derived (value : V) (fresh : Bool)

namespace Cache

variable {V : Type}

/-- One call: the state after it, and the answer. -/
def step (c : Cache V) (call : CacheCall V) : Cache V × CacheAnswer V :=
  match call.op with
  | .set k value ttl version => (c.set call.now k value ttl version, .done)
  | .get k version => (c.get call.now k version).map id .value
  | .tryGet k version => (c.tryGet call.now k version).map id .outcome
  | .has k version => (c.has call.now k version).map id .existed
  | .delete k => (c.delete k).map id .existed
  | .clearNamespace ns => (c.clearNamespace ns).map id .removed
  | .clear => (c.clear, .done)
  | .purgeExpired => (c.purgeExpired call.now).map id .removed
  | .sweep => (c.sweep call.now, .done)
  | .stats => (c, .stats c.stats)
  | .info k => (c, .info (c.info k))
  | .getOrInsert k ttl version derived later micros =>
    (c.getOrInsert call.now later k ttl version derived micros).map id
      fun (value, fresh) => .derived value fresh
  | .complete k derived ttl version micros =>
    (c.complete call.now k derived ttl version micros, .done)
  | .abandon micros => (c.abandon micros, .done)
  | .destroy => (c.destroy, .done)

/-- The state after a sequence of calls. -/
def run (c : Cache V) (calls : List (CacheCall V)) : Cache V :=
  calls.foldl (fun c call => (c.step call).1) c

theorem run_append (c : Cache V) (calls more : List (CacheCall V)) :
    c.run (calls ++ more) = (c.run calls).run more := List.foldl_append

/-- What can be seen of a sequence of calls: every answer, and the counters after it. -/
def trace (c : Cache V) : List (CacheCall V) → List (CacheAnswer V × CacheMetrics)
  | [] => []
  | call :: rest =>
    let (c, answer) := c.step call
    (answer, c.metrics) :: c.trace rest

end Cache

end ActionPolicy
