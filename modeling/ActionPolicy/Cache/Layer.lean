import ActionPolicy.Cache.Basic

/-!
# Cached functions

A function of which the results are held in a cache, in one namespace and under identifiers made
from its argument. If the function may fail, what it fails with is not held.

## Main definitions

* `CachedFunction` – the function and how its results are held.
* `CachedFunction.key` – the key that the result for an argument is held under.
* `CachedFunction.call` – the result for an argument, found or derived.
* `WrappedFunction` – such a function, which may be one that fails.
* `WrappedFunction.call`, `WrappedFunction.finish` – a call in one piece, and the end of a
  derivation.
-/

namespace ActionPolicy

/-- A function with a place for its results. -/
structure CachedFunction (A V : Type) where
  ns : Namespace
  /-- The identifier of the result for an argument. -/
  identifier : A → String
  /-- How long a result stays valid, if not as long as the cache says. -/
  ttl : Option Duration
  derive : A → V

namespace CachedFunction

variable {A V : Type}

/-- The key that the result for an argument is held under. -/
def key (f : CachedFunction A V) (a : A) : CacheKey := ⟨f.ns, f.identifier a⟩

/-- The result for an argument; tells whether it was derived. -/
def call (f : CachedFunction A V) (c : Cache V) (now : Instant) (a : A) (micros : Nat) :
    Cache V × V × Bool :=
  c.getOrInsert now now (f.key a) f.ttl none (f.derive a) micros

end CachedFunction

/-- A function of which the results are held in a cache. If it fails, that is not held. -/
inductive WrappedFunction (A E V : Type) where
  | sure (f : CachedFunction A V)
  | fallible (f : CachedFunction A (Except E V))

namespace WrappedFunction

variable {A E V : Type}

/-- Both kinds seen as functions that may fail. -/
def common : WrappedFunction A E V → CachedFunction A (Except E V)
  | sure f => ⟨f.ns, f.identifier, f.ttl, fun a => .ok (f.derive a)⟩
  | fallible f => f

def key (w : WrappedFunction A E V) (a : A) : CacheKey := w.common.key a

/-- What the derivation for an argument gives. -/
def outcome (w : WrappedFunction A E V) (a : A) : Except E V := w.common.derive a

/-- A derivation ends. -/
def finish (w : WrappedFunction A E V) (c : Cache V) (now : Instant) (a : A) (micros : Nat) :
    Cache V :=
  match w.outcome a with
  | .ok v => c.complete now (w.key a) v w.common.ttl none micros
  | .error _ => c.abandon micros

/-- A call that nothing comes into: the result for an argument, and whether it was derived. -/
def call : WrappedFunction A E V → Cache V → Instant → A → Nat → Cache V × Except E V × Bool
  | sure f, c, now, a, micros =>
    let (c, v, derived) := f.call c now a micros
    (c, .ok v, derived)
  | fallible f, c, now, a, micros =>
    match c.get now (f.key a) none with
    | (c, some v) => (c, .ok v, false)
    | (c, none) =>
      match f.derive a with
      | .ok v => (c.complete now (f.key a) v f.ttl none micros, .ok v, true)
      | .error e => (c.abandon micros, .error e, true)

end WrappedFunction

end ActionPolicy
