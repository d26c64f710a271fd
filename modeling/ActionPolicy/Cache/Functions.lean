import ActionPolicy.Cache.Calls
import ActionPolicy.Cache.Layer

/-!
# Functions that share a cache

Several functions hold their results in one cache. Their calls come into each other, push each
other's results out of the cache, and end in any order, while others clear and sweep it.

## Main definitions

* `FunctionFamily`, `FunctionFamily.Request` – the functions that share a cache, and a call of one.
* `FamilyEvent`, `FamilySession.step` – what can happen, and what becomes of the cache and the
  calls.
-/

namespace ActionPolicy

variable {V : Type}

/-- Functions that hold their results in one cache. -/
structure FunctionFamily (ι V : Type) where
  Arg : ι → Type
  Failure : ι → Type
  fn : (i : ι) → WrappedFunction (Arg i) (Failure i) V

namespace FunctionFamily

variable {ι : Type}

/-- What a call asks for. -/
structure Request (F : FunctionFamily ι V) where
  index : ι
  arg : F.Arg index

namespace Request

variable {F : FunctionFamily ι V}

def key (q : F.Request) : CacheKey := (F.fn q.index).key q.arg

/-- What its derivation gives. -/
def outcome (q : F.Request) : Except (F.Failure q.index) V := (F.fn q.index).outcome q.arg

end Request

/-- What a call is answered. -/
structure Reply (F : FunctionFamily ι V) where
  request : F.Request
  result : Except (F.Failure request.index) V

end FunctionFamily

open FunctionFamily

/-- What can happen to a cache that functions share. -/
inductive FamilyEvent {ι : Type} (F : FunctionFamily ι V) where
  | call (now : Instant) (q : F.Request) (micros : Nat)
  /-- A call begins with a lookup. -/
  | ask (now : Instant) (q : F.Request)
  /-- The derivation at a place among those under way ends. -/
  | ended (place : Nat) (now : Instant) (micros : Nat)
  /-- Nobody waits any longer for the one at a place. -/
  | dropped (place : Nat) (micros : Nat)
  /-- Others call the cache. -/
  | other (call : CacheCall V)

/-- A cache that functions share, in use. -/
structure FamilySession {ι : Type} (F : FunctionFamily ι V) where
  cache : Cache V
  /-- The calls that derive their results. -/
  underWay : List F.Request
  /-- All derivations that have begun. -/
  derivations : List F.Request
  replies : List F.Reply
  /-- The calls that nobody waits for. -/
  dropped : List F.Request

namespace FamilySession

variable {ι : Type} {F : FunctionFamily ι V}

def start (F : FunctionFamily ι V) (c : Cache V) : FamilySession F := ⟨c, [], [], [], []⟩

def step (s : FamilySession F) : FamilyEvent F → FamilySession F
  | .call now q micros =>
    let (c, result, derived) := (F.fn q.index).call s.cache now q.arg micros
    { s with
      cache := c
      derivations := if derived then s.derivations ++ [q] else s.derivations
      replies := s.replies ++ [⟨q, result⟩] }
  | .ask now q =>
    match s.cache.get now q.key none with
    | (c, some v) => { s with cache := c, replies := s.replies ++ [⟨q, .ok v⟩] }
    | (c, none) =>
      { s with cache := c, underWay := s.underWay ++ [q], derivations := s.derivations ++ [q] }
  | .ended place now micros =>
    match s.underWay[place]? with
    | some q =>
      { s with
        cache := (F.fn q.index).finish s.cache now q.arg micros
        underWay := s.underWay.eraseIdx place
        replies := s.replies ++ [⟨q, q.outcome⟩] }
    | none => s
  | .dropped place micros =>
    match s.underWay[place]? with
    | some q =>
      { s with
        cache := s.cache.abandon micros
        underWay := s.underWay.eraseIdx place
        dropped := s.dropped ++ [q] }
    | none => s
  | .other call => { s with cache := (s.cache.step call).1 }

def run (s : FamilySession F) (events : List (FamilyEvent F)) : FamilySession F :=
  events.foldl step s

end FamilySession

end ActionPolicy
