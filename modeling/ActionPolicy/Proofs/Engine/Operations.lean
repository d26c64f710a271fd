import ActionPolicy.Proofs.Engine.Invalidation

/-!
# What operations of an engine store

An operation of an engine is for its cache an event, and only some events store a decision.

## Main definitions

* `EngineOp.event` – what an operation does to the cache.
* `WatchedEngine.deposits` – what a sequence of operations stores.

## Main statements

* `WatchedEngine.perform_eq` – a call of the engine is a use of its cache, with the time to live
  that the namespace of its key recommends.
* `WatchedEngine.gains_after` – after a sequence of operations the cache holds only what was stored
  last, and what it held before.
-/

namespace ActionPolicy

namespace EngineOp

/-- What an operation does to an engine that resolves in the given order. -/
def event (resolver : PriorityTable) : EngineOp → WatchedEvent
  | .resolveCached now k ctx table ttl version micros =>
    .use (.call ⟨now,
      .getOrInsert k (k.ns.ttlOr ttl) version (resolver.resolve ctx table) now micros⟩)
  | .resolveWith now k ttl version derived micros =>
    .use (.call ⟨now, .getOrInsert k (k.ns.ttlOr ttl) version derived now micros⟩)
  | .ask now id ttl version => .use (.ask now id (id.key.ns.ttlOr ttl) version)
  | .other event => event

end EngineOp

namespace WatchedEngine

/-- What an event stores. -/
def deposit? (s : WatchedEngine) : WatchedEvent → Option (Deposit Decision)
  | .use event => s.session.deposit? event
  | _ => none

/-- What a sequence of operations stores, in order. -/
def deposits (s : WatchedEngine) : List EngineOp → List (Deposit Decision)
  | [] => []
  | op :: ops =>
    (s.deposit? (op.event s.engine.resolver)).toList ++ (s.perform op).1.deposits ops

theorem perform_eq (s : WatchedEngine) (op : EngineOp) :
    s.perform op = (s.step (op.event s.engine.resolver), s.answer (op.event s.engine.resolver)) := by
  cases op <;> rfl

theorem resolver_step (s : WatchedEngine) (event : WatchedEvent) :
    (s.step event).engine.resolver = s.engine.resolver := by
  cases event with
  | use event => rfl
  | _ => exact (thins_step fun _ => WatchedEvent.noConfusion).resolver

theorem resolver_after (s : WatchedEngine) (ops : List EngineOp) :
    (s.after ops).engine.resolver = s.engine.resolver := by
  induction ops generalizing s with
  | nil => rfl
  | cons op ops ih =>
    have hfirst : (s.perform op).1.engine.resolver = s.engine.resolver := by
      rw [perform_eq]
      exact s.resolver_step _
    exact (ih (s.perform op).1).trans hfirst

/-! ### What is stored -/

theorem deposit?_call (s : WatchedEngine) (call : CacheCall Decision) :
    s.deposit? (.use (.call call)) = s.engine.cache.deposit? call := rfl

theorem gains_step (s : WatchedEngine) (event : WatchedEvent) :
    s.engine.cache.Gains (s.deposit? event).toList (s.step event).engine.cache := by
  cases event with
  | use event => exact s.session.gains_step event
  | _ => exact (thins_step fun _ => WatchedEvent.noConfusion).cache.gains

/-- What the cache holds in the end, it held at first, or an operation has stored it. -/
theorem gains_after (s : WatchedEngine) (ops : List EngineOp) :
    s.engine.cache.Gains (s.deposits ops) (s.after ops).engine.cache := by
  induction ops generalizing s with
  | nil => exact (Cache.Thins.refl _).gains
  | cons op ops ih =>
    have hfirst : s.engine.cache.Gains (s.deposit? (op.event s.engine.resolver)).toList
        (s.perform op).1.engine.cache := by
      rw [perform_eq]
      exact s.gains_step _
    exact hfirst.trans (ih (s.perform op).1)

end WatchedEngine

end ActionPolicy
