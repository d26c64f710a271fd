import ActionPolicy.Proofs.Engine.Operations

/-!
# What an engine asks of its cache

Whatever happens to an engine and its watcher is for the cache a sequence of calls. So an engine in
use has a history, which is that of its cache.

## Main definitions

* `SweptCache.sweeps` – how many sweeps fall due while time passes.
* `WatchedEngine.calls`, `WatchedEngine.callsOf` – what an event, and a sequence of operations, asks
  of the cache.
* `WatchedEngine.history` – what a sequence of operations shows of the cache.

## Main statements

* `SweptCache.cache_run`, `Engine.cache_dropNamespaces` – sweeps and dropped namespaces as calls.
* `WatchedEngine.cache_step`, `WatchedEngine.cache_after` – the cache after an event, and after a
  sequence of operations, is the one after the calls.

## Design notes

A call that does not look at the clock is taken to be made at its beginning.
-/

namespace ActionPolicy

namespace SweptCache

variable {V : Type}

/-- How many sweeps fall due up to an end, at most `fuel` of them. -/
def sweepsUntil (finish period : Nat) : Nat → Option Nat → Nat
  | 0, _ => 0
  | _ + 1, none => 0
  | fuel + 1, some t =>
    if finish < t then 0 else sweepsUntil finish period fuel (some (t + period)) + 1

/-- How many sweeps fall due while time passes. -/
def sweeps (s : SweptCache V) (d : Duration) : Nat :=
  sweepsUntil (s.elapsed + d.nanos) s.period (d.nanos / s.period + 1) s.due

theorem cache_sweepUntil (s : SweptCache V) (finish : Nat) (now : Instant) (fuel : Nat) :
    (sweepUntil finish now fuel s).cache =
      s.cache.run (List.replicate (sweepsUntil finish s.period fuel s.due) ⟨now, .sweep⟩) := by
  induction fuel generalizing s with
  | zero => rfl
  | succ fuel ih =>
    unfold sweepUntil sweepsUntil
    cases hdue : s.due with
    | none => rfl
    | some t =>
      by_cases hlate : finish < t
      · simp only [hlate, if_true]
        rfl
      · simp only [hlate, if_false]
        rw [ih]
        rfl

theorem cache_run (s : SweptCache V) (now : Instant) (d : Duration) :
    (s.run now d).cache = s.cache.run (List.replicate (s.sweeps d) ⟨now, .sweep⟩) :=
  s.cache_sweepUntil _ now _

end SweptCache

namespace Engine

/-- The calls that drop some namespaces. -/
def clearing (namespaces : List Namespace) : List (CacheCall Decision) :=
  namespaces.map fun ns => ⟨.epoch, .clearNamespace ns⟩

theorem cache_dropNamespaces (e : Engine) (namespaces : List Namespace) :
    (e.dropNamespaces namespaces).cache = e.cache.run (clearing namespaces) := by
  induction namespaces generalizing e with
  | nil => rfl
  | cons ns rest ih => exact ih (e.invalidateNamespace ns).1

end Engine

namespace WatchedEngine

/-- What an event asks of the cache. -/
def calls (s : WatchedEngine) : WatchedEvent → List (CacheCall Decision)
  | .use event => (s.session.made? event).toList
  | .invalidate k => [⟨.epoch, .delete k⟩]
  | .invalidateNamespace ns => Engine.clearing [ns]
  | .clearTaskRelated taskId =>
    ⟨.epoch, .delete (.buttons taskId)⟩ :: Engine.clearing [.processInfo]
  | .clearFormRelated => Engine.clearing [.formConfig, .formData, .permissionConfig]
  | .startSweeper _ => []
  | .elapse now d => List.replicate (s.engine.swept.sweeps d) ⟨now, .sweep⟩
  | .destroy => [⟨.epoch, .destroy⟩]
  | .poll loaded =>
    if (s.watcher.publishes? loaded).isSome then Engine.clearing tableDerived else []
  | .seen => []

/-- What a sequence of operations asks of the cache. -/
def callsOf (s : WatchedEngine) : List EngineOp → List (CacheCall Decision)
  | [] => []
  | op :: ops => s.calls (op.event s.engine.resolver) ++ (s.perform op).1.callsOf ops

/-- What a sequence of operations shows of the cache. -/
def history (s : WatchedEngine) (ops : List EngineOp) : List (CacheEvent Decision) :=
  s.engine.cache.history (s.callsOf ops)

theorem cache_step (s : WatchedEngine) (event : WatchedEvent) :
    (s.step event).engine.cache = s.engine.cache.run (s.calls event) := by
  cases event with
  | use event =>
    have hsession := s.session.cache_step event
    show (s.session.step event).1.cache = s.engine.cache.run (s.session.made? event).toList
    rw [hsession]
    cases s.session.made? event <;> rfl
  | invalidate k | invalidateNamespace ns | destroy | seen => rfl
  | clearTaskRelated taskId =>
    exact (s.engine.invalidate (.buttons taskId)).1.cache_dropNamespaces [.processInfo]
  | clearFormRelated => exact s.engine.cache_dropNamespaces _
  | startSweeper timer => exact s.engine.swept.cache_startSweeper timer
  | elapse now d => exact s.engine.swept.cache_run now d
  | poll loaded =>
    simp only [calls]
    cases h : s.watcher.publishes? loaded with
    | none =>
      rw [s.step_poll_of_not_publishes h]
      rfl
    | some table =>
      rw [s.step_poll_of_publishes h]
      exact s.engine.cache_dropNamespaces tableDerived

/-- After a sequence of operations the cache is the one after what they ask of it. -/
theorem cache_after (s : WatchedEngine) (ops : List EngineOp) :
    (s.after ops).engine.cache = s.engine.cache.run (s.callsOf ops) := by
  induction ops generalizing s with
  | nil => rfl
  | cons op ops ih =>
    have hfirst : (s.perform op).1.engine.cache =
        s.engine.cache.run (s.calls (op.event s.engine.resolver)) := by
      rw [perform_eq]
      exact s.cache_step _
    rw [callsOf, Cache.run_append, ← hfirst]
    exact ih (s.perform op).1

theorem after_append (s : WatchedEngine) (ops more : List EngineOp) :
    s.after (ops ++ more) = (s.after ops).after more := List.foldl_append

end WatchedEngine

end ActionPolicy
