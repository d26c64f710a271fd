import ActionPolicy.Cache.Session
import ActionPolicy.TableWatcher

/-!
# Engines with a watcher

An engine is in use while its watcher loads the table again and again. What can be seen of them is
every answer, and what the cache holds and has counted after it.

## Main definitions

* `WatchedEngine`, `WatchedEvent` – an engine with its watcher, and what can happen to them.
* `WatchedEngine.step`, `WatchedEngine.run` – the state after an event or a sequence of events.
* `EngineOp` – the calls that resolve a decision, and everything else that can happen.
* `EngineAnswer`, `EngineSight` – what is answered, and what can be seen then.
* `WatchedEngine.perform`, `WatchedEngine.after`, `WatchedEngine.trace` – one operation, the state
  after a sequence of operations, and what can be seen of it.

## Design notes

A derivation that runs while nothing else happens is part of one operation. A call with a derivation
that leaves the engine open to others begins with one operation and ends with another one, which
stores a decision or gives up.
-/

namespace ActionPolicy

/-- An engine in use, and the watcher that drops decisions from it. -/
structure WatchedEngine where
  engine : Engine
  /-- The calls that derive their decisions. -/
  underWay : List UnderWay
  watcher : TableWatcher

/-- What can happen to an engine and its watcher. -/
inductive WatchedEvent where
  /-- The cache is used, by calls of the engine or by others. -/
  | use (event : SessionEvent Decision)
  | invalidate (k : CacheKey)
  | invalidateNamespace (ns : Namespace)
  | clearTaskRelated (taskId : String)
  | clearFormRelated
  | startSweeper (timer : Bool)
  | elapse (now : Instant) (d : Duration)
  | destroy
  /-- The watcher loads the table. -/
  | poll (loaded : Except TableError RuleTable)
  /-- The reader sees the published table. -/
  | seen

namespace WatchedEngine

/-- A watcher is attached to an engine that is not in use yet. -/
def start (e : Engine) (interval : Duration) (first : Except TableError RuleTable) :
    WatchedEngine := ⟨e, [], .start interval first⟩

def session (s : WatchedEngine) : CacheSession Decision := ⟨s.engine.cache, s.underWay⟩

def step (s : WatchedEngine) : WatchedEvent → WatchedEngine
  | .use event =>
    let used := (s.session.step event).1
    { s with engine := s.engine.withCache used.cache, underWay := used.underWay }
  | .invalidate k => { s with engine := (s.engine.invalidate k).1 }
  | .invalidateNamespace ns => { s with engine := (s.engine.invalidateNamespace ns).1 }
  | .clearTaskRelated taskId => { s with engine := s.engine.clearTaskRelated taskId }
  | .clearFormRelated => { s with engine := s.engine.clearFormRelated }
  | .startSweeper timer =>
    { s with engine := { s.engine with swept := (s.engine.swept.startSweeper timer).1 } }
  | .elapse now d => { s with engine := { s.engine with swept := s.engine.swept.run now d } }
  | .destroy => { s with engine := s.engine.destroy }
  | .poll loaded =>
    let (watcher, engine) := s.watcher.check (some s.engine) loaded
    { s with engine := engine.getD s.engine, watcher := watcher }
  | .seen => { s with watcher := s.watcher.markSeen }

def run (s : WatchedEngine) (events : List WatchedEvent) : WatchedEngine := events.foldl step s

end WatchedEngine

/-! ### Operations -/

/-- What can be asked of an engine, or happen to it and its watcher. -/
inductive EngineOp where
  | resolveCached (now : Instant) (k : CacheKey) (ctx : Context) (table : RuleTable)
    (ttl : Option Duration) (version : Option String) (micros : Nat)
  /-- A decision is derived if none is found, in one piece. -/
  | resolveWith (now : Instant) (k : CacheKey) (ttl : Option Duration) (version : Option String)
    (derived : Decision) (micros : Nat)
  /-- The same begins, and others may come in until it ends. -/
  | ask (now : Instant) (id : CallId) (ttl : Option Duration) (version : Option String)
  | other (event : WatchedEvent)

inductive EngineAnswer where
  | done
  /-- The cache answers, to a call of the engine or to others. -/
  | cache (answer : CacheAnswer Decision)
  | existed (yes : Bool)
  | removed (n : Nat)
  /-- Sweeps are on, or could not be begun. -/
  | sweeping (yes : Bool)
  | published (table : Option RuleTable)

/-- What can be seen when something has been answered. -/
structure EngineSight where
  answer : EngineAnswer
  stats : CacheStats
  metrics : CacheMetrics
  destroyed : Bool

namespace WatchedEngine

/-- What is answered to an event. -/
def answer (s : WatchedEngine) : WatchedEvent → EngineAnswer
  | .use event => .cache (s.session.step event).2
  | .invalidate k => .existed (s.engine.invalidate k).2
  | .invalidateNamespace ns => .removed (s.engine.invalidateNamespace ns).2
  | .startSweeper timer => .sweeping (s.engine.swept.startSweeper timer).2
  | .poll loaded => .published (s.watcher.publishes? loaded)
  | _ => .done

/-- The state after an operation, and the answer. -/
def perform (s : WatchedEngine) : EngineOp → WatchedEngine × EngineAnswer
  | .resolveCached now k ctx table ttl version micros =>
    let (e, d, fresh) := s.engine.resolveCached now k ctx table ttl version micros
    ({ s with engine := e }, .cache (.derived d fresh))
  | .resolveWith now k ttl version derived micros =>
    let (e, d, fresh) := s.engine.resolveWith now k ttl version derived micros
    ({ s with engine := e }, .cache (.derived d fresh))
  | .ask now id ttl version =>
    let event := .use (.ask now id (id.key.ns.ttlOr ttl) version)
    (s.step event, s.answer event)
  | .other event => (s.step event, s.answer event)

/-- The state after a sequence of operations. -/
def after (s : WatchedEngine) (ops : List EngineOp) : WatchedEngine :=
  ops.foldl (fun s op => (s.perform op).1) s

def sight (s : WatchedEngine) (answer : EngineAnswer) : EngineSight :=
  ⟨answer, s.engine.cache.stats, s.engine.cache.metrics, s.engine.cache.destroyed⟩

/-- What can be seen of a sequence of operations. -/
def trace (s : WatchedEngine) : List EngineOp → List EngineSight
  | [] => []
  | op :: ops => (s.perform op).1.sight (s.perform op).2 :: (s.perform op).1.trace ops

end WatchedEngine

end ActionPolicy
