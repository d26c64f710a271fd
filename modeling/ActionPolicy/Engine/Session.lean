import ActionPolicy.Cache.Calls
import ActionPolicy.TableWatcher

/-!
# Sessions of an engine

An engine is asked for decisions, by several callers at a time, and between and within their calls
entries are dropped, time passes and tables are loaded.

## Main definitions

* `Inquiry` – what a versioned call asks for.
* `EngineEvent` – what can happen to an engine.
* `EngineSession` – an engine with the calls that are deriving their decisions.
* `EngineSession.step`, `EngineSession.run` – the session after an event or a sequence of events,
  and the decisions that were given.

## Design notes

A derivation runs while the cache is open to others. So a call has two steps, and a call in one
piece is one more event. Each event comes with what the clock reads then, which need not go forward.
A session starts from any engine, and a watcher that loads a table may be any watcher.
-/

namespace ActionPolicy

/-- What a versioned call asks for. -/
structure Inquiry where
  /-- The key of the decision. -/
  key : CacheKey
  /-- What the decision is made from. -/
  version : String
  context : Context
  table : RuleTable
  /-- How long the decision stays valid, if the namespace does not have to say. -/
  ttl : Option Duration

namespace Inquiry

/-- The decision made without a cache. -/
def decision (q : Inquiry) (resolver : PriorityTable) : Decision :=
  resolver.resolve q.context q.table

end Inquiry

/-- What can happen to an engine, apart from values stored by others. -/
inductive EngineEvent where
  | call (now : Instant) (q : Inquiry) (micros : Nat)
  | ask (now : Instant) (q : Inquiry)
  /-- The call at a place among those that found nothing ends. -/
  | derived (place : Nat) (now : Instant) (micros : Nat)
  /-- The cache is asked for something that stores no value. -/
  | cache (now : Instant) (op : CacheOp Decision) (quiet : op.writes = false)
  | invalidate (k : CacheKey)
  /-- The decisions of a namespace are dropped. -/
  | invalidateNamespace (ns : Namespace)
  /-- What depends on a task is dropped. -/
  | clearTaskRelated (taskId : String)
  /-- What depends on how forms are defined is dropped. -/
  | clearFormRelated
  | startSweeper (timer : Bool)
  | elapse (now : Instant) (d : Duration)
  /-- Time passes for a watcher, which loads a table. -/
  | watch (w : TableWatcher) (loaded : Except TableError RuleTable) (d : Duration)
  | destroy

/-- An engine in use. -/
structure EngineSession where
  engine : Engine
  /-- The calls that found nothing and derive their decisions. -/
  pending : List Inquiry

namespace EngineSession

/-- No call is under way. -/
def start (e : Engine) : EngineSession := ⟨e, []⟩

/-- The session with its engine changed. -/
def withEngine (s : EngineSession) (e : Engine) : EngineSession := { s with engine := e }

/-- The session after an event, and the decision that a call is given by it. -/
def step (s : EngineSession) : EngineEvent → EngineSession × Option (Inquiry × Decision)
  | .call now q micros =>
    let (e, d, _) := s.engine.resolveCached now q.key q.context q.table q.ttl (some q.version)
      micros
    (s.withEngine e, some (q, d))
  | .ask now q =>
    match s.engine.cache.get now q.key (some q.version) with
    | (c, some d) => (s.withEngine (s.engine.withCache c), some (q, d))
    | (c, none) => (⟨s.engine.withCache c, s.pending ++ [q]⟩, none)
  | .derived place now micros =>
    match s.pending[place]? with
    | some q =>
      let d := q.decision s.engine.resolver
      (⟨s.engine.complete now q.key d q.ttl (some q.version) micros, s.pending.eraseIdx place⟩,
        some (q, d))
    | none => (s, none)
  | .cache now op _ => (s.withEngine (s.engine.withCache (s.engine.cache.step ⟨now, op⟩).1), none)
  | .invalidate k => (s.withEngine (s.engine.invalidate k).1, none)
  | .invalidateNamespace ns => (s.withEngine (s.engine.invalidateNamespace ns).1, none)
  | .clearTaskRelated taskId => (s.withEngine (s.engine.clearTaskRelated taskId), none)
  | .clearFormRelated => (s.withEngine s.engine.clearFormRelated, none)
  | .startSweeper timer =>
    (s.withEngine { s.engine with swept := (s.engine.swept.startSweeper timer).1 }, none)
  | .elapse now d => (s.withEngine { s.engine with swept := s.engine.swept.run now d }, none)
  | .watch w loaded d =>
    (s.withEngine ((w.run (some s.engine) loaded d).2.getD s.engine), none)
  | .destroy => (s.withEngine s.engine.destroy, none)

/-- The session after a sequence of events, and the decisions that calls were given, in order. -/
def run (s : EngineSession) : List EngineEvent → EngineSession × List (Inquiry × Decision)
  | [] => (s, [])
  | event :: events =>
    let (s, answer) := s.step event
    let (s, answers) := s.run events
    (s, answer.toList ++ answers)

end EngineSession

end ActionPolicy
