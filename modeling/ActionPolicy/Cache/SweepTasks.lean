import ActionPolicy.Cache.Calls

/-!
# The tasks of a sweeper

Sweeps are made by tasks that run beside everything else. Each start makes a new task and stops the
one before it, and the end of a cache stops the last one. A task runs when it is polled, which may
be at any time after its tick has fallen due.

## Main definitions

* `SweepTask`, `TendedCache` – a task, and a cache with all tasks ever started for it.
* `TendedCache.start`, `TendedCache.poll`, `TendedCache.destroy` – what becomes of the tasks.
* `TendedCache.step`, `TendedCache.run` – an event, and a sequence of events.

## Design notes

A stopped task does not run again. A task that runs for the first time sweeps nothing; its ticks are
counted from then on, each a period after the one before it, even if the task is polled late. The
cache outlives its tasks.
-/

namespace ActionPolicy

/-- A task that sweeps a cache. -/
structure SweepTask where
  /-- When its next tick falls due. Before it has run it has none. -/
  due : Option Nat
  /-- It does not run again. -/
  stopped : Bool

def SweepTask.stop (t : SweepTask) : SweepTask := { t with stopped := true }

/-- A cache with the tasks that were started to sweep it. -/
structure TendedCache (V : Type) where
  cache : Cache V
  /-- Time that has passed for sweeps, in nanoseconds. -/
  elapsed : Nat
  tasks : List SweepTask
  /-- The place of the task that the next start or the end of the cache aborts. -/
  handle : Option Nat
  /-- The sweeps that were made: by which task, and for the tick that fell due when. -/
  log : List (Nat × Nat)

/-- What can happen to a cache and its tasks. -/
inductive TendedEvent (V : Type) where
  | start (timer : Bool)
  /-- The task at a place runs, if it may. -/
  | poll (place : Nat) (now : Instant)
  | elapse (nanos : Nat)
  | destroy
  | call (made : CacheCall V) (ordinary : made.op.ordinary = true)

namespace TendedCache

variable {V : Type}

/-- No task was started. -/
def ofCache (c : Cache V) : TendedCache V := ⟨c, 0, [], none, []⟩

/-- The time between two sweeps, in nanoseconds. -/
def period (s : TendedCache V) : Nat := s.cache.config.sweepInterval.period.nanos

/-- The tasks when the one behind the handle has been stopped. -/
def aborted (s : TendedCache V) : List SweepTask :=
  match s.handle with
  | some i => s.tasks.modify i SweepTask.stop
  | none => s.tasks

/-- Start a new task in place of the last one. That takes a timer, and a cache that is not
destroyed. -/
def start (s : TendedCache V) (timer : Bool) : TendedCache V × Bool :=
  if s.cache.destroyed || !timer then (s, false)
  else
    ({ s with
      tasks := s.aborted ++ [⟨none, false⟩]
      handle := some s.tasks.length }, true)

/-- Let the task at a place run. -/
def poll (s : TendedCache V) (i : Nat) (now : Instant) : TendedCache V :=
  match s.tasks[i]? with
  | none | some ⟨_, true⟩ => s
  | some ⟨none, false⟩ => { s with tasks := s.tasks.set i ⟨some (s.elapsed + s.period), false⟩ }
  | some ⟨some d, false⟩ =>
    if s.elapsed < d then s
    else if s.cache.destroyed then { s with tasks := s.tasks.set i ⟨some d, true⟩ }
    else
      { s with
        cache := s.cache.sweep now
        tasks := s.tasks.set i ⟨some (d + s.period), false⟩
        log := s.log ++ [(i, d)] }

/-- Destroy the cache and stop the last task. -/
def destroy (s : TendedCache V) : TendedCache V :=
  { s with cache := s.cache.destroy, tasks := s.aborted, handle := none }

def step (s : TendedCache V) : TendedEvent V → TendedCache V
  | .start timer => (s.start timer).1
  | .poll i now => s.poll i now
  | .elapse nanos => { s with elapsed := s.elapsed + nanos }
  | .destroy => s.destroy
  | .call made _ => { s with cache := (s.cache.step made).1 }

def run (s : TendedCache V) (events : List (TendedEvent V)) : TendedCache V :=
  events.foldl step s

end TendedCache

end ActionPolicy
