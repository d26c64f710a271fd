import ActionPolicy.Cache.Basic

/-!
# Sweepers

A cache can be swept periodically. Time for sweeps is counted apart from the clock that entries
age by.

## Main definitions

* `SweptCache` – a cache, and its next sweep if one is to come.
* `SweptCache.startSweeper` – begins to sweep, or begins a new period.
* `SweptCache.run` – lets time pass and makes the sweeps that fall due.
-/

namespace ActionPolicy

/-- A cache that may be swept. -/
structure SweptCache (V : Type) where
  cache : Cache V
  /-- Time that has passed for sweeps, in nanoseconds. -/
  elapsed : Nat
  /-- When the next sweep falls due, if sweeps are on. -/
  due : Option Nat

namespace SweptCache

variable {V : Type}

/-- A cache that is not swept. -/
def ofCache (c : Cache V) : SweptCache V := ⟨c, 0, none⟩

/-- The time between two sweeps, in nanoseconds. -/
def period (s : SweptCache V) : Nat := s.cache.config.sweepInterval.period.nanos

theorem period_pos (s : SweptCache V) : 0 < s.period := Duration.period_pos _

/-- Begin to sweep, or begin a new period. That takes a timer, and a cache that is not
destroyed. -/
def startSweeper (s : SweptCache V) (timer : Bool) : SweptCache V × Bool :=
  if s.cache.destroyed || !timer then (s, false)
  else ({ s with due := some (s.elapsed + s.period) }, true)

/-- Destroy the cache; it is not swept any more. -/
def destroy (s : SweptCache V) : SweptCache V :=
  { s with cache := s.cache.destroy, due := none }

/-- Make the sweeps that fall due up to an end, at most `fuel` of them. -/
def sweepUntil (finish : Nat) (now : Instant) : Nat → SweptCache V → SweptCache V
  | 0, s => s
  | fuel + 1, s =>
    match s.due with
    | none => s
    | some t =>
      if finish < t then s
      else sweepUntil finish now fuel
        { s with cache := s.cache.sweep now, due := some (t + s.period) }

/-- Let time pass for sweeps. The clock that entries age by reads `now` all the while. -/
def run (s : SweptCache V) (now : Instant) (d : Duration) : SweptCache V :=
  let finish := s.elapsed + d.nanos
  { sweepUntil finish now (d.nanos / s.period + 1) s with elapsed := finish }

end SweptCache

end ActionPolicy
