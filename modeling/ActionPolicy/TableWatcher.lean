import ActionPolicy.Engine
import ActionPolicy.RuleTable.Source

/-!
# Table watchers

A watcher loads a rule table again and again and publishes it when its version has changed. Before
that it drops the decisions that were made from the table published before.

## Main definitions

* `TableWatcher` – the published table, and when it is checked next.
* `TableWatcher.start` – publishes the first table, or an empty one if there is none.
* `TableWatcher.check`, `TableWatcher.publishes?` – one check, and the table that it publishes.
* `TableWatcher.run` – lets time pass and makes the checks that fall due.

## Design notes

Checks begin at once and are repeated after every interval. They end with the first check after the
reader of the table is gone. A table that cannot be loaded changes nothing.
-/

namespace ActionPolicy

/-- The namespaces with values that are made from the rule table. -/
def tableDerived : List Namespace := [.workflowButtons, .permissionConfig]

/-- A watcher of a rule table. -/
structure TableWatcher where
  interval : Duration
  /-- The version of the last table that was loaded, if one was. -/
  lastVersion : Option String
  published : RuleTable
  /-- It has not been seen by its reader. -/
  unseen : Bool
  hasReader : Bool
  /-- Time that has passed, in nanoseconds. -/
  elapsed : Nat
  /-- When the next check falls due; none if checks have ended. -/
  due : Option Nat

namespace TableWatcher

/-- A watcher that publishes the loaded table, or an empty one if there is none. -/
def start (interval : Duration) (loaded : Except TableError RuleTable) : TableWatcher :=
  let watcher (table : RuleTable) (version : Option String) : TableWatcher :=
    ⟨interval, version, table, false, true, 0, some 0⟩
  match loaded with
  | .ok table => watcher table (some table.version)
  | .error _ => watcher .empty none

/-- The time between two checks, in nanoseconds. -/
def period (w : TableWatcher) : Nat := w.interval.period.nanos

/-- The reader has seen the published table. -/
def markSeen (w : TableWatcher) : TableWatcher := { w with unseen := false }

/-- A loaded table is published if its version has changed, after what was made from the last one
is dropped from the engine, if there is one. -/
def check (w : TableWatcher) (engine : Option Engine) (loaded : Except TableError RuleTable) :
    TableWatcher × Option Engine :=
  match loaded with
  | .error _ => (w, engine)
  | .ok table =>
    if w.lastVersion = some table.version then (w, engine)
    else
      ({ w with lastVersion := some table.version, published := table, unseen := true },
        engine.map fun e => e.dropNamespaces tableDerived)

/-- The table that a check publishes, as found by a reader who has seen what was published
before. -/
def publishes? (w : TableWatcher) (loaded : Except TableError RuleTable) : Option RuleTable :=
  let after := (w.markSeen.check none loaded).1
  if after.unseen then some after.published else none

/-- Make the checks that fall due up to an end, at most `fuel` of them. -/
def checkUntil (finish : Nat) (loaded : Except TableError RuleTable) :
    Nat → TableWatcher → Option Engine → TableWatcher × Option Engine
  | 0, w, engine => (w, engine)
  | fuel + 1, w, engine =>
    match w.due with
    | none => (w, engine)
    | some t =>
      if finish < t then (w, engine)
      else
        let (w, engine) := w.check engine loaded
        let due := if w.hasReader then some (t + w.period) else none
        checkUntil finish loaded fuel { w with due := due } engine

/-- Let time pass. All the while, loading gives the same result. -/
def run (w : TableWatcher) (engine : Option Engine) (loaded : Except TableError RuleTable)
    (d : Duration) : TableWatcher × Option Engine :=
  let finish := w.elapsed + d.nanos
  let (w, engine) := checkUntil finish loaded (d.nanos / w.period + 2) w engine
  ({ w with elapsed := finish }, engine)

/-- The reader is gone. -/
def dropReader (w : TableWatcher) : TableWatcher := { w with hasReader := false }

/-- The published table, as long as there is a reader. -/
def current? (w : TableWatcher) : Option RuleTable :=
  if w.hasReader then some w.published else none

/-- There is a table that the reader has not seen; none if there is no reader. -/
def changed? (w : TableWatcher) : Option Bool := if w.hasReader then some w.unseen else none

/-- Checks have ended. -/
def finished (w : TableWatcher) : Bool := w.due.isNone

end TableWatcher

end ActionPolicy
