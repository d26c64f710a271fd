import ActionPolicy.Engine.Watched
import ActionPolicy.Proofs.Cache.Inclusion
import ActionPolicy.Proofs.Cache.Session
import Mathlib.Data.List.Destutter

/-!
# What a watcher publishes

A watcher loads the table at its start and then again and again, while its engine is in use. What
it has published by then, and what it does next, depends on the tables that could be loaded, and on
nothing else.

## Main definitions

* `WatchedEngine.publications` – the tables that are published by the checks of a sequence of
  events.
* `WatchedEngine.PollsAfter` – what the next check does, by the last table that was loaded.

## Main statements

* `TableWatcher.run_eq_check` – the checks that fall due while time passes do what one check does.
* `WatchedEngine.cons_publications` – a table is published unless it has the version of the one
  published before.
* `WatchedEngine.run_publishes` – what is published over a whole run.

## Design notes

The remembered version is that of the last table that was loaded. It is none after a start without
a table, although the empty table that is published then has a version.
-/

namespace ActionPolicy

def RuleTable.Differs (a b : RuleTable) : Prop := a.version ≠ b.version

instance : DecidableRel RuleTable.Differs := fun a b =>
  inferInstanceAs (Decidable (a.version ≠ b.version))

/-! ### Checks -/

namespace TableWatcher

variable {w : TableWatcher} {loaded : Except TableError RuleTable}

theorem publishes?_eq_some_iff {table : RuleTable} :
    w.publishes? loaded = some table ↔ loaded = .ok table ∧ w.lastVersion ≠ some table.version := by
  cases loaded with
  | error e => simp [publishes?, check, markSeen]
  | ok t =>
    by_cases h : w.lastVersion = some t.version
    · simp only [publishes?, check, markSeen, h, if_true, Except.ok.injEq]
      constructor
      · intro hnone
        contradiction
      · rintro ⟨rfl, hne⟩
        exact absurd rfl hne
    · simp only [publishes?, check, markSeen, h, if_false, if_true, Except.ok.injEq,
        Option.some.injEq]
      constructor
      · rintro rfl
        exact ⟨rfl, h⟩
      · exact fun ht => ht.1

theorem check_of_publishes {table : RuleTable} (h : w.publishes? loaded = some table)
    (engine : Option Engine) :
    w.check engine loaded =
      ({ w with lastVersion := some table.version, published := table, unseen := true },
        engine.map fun e => e.dropNamespaces tableDerived) := by
  obtain ⟨rfl, hne⟩ := publishes?_eq_some_iff.mp h
  simp only [check, hne, if_false]

theorem check_of_not_publishes (h : w.publishes? loaded = none) (engine : Option Engine) :
    w.check engine loaded = (w, engine) := by
  cases loaded with
  | error e => rfl
  | ok t =>
    by_cases hsame : w.lastVersion = some t.version
    · simp only [check, hsame, if_true]
    · rw [publishes?_eq_some_iff.mpr ⟨rfl, hsame⟩] at h
      contradiction

theorem publishes?_with_due (w : TableWatcher) (loaded : Except TableError RuleTable)
    (due : Option Nat) : publishes? { w with due := due } loaded = w.publishes? loaded := by
  ext table
  rw [publishes?_eq_some_iff, publishes?_eq_some_iff]

/-- A check publishes nothing right after one that has loaded the same. -/
theorem publishes?_check (w : TableWatcher) (engine : Option Engine)
    (loaded : Except TableError RuleTable) : (w.check engine loaded).1.publishes? loaded = none := by
  rw [Option.eq_none_iff_forall_ne_some]
  intro table htable
  obtain ⟨rfl, hne⟩ := publishes?_eq_some_iff.mp htable
  refine hne ?_
  by_cases h : w.lastVersion = some table.version
  · simp only [check, h, if_true]
  · simp only [check, h, if_false]

theorem checkUntil_of_not_publishes (finish fuel : Nat) (engine : Option Engine)
    (h : w.publishes? loaded = none) :
    ∃ due, checkUntil finish loaded fuel w engine = ({ w with due := due }, engine) := by
  induction fuel generalizing w with
  | zero => exact ⟨w.due, rfl⟩
  | succ fuel ih =>
    unfold checkUntil
    split
    · exact ⟨w.due, rfl⟩
    split
    · exact ⟨w.due, rfl⟩
    · rename_i t _ _
      rw [check_of_not_publishes h engine]
      obtain ⟨due, hdue⟩ := ih ((w.publishes?_with_due loaded _).trans h)
      exact ⟨due, hdue⟩

/-- However many checks fall due while time passes, they do what one check does, if one falls due
at all. -/
theorem run_eq_check (w : TableWatcher) (engine : Option Engine)
    (loaded : Except TableError RuleTable) (d : Duration) :
    ∃ due, w.run engine loaded d =
      if w.due.any fun t => t ≤ w.elapsed + d.nanos then
        ({ (w.check engine loaded).1 with elapsed := w.elapsed + d.nanos, due := due },
          (w.check engine loaded).2)
      else ({ w with elapsed := w.elapsed + d.nanos, due := due }, engine) := by
  refine ⟨(w.run engine loaded d).1.due, ?_⟩
  unfold run checkUntil
  cases hdue : w.due with
  | none => simp
  | some t =>
    by_cases hlate : w.elapsed + d.nanos < t
    · simp [hlate, Nat.not_le.mpr hlate]
    · have hdue' : t ≤ w.elapsed + d.nanos := Nat.not_lt.mp hlate
      have hkept := w.publishes?_check engine loaded
      cases hcheck : w.check engine loaded with
      | mk w' e' =>
        -- The checks after the first one find what it has published.
        rw [hcheck] at hkept
        obtain ⟨due, hrest⟩ := checkUntil_of_not_publishes (w.elapsed + d.nanos)
          (d.nanos / w.period + 1) e' ((w'.publishes?_with_due loaded
            (if w'.hasReader then some (t + w'.period) else none)).trans hkept)
        simp [hlate, hdue', hrest]

end TableWatcher

/-! ### Engines with a watcher -/

namespace WatchedEvent

/-- The table that a check has loaded. -/
def loaded? : WatchedEvent → Option RuleTable
  | poll loaded => loaded.toOption
  | _ => none

def isFailedPoll : WatchedEvent → Bool
  | poll loaded => loaded.toOption.isNone
  | _ => false

end WatchedEvent

/-- The tables that are loaded in a sequence of events. -/
def loadedTables (events : List WatchedEvent) : List RuleTable :=
  events.filterMap WatchedEvent.loaded?

namespace WatchedEngine

/-- The table that an event publishes, if it publishes one. -/
def publishes? (s : WatchedEngine) : WatchedEvent → Option RuleTable
  | .poll loaded => s.watcher.publishes? loaded
  | _ => none

def publications (s : WatchedEngine) : List WatchedEvent → List RuleTable
  | [] => []
  | event :: events => (s.publishes? event).toList ++ (s.step event).publications events

variable (s : WatchedEngine)

@[simp] theorem run_nil : s.run [] = s := rfl

theorem run_cons (event : WatchedEvent) (events : List WatchedEvent) :
    s.run (event :: events) = (s.step event).run events := rfl

/-! ### One event -/

theorem step_poll_of_not_publishes {loaded : Except TableError RuleTable}
    (h : s.watcher.publishes? loaded = none) : s.step (.poll loaded) = s := by
  simp only [step, TableWatcher.check_of_not_publishes h, Option.getD_some]

theorem step_poll_of_publishes {loaded : Except TableError RuleTable} {table : RuleTable}
    (h : s.watcher.publishes? loaded = some table) :
    s.step (.poll loaded) =
      { s with
        engine := s.engine.dropNamespaces tableDerived
        watcher := { s.watcher with
          lastVersion := some table.version, published := table, unseen := true } } := by
  simp only [step, TableWatcher.check_of_publishes h, Option.map_some, Option.getD_some]

theorem published_step (event : WatchedEvent) :
    (s.step event).watcher.published = (s.publishes? event).getD s.watcher.published := by
  cases event with
  | poll loaded =>
    simp only [publishes?]
    cases h : s.watcher.publishes? loaded with
    | none => rw [s.step_poll_of_not_publishes h, Option.getD_none]
    | some table => rw [s.step_poll_of_publishes h, Option.getD_some]
  | _ => rfl

theorem hasReader_step (event : WatchedEvent) :
    (s.step event).watcher.hasReader = s.watcher.hasReader := by
  cases event with
  | poll loaded =>
    cases h : s.watcher.publishes? loaded with
    | none => rw [s.step_poll_of_not_publishes h]
    | some table => rw [s.step_poll_of_publishes h]
  | _ => rfl

theorem lastVersion_step (event : WatchedEvent) :
    (s.step event).watcher.lastVersion =
      (event.loaded?.map RuleTable.version).or s.watcher.lastVersion := by
  cases event with
  | poll loaded =>
    cases h : s.watcher.publishes? loaded with
    | none =>
      rw [s.step_poll_of_not_publishes h]
      cases loaded with
      | error e => rfl
      | ok table =>
        -- The version is the remembered one, or else the table would be published.
        by_contra hne
        have hpublishes : s.watcher.publishes? (.ok table) = some table :=
          TableWatcher.publishes?_eq_some_iff.mpr ⟨rfl, hne⟩
        rw [h] at hpublishes
        contradiction
    | some table =>
      obtain ⟨rfl, -⟩ := TableWatcher.publishes?_eq_some_iff.mp h
      rw [s.step_poll_of_publishes h]
      rfl
  | _ => rfl

theorem publishes?_eq (event : WatchedEvent) :
    s.publishes? event =
      event.loaded?.filter fun table => s.watcher.lastVersion ≠ some table.version := by
  cases event with
  | poll loaded =>
    ext table
    rw [publishes?, TableWatcher.publishes?_eq_some_iff, Option.filter_eq_some_iff]
    cases loaded with
    | error e => simp [WatchedEvent.loaded?, Except.toOption]
    | ok t => simp [WatchedEvent.loaded?, Except.toOption]
  | _ => rfl

/-- Dropping the decisions of some namespaces leaves all others. -/
theorem entries_dropNamespaces (e : Engine) (namespaces : List Namespace) :
    (e.dropNamespaces namespaces).cache.store.entries =
      e.cache.store.entries.filter fun p => p.1.ns ∉ namespaces := by
  induction namespaces generalizing e with
  | nil => simp [Engine.dropNamespaces]
  | cons ns rest ih =>
    have hfirst : (e.invalidateNamespace ns).1.cache.store.entries =
        e.cache.store.entries.filter fun p => p.1.ns != ns := rfl
    show ((e.invalidateNamespace ns).1.dropNamespaces rest).cache.store.entries = _
    rw [ih, hfirst, List.filter_filter]
    congr 1
    funext p
    by_cases hns : p.1.ns = ns
    · simp [hns]
    · simp [hns]

/-! ### Runs -/

variable {s}

theorem published_run (events : List WatchedEvent) :
    (s.run events).watcher.published = (s.publications events).getLastD s.watcher.published := by
  induction events generalizing s with
  | nil => rfl
  | cons event events ih =>
    rw [run_cons, ih, published_step, publications]
    cases s.publishes? event with
    | none => rfl
    | some table =>
      rw [Option.toList_some, List.singleton_append, List.getLastD_cons, Option.getD_some]

theorem hasReader_run (events : List WatchedEvent) :
    (s.run events).watcher.hasReader = s.watcher.hasReader := by
  induction events generalizing s with
  | nil => rfl
  | cons event events ih => rw [run_cons, ih, hasReader_step]

theorem lastVersion_run (events : List WatchedEvent) :
    (s.run events).watcher.lastVersion =
      ((loadedTables events).getLast?.map RuleTable.version).or s.watcher.lastVersion := by
  induction events generalizing s with
  | nil => rfl
  | cons event events ih =>
    rw [run_cons, ih, lastVersion_step]
    cases hloaded : event.loaded? with
    | none =>
      rw [loadedTables, loadedTables, List.filterMap_cons_none hloaded]
      rfl
    | some table =>
      have hcons : loadedTables (event :: events) = table :: loadedTables events :=
        List.filterMap_cons_some hloaded
      rw [hcons, List.getLast?_cons]
      cases (loadedTables events).getLast? <;> rfl

/-- After a table has been loaded, those are published that differ in their version from the one
before. -/
theorem cons_publications {a : RuleTable} (h : s.watcher.lastVersion = some a.version)
    (events : List WatchedEvent) :
    a :: s.publications events = (loadedTables events).destutter' RuleTable.Differs a := by
  induction events generalizing s a with
  | nil => rfl
  | cons event events ih =>
    have hpublishes := s.publishes?_eq event
    have hkept := s.lastVersion_step event
    rw [h] at hpublishes hkept
    cases hloaded : event.loaded? with
    | none =>
      rw [hloaded] at hpublishes hkept
      rw [publications, hpublishes, loadedTables, List.filterMap_cons_none hloaded]
      exact ih hkept
    | some table =>
      rw [hloaded] at hpublishes hkept
      rw [publications, hpublishes, loadedTables, List.filterMap_cons_some hloaded]
      by_cases hdiffers : a.Differs table
      · have hne : some a.version ≠ some table.version := fun heq => hdiffers (Option.some.inj heq)
        rw [List.destutter'_cons_pos _ hdiffers]
        simp only [Option.filter_some, hne, ne_eq, not_false_eq_true, decide_true, if_true]
        exact congrArg (a :: ·) (ih hkept)
      · have heq : a.version = table.version := not_not.mp hdiffers
        have hsame : (s.step event).watcher.lastVersion = some a.version :=
          hkept.trans (congrArg some heq.symm)
        rw [List.destutter'_cons_neg _ hdiffers]
        simp only [Option.filter_some, heq, ne_eq, not_true_eq_false, decide_false]
        exact ih hsame

/-- As long as no table has been loaded, the next one is published, whatever its version. -/
theorem publications_of_none (h : s.watcher.lastVersion = none) (events : List WatchedEvent) :
    s.publications events = (loadedTables events).destutter RuleTable.Differs := by
  induction events generalizing s with
  | nil => rfl
  | cons event events ih =>
    have hpublishes := s.publishes?_eq event
    have hkept := s.lastVersion_step event
    rw [h] at hpublishes hkept
    cases hloaded : event.loaded? with
    | none =>
      rw [hloaded] at hpublishes hkept
      rw [publications, hpublishes, loadedTables, List.filterMap_cons_none hloaded]
      exact ih hkept
    | some table =>
      rw [hloaded] at hpublishes hkept
      rw [publications, hpublishes, loadedTables, List.filterMap_cons_some hloaded,
        List.destutter_cons']
      exact cons_publications hkept events

/-- What the next check does, if a table was last loaded or none was. -/
structure PollsAfter (last : Option RuleTable) (s : WatchedEngine) : Prop where
  publishes_iff : ∀ loaded table, s.watcher.publishes? loaded = some table ↔
    loaded = .ok table ∧ ∀ a, last = some a → a.version ≠ table.version
  published : ∀ loaded table, s.watcher.publishes? loaded = some table →
    (s.step (.poll loaded)).watcher.current? = some table ∧
    (s.step (.poll loaded)).watcher.changed? = some true ∧
    (s.step (.poll loaded)).watcher.lastVersion = some table.version ∧
    (s.step (.poll loaded)).engine = s.engine.dropNamespaces tableDerived ∧
    (s.step (.poll loaded)).engine.cache.store.entries =
      s.engine.cache.store.entries.filter fun p => p.1.ns ∉ tableDerived
  unchanged : ∀ loaded, s.watcher.publishes? loaded = none → s.step (.poll loaded) = s

theorem PollsAfter.of_lastVersion {last : Option RuleTable}
    (h : s.watcher.lastVersion = last.map RuleTable.version)
    (hreader : s.watcher.hasReader = true) : PollsAfter last s where
  publishes_iff loaded table := by
    rw [TableWatcher.publishes?_eq_some_iff, h]
    cases last with
    | none => simp
    | some a => simp
  published loaded table hpublishes := by
    rw [s.step_poll_of_publishes hpublishes]
    exact ⟨if_pos hreader, if_pos hreader, rfl, rfl,
      entries_dropNamespaces s.engine tableDerived⟩
  unchanged _ := s.step_poll_of_not_publishes

/-- Failed checks leave nothing behind. -/
theorem run_filter_isFailedPoll (events : List WatchedEvent) :
    s.run (events.filter fun event => !event.isFailedPoll) = s.run events := by
  induction events generalizing s with
  | nil => rfl
  | cons event events ih =>
    by_cases hfailed : event.isFailedPoll = true
    · rw [List.filter_cons_of_neg (by simp [hfailed]), ih, run_cons]
      cases event with
      | poll loaded =>
        cases loaded with
        | error e => rfl
        | ok table => contradiction
      | _ => contradiction
    · rw [List.filter_cons_of_pos (by simp [hfailed]), run_cons, run_cons, ih]

/-- Over a whole run from the start of a watcher, the tables that are published are those that
could be loaded and differ in their version from the one published before. -/
theorem run_publishes (e : Engine) (interval : Duration) (first : Except TableError RuleTable)
    (events : List WatchedEvent) :
    let loaded := first.toOption.toList ++ loadedTables events
    let published := loaded.destutter RuleTable.Differs
    let s := (start e interval first).run events
    first.toOption.toList ++ (start e interval first).publications events = published ∧
      s.watcher.current? = some (published.getLastD .empty) ∧
      s.watcher.lastVersion = loaded.getLast?.map RuleTable.version ∧
      s.PollsAfter loaded.getLast? ∧
      (start e interval first).run (events.filter fun event => !event.isFailedPoll) = s := by
  intro loaded published s
  have hreader : s.watcher.hasReader = true := by
    rw [hasReader_run]
    cases first <;> rfl
  have hcurrent : s.watcher.current? = some s.watcher.published := if_pos hreader
  have hfailed : (start e interval first).run (events.filter fun event => !event.isFailedPoll) = s :=
    run_filter_isFailedPoll events
  have hlast : s.watcher.lastVersion = loaded.getLast?.map RuleTable.version := by
    rw [lastVersion_run, List.getLast?_append]
    cases first with
    | error e => cases (loadedTables events).getLast? <;> rfl
    | ok table => cases (loadedTables events).getLast? <;> rfl
  have hpublished : first.toOption.toList ++ (start e interval first).publications events =
      published := by
    cases first with
    | error e => exact publications_of_none rfl events
    | ok table => exact cons_publications rfl events
  refine ⟨hpublished, ?_, hlast, .of_lastVersion hlast hreader, hfailed⟩
  rw [hcurrent, published_run, ← hpublished]
  cases first with
  | error e => rfl
  | ok table =>
    rw [Except.toOption, Option.toList_some, List.singleton_append, List.getLastD_cons]
    rfl

end WatchedEngine

end ActionPolicy
