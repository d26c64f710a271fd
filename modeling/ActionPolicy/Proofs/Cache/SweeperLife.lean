import ActionPolicy.Cache.Sweeper
import ActionPolicy.Proofs.Cache.SweepTasks
import ActionPolicy.Proofs.Cache.Warmth

/-!
# The life of a swept cache

A cache is swept by one task at a time and at most once in a period, from the first start to its
end. After the end it can be used like a new one, but it is not swept any more.

## Main definitions

* `TendedCache.answers` – the answers to the calls that others than tasks make.
* `TendedCache.Ended` – the cache is destroyed, and no task may run.
* `TendedCache.Schedules` – the tasks are those of a cache that is swept as soon as a sweep is due.
* `TendedCache.Orderly` – what can be relied on in the life of a cache.

## Main statements

* `PlainCache.answers_recount` – no answer depends on what was counted.
* `TendedCache.Ended.step_eq`, `TendedCache.Ended.run` – what is left after the end.
* `TendedCache.Sound.maySweep_start_iff` – after a start the new task alone can sweep.
* `TendedCache.Schedules.exists_events` – a cache swept on time is tended in one of many ways.
* `TendedCache.orderly_run` – the life of a new cache is orderly.

## Design notes

The counters, and the ticks given out for touches, go on after the end. So a destroyed cache is not
a new one: it holds the same records, and answers alike.
-/

namespace ActionPolicy

variable {V : Type}

/-! ### Answers do not depend on what was counted -/

namespace PlainCache

/-- Apart from what they have counted, the first is what becomes of the second. -/
theorem tryGet_recount (m : PlainCache V) (counted : CacheMetrics) (now : Instant) (k : CacheKey)
    (version : Option String) :
    ∃ counted', { m with metrics := counted }.tryGet now k version =
      ({ (m.tryGet now k version).1 with metrics := counted' }, (m.tryGet now k version).2) := by
  unfold tryGet lookup
  dsimp only
  split
  · exact ⟨_, rfl⟩
  split
  · exact ⟨_, rfl⟩
  split
  · exact ⟨_, rfl⟩
  have hdecode (held : Stored V) : { m with metrics := counted }.decode held = m.decode held := rfl
  rw [hdecode]
  split <;> exact ⟨_, rfl⟩

theorem step_recount (m : PlainCache V) (counted : CacheMetrics) (call : CacheCall V) :
    ∃ counted', { m with metrics := counted }.step call =
      ({ (m.step call).1 with metrics := counted' }, (m.step call).2) := by
  obtain ⟨now, op⟩ := call
  cases op with
  | get k version | tryGet k version | has k version =>
    obtain ⟨counted', h⟩ := m.tryGet_recount counted now k version
    exact ⟨counted', by simp only [step, h]⟩
  | getOrInsert k ttl version derived later micros =>
    obtain ⟨counted', h⟩ := m.tryGet_recount counted now k version
    simp only [step, h]
    cases hlooked : m.tryGet now k version with
    | mk m' outcome => cases outcome <;> exact ⟨_, rfl⟩
  | _ => exact ⟨_, rfl⟩

theorem answers_recount (m : PlainCache V) (counted : CacheMetrics) (calls : List (CacheCall V)) :
    ({ m with metrics := counted }.trace calls).map Prod.fst = (m.trace calls).map Prod.fst := by
  induction calls generalizing m counted with
  | nil => rfl
  | cons call calls ih =>
    obtain ⟨counted', h⟩ := m.step_recount counted call
    simp only [trace, h, List.map_cons]
    rw [ih]

end PlainCache

namespace TendedCache

variable {s : TendedCache V} {i : Nat}

/-! ### After the end -/

/-- The answers to the calls that others than tasks make. -/
def answers (s : TendedCache V) : List (TendedEvent V) → List (CacheAnswer V)
  | [] => []
  | event :: events =>
    (event.call?.map fun made => (s.cache.step made).2).toList ++ (s.step event).answers events

/-- The cache is destroyed, and no task may run. -/
structure Ended (s : TendedCache V) : Prop where
  destroyed : s.cache.destroyed = true
  stopped : ∀ (i : Nat) t, s.tasks[i]? = some t → t.stopped = true

theorem Sound.destroy_ended (h : s.Sound) : s.destroy.Ended :=
  ⟨rfl, fun _ _ ht => h.stopped_of_aborted ht⟩

namespace Ended

theorem start_eq (h : s.Ended) (timer : Bool) : s.start timer = (s, false) := by
  rcases s.start_cases timer with ⟨-, heq⟩ | ⟨halive, -⟩
  · exact heq
  · rw [h.destroyed] at halive
    contradiction

theorem poll_eq (h : s.Ended) (i : Nat) (now : Instant) : s.poll i now = s := by
  rcases s.poll_cases i now with ⟨-, heq⟩ | ⟨hfresh, -⟩ | ⟨d, hdue, -⟩
  · exact heq
  · cases h.stopped i _ hfresh
  · cases h.stopped i _ hdue.1

/-- Nothing but the calls of others changes the cache, and they start no task. -/
theorem step_eq (h : s.Ended) (event : TendedEvent V) :
    (s.step event).Ended ∧ (s.step event).log = s.log ∧
      (s.step event).cache = s.cache.run event.call?.toList := by
  cases event with
  | start timer =>
    have hstep : s.step (.start timer) = s := congrArg Prod.fst (h.start_eq timer)
    rw [hstep]
    exact ⟨h, rfl, rfl⟩
  | poll i now =>
    have hstep : s.step (.poll i now) = s := h.poll_eq i now
    rw [hstep]
    exact ⟨h, rfl, rfl⟩
  | elapse nanos => exact ⟨⟨h.destroyed, h.stopped⟩, rfl, rfl⟩
  | destroy =>
    refine ⟨⟨rfl, fun i t ht => ?_⟩, rfl, rfl⟩
    simp only [TendedCache.step, destroy, getElem?_aborted] at ht
    obtain ⟨u, hu, rfl⟩ := Option.map_eq_some_iff.mp ht
    split
    · rfl
    · exact h.stopped i u hu
  | call made ordinary =>
    refine ⟨⟨?_, h.stopped⟩, rfl, rfl⟩
    exact (s.cache.steady_step ordinary).destroyed.trans h.destroyed

theorem counts_step (h : s.Ended) (event : TendedEvent V) :
    (s.step event).cache.metrics.counts.sweeps = s.cache.metrics.counts.sweeps ∧
      (s.step event).cache.metrics.counts.sweptEntries =
        s.cache.metrics.counts.sweptEntries := by
  rw [(h.step_eq event).2.2]
  cases event with
  | call made ordinary =>
    have hsteady := s.cache.steady_step ordinary
    exact ⟨hsteady.sweeps, hsteady.sweptEntries⟩
  | _ => exact ⟨rfl, rfl⟩

theorem run (h : s.Ended) (events : List (TendedEvent V)) :
    (s.run events).Ended ∧ (s.run events).log = s.log ∧
      (s.run events).cache.metrics.counts.sweeps = s.cache.metrics.counts.sweeps ∧
      (s.run events).cache.metrics.counts.sweptEntries = s.cache.metrics.counts.sweptEntries := by
  induction events generalizing s with
  | nil => exact ⟨h, rfl, rfl, rfl⟩
  | cons event events ih =>
    obtain ⟨hended, hlog, -⟩ := h.step_eq event
    obtain ⟨hsweeps, hswept⟩ := h.counts_step event
    obtain ⟨hended', hlog', hsweeps', hswept'⟩ := ih hended
    exact ⟨hended', hlog'.trans hlog, hsweeps'.trans hsweeps, hswept'.trans hswept⟩

/-- What is answered is what the cache alone answers. -/
theorem answers_eq (h : s.Ended) (events : List (TendedEvent V)) :
    s.answers events =
      (s.cache.trace (events.filterMap TendedEvent.call?)).map Prod.fst := by
  induction events generalizing s with
  | nil => rfl
  | cons event events ih =>
    obtain ⟨hended, -, hcache⟩ := h.step_eq event
    rw [answers, ih hended, hcache, List.filterMap_cons]
    cases event.call? <;> rfl

theorem not_maySweep (h : s.Ended) (i : Nat) : ¬s.MaySweep i := by
  rintro ⟨events, later, d, hlog, hmem⟩
  rw [(h.run events).2.1] at hlog
  have hnone : later = [] := List.self_eq_append_right.mp hlog
  rw [hnone] at hmem
  exact List.not_mem_nil hmem

end Ended

/-- For the cache, all that happens is a sequence of calls. -/
theorem exists_calls (s : TendedCache V) (events : List (TendedEvent V)) :
    ∃ calls, (s.run events).cache = s.cache.run calls := by
  induction events generalizing s with
  | nil => exact ⟨[], rfl⟩
  | cons event events ih =>
    have hfirst : ∃ calls, (s.step event).cache = s.cache.run calls := by
      cases event with
      | start timer =>
        have hstep : s.step (.start timer) = (s.start timer).1 := rfl
        rw [hstep]
        rcases s.start_cases timer with ⟨-, heq⟩ | ⟨-, -, heq⟩
        · exact ⟨[], by rw [heq]; rfl⟩
        · exact ⟨[], by rw [heq]; rfl⟩
      | poll i now =>
        have hstep : s.step (.poll i now) = s.poll i now := rfl
        rw [hstep]
        rcases s.poll_cases i now with ⟨-, heq⟩ | ⟨-, heq⟩ | ⟨d, -, ⟨-, heq⟩ | ⟨-, heq⟩⟩
        · exact ⟨[], by rw [heq]; rfl⟩
        · exact ⟨[], by rw [heq]; rfl⟩
        · exact ⟨[], by rw [heq]; rfl⟩
        · exact ⟨[⟨now, .sweep⟩], by rw [heq]; rfl⟩
      | elapse nanos => exact ⟨[], rfl⟩
      | destroy => exact ⟨[⟨.epoch, .destroy⟩], rfl⟩
      | call made ordinary => exact ⟨[made], rfl⟩
    obtain ⟨calls, hcalls⟩ := hfirst
    obtain ⟨more, hmore⟩ := ih (s.step event)
    refine ⟨calls ++ more, ?_⟩
    rw [hcalls, ← Cache.run_append] at hmore
    exact hmore

/-! ### Sweeps on time -/

/-- The tasks are those of a cache that is swept as soon as a sweep falls due. -/
structure Schedules (t : TendedCache V) (s : SweptCache V) : Prop where
  sound : t.Sound
  cache : t.cache = s.cache
  elapsed : t.elapsed = s.elapsed
  task : ∀ d, s.due = some d → ∃ i : Nat, t.tasks[i]? = some ⟨some d, false⟩

end TendedCache

/-- What is done with a cache that is swept on time. -/
inductive SweptOp (V : Type) where
  | start (timer : Bool)
  | elapse (now : Instant) (d : Duration)
  | destroy
  | call (made : CacheCall V) (ordinary : made.op.ordinary = true)

def SweptCache.perform (s : SweptCache V) : SweptOp V → SweptCache V
  | .start timer => (s.startSweeper timer).1
  | .elapse now d => s.run now d
  | .destroy => s.destroy
  | .call made _ => { s with cache := (s.cache.step made).1 }

namespace TendedCache.Schedules

variable {t : TendedCache V} {s : SweptCache V}

theorem period_eq (h : t.Schedules s) : t.period = s.period := by
  rw [TendedCache.period, SweptCache.period, h.cache]

/-- A task that is started is polled at once, so that its ticks are counted from then on. -/
theorem start (h : t.Schedules s) (timer : Bool) :
    ∃ events, (t.run events).Schedules (s.startSweeper timer).1 := by
  rcases t.start_cases timer with ⟨hrefused, -⟩ | ⟨halive, rfl, heq⟩
  · have hrefused' : (s.cache.destroyed || !timer) = true := by
      rw [← h.cache]
      rcases hrefused with hdestroyed | rfl
      · rw [hdestroyed]
        rfl
      · exact Bool.or_true _
    refine ⟨[], ?_⟩
    rw [SweptCache.startSweeper, if_pos hrefused']
    exact h
  · have hlength := t.length_aborted
    have hsound := (h.sound.start true).poll t.tasks.length .epoch
    have hfresh : (t.start true).1.tasks[t.tasks.length]? = some ⟨none, false⟩ := by
      rw [heq]
      simp [hlength]
    have hlt := (List.getElem?_eq_some_iff.mp hfresh).1
    have hstarts : ¬(s.cache.destroyed || !true) = true := by
      rw [← h.cache, halive]
      decide
    have hrun : t.run [.start true, .poll t.tasks.length .epoch] =
        (t.start true).1.poll t.tasks.length .epoch := rfl
    refine ⟨[.start true, .poll t.tasks.length .epoch], ?_⟩
    rw [hrun, SweptCache.startSweeper, if_neg hstarts]
    rw [poll_of_fresh hfresh] at hsound ⊢
    refine ⟨hsound, ?_, ?_, fun d hd => ⟨t.tasks.length, ?_⟩⟩
    · rw [heq]
      exact h.cache
    · rw [heq]
      exact h.elapsed
    · have hfirst : (t.start true).1.elapsed + (t.start true).1.period = s.elapsed + s.period := by
        rw [heq]
        exact congrArg₂ (· + ·) h.elapsed h.period_eq
      rw [← Option.some.inj hd, ← hfirst]
      exact List.getElem?_set_self hlt

/-- Sweeps up to an end are polls of the task when that end has come. -/
theorem sweepUntil {finish : Nat} (h : t.Schedules { s with elapsed := finish }) (now : Instant)
    (fuel : Nat) :
    ∃ events, (t.run events).Schedules
      { SweptCache.sweepUntil finish now fuel s with elapsed := finish } := by
  induction fuel generalizing t s with
  | zero => exact ⟨[], h⟩
  | succ fuel ih =>
    unfold SweptCache.sweepUntil
    cases hdue : s.due with
    | none => exact ⟨[], h⟩
    | some d =>
      by_cases hlate : finish < d
      · simp only [hlate, if_true]
        exact ⟨[], h⟩
      · simp only [hlate, if_false]
        -- One sweep on time is one poll, and leaves the task with the tick a period later.
        obtain ⟨i, htask⟩ := h.task d hdue
        have hdue' : t.Due i d := ⟨htask, h.elapsed ▸ Nat.le_of_not_lt hlate⟩
        have hpoll := poll_of_due hdue' (h.sound.alive_of_due hdue') now
        have hlt := (List.getElem?_eq_some_iff.mp htask).1
        have hswept : (t.poll i now).Schedules
            { s with
              cache := s.cache.sweep now
              elapsed := finish
              due := some (d + s.period) } := by
          have hsound := h.sound.poll i now
          rw [hpoll] at hsound ⊢
          refine ⟨hsound, by rw [h.cache], h.elapsed, fun d' hd' => ⟨i, ?_⟩⟩
          rw [← Option.some.inj hd', h.period_eq]
          exact List.getElem?_set_self hlt
        obtain ⟨events, hevents⟩ := ih (s := { s with
          cache := s.cache.sweep now
          due := some (d + s.period) }) hswept
        exact ⟨.poll i now :: events, hevents⟩

/-- A cache that is swept on time is tended in one of many ways. -/
theorem perform (h : t.Schedules s) (op : SweptOp V) :
    ∃ events, (t.run events).Schedules (s.perform op) := by
  cases op with
  | start timer => exact h.start timer
  | elapse now d =>
    have helapsed : (t.step (.elapse d.nanos)).Schedules
        { s with elapsed := s.elapsed + d.nanos } :=
      ⟨h.sound.step _, h.cache, congrArg (· + d.nanos) h.elapsed, h.task⟩
    obtain ⟨events, hevents⟩ := helapsed.sweepUntil now (d.nanos / s.period + 1)
    exact ⟨.elapse d.nanos :: events, hevents⟩
  | destroy =>
    refine ⟨[.destroy], h.sound.destroy, congrArg Cache.destroy h.cache, h.elapsed, ?_⟩
    intro d hd
    cases hd
  | call made ordinary =>
    refine ⟨[.call made ordinary], h.sound.step (.call made ordinary), ?_, h.elapsed, h.task⟩
    exact congrArg (fun c : Cache V => (c.step made).1) h.cache

theorem exists_events (h : t.Schedules s) (ops : List (SweptOp V)) :
    ∃ events, (t.run events).Schedules (ops.foldl SweptCache.perform s) := by
  induction ops generalizing t s with
  | nil => exact ⟨[], h⟩
  | cons op ops ih =>
    obtain ⟨events, hfirst⟩ := h.perform op
    obtain ⟨more, hrest⟩ := ih hfirst
    refine ⟨events ++ more, ?_⟩
    rw [TendedCache.run, List.foldl_append]
    exact hrest

end TendedCache.Schedules

namespace TendedCache

/-- What can be relied on in the life of a cache with these settings. -/
structure Orderly (config : CacheConfig) (codec : Option (Codec V)) (s : TendedCache V) :
    Prop where
  /-- One task at most can still sweep. -/
  one : ∀ i j, i < s.tasks.length → j < s.tasks.length → s.MaySweep i → s.MaySweep j → i = j
  /-- No two sweeps are made for ticks that are less than a period apart. -/
  spaced : (s.log.map Prod.snd).Pairwise fun a b => a + s.period ≤ b
  counted : s.cache.metrics.counts.sweeps = s.log.length
  starts : ∀ timer, (s.start timer).2 = true ↔ s.cache.destroyed = false ∧ timer = true
  /-- After a start the new task, and no older one, can sweep. -/
  replaces : ∀ timer, (s.start timer).2 = true → ∀ i ≤ s.tasks.length,
    (s.start timer).1.MaySweep i ↔ i = s.tasks.length
  /-- When a tick has fallen due, a poll removes the expired entries and no others, and counts. -/
  sweeps : ∀ i d now, s.Due i d →
    (∀ k e, (s.poll i now).cache.store.get? k = some e ↔
      s.cache.store.get? k = some e ∧ e.expiredAt now = false) ∧
    (s.poll i now).cache.metrics = s.cache.metrics.recordSweep
      (s.cache.store.entries.countP fun p => p.2.expiredAt now) ∧
    (s.poll i now).log = s.log ++ [(i, d)]
  /-- Other polls leave the cache as it is. -/
  rests : ∀ i now, (¬∃ d, s.Due i d) →
    (s.poll i now).cache = s.cache ∧ (s.poll i now).log = s.log
  emptied : s.destroy.cache.store.entries = [] ∧ s.destroy.cache.store.recency = []
  /-- After the end no task sweeps and none is started. -/
  ended : ∀ later, (s.destroy.run later).cache.destroyed = true ∧
    (∀ i, ¬(s.destroy.run later).MaySweep i) ∧
    (∀ timer, ((s.destroy.run later).start timer).2 = false) ∧
    (s.destroy.run later).log = s.log ∧
    (s.destroy.run later).cache.metrics.counts.sweeps = s.cache.metrics.counts.sweeps ∧
    (s.destroy.run later).cache.metrics.counts.sweptEntries =
      s.cache.metrics.counts.sweptEntries
  /-- After the end all calls are answered as by a new cache. -/
  answers : ∀ later, s.destroy.answers later =
    ((Cache.new config codec).trace (later.filterMap TendedEvent.call?)).map Prod.fst

variable {s : TendedCache V} {i : Nat}

/-- A start succeeds if there is a timer and the cache is not destroyed. -/
theorem snd_start_iff (s : TendedCache V) (timer : Bool) :
    (s.start timer).2 = true ↔ s.cache.destroyed = false ∧ timer = true := by
  rcases s.start_cases timer with ⟨hrefused, heq⟩ | ⟨halive, htimer, heq⟩
  · rw [heq]
    refine ⟨fun h => absurd h Bool.false_ne_true, ?_⟩
    rintro ⟨halive, htimer⟩
    simp [halive, htimer] at hrefused
  · rw [heq]
    exact ⟨fun _ => ⟨halive, htimer⟩, fun _ => rfl⟩

theorem Sound.maySweep_start_iff (h : s.Sound) {timer : Bool} (hstarts : (s.start timer).2 = true)
    (hi : i ≤ s.tasks.length) : (s.start timer).1.MaySweep i ↔ i = s.tasks.length := by
  have hsound := h.start timer
  have hlength := s.length_aborted
  rcases s.start_cases timer with ⟨-, heq⟩ | ⟨halive, -, heq⟩
  · rw [heq] at hstarts
    contradiction
  · rw [heq] at hsound ⊢
    have hfresh : (s.aborted ++ [⟨none, false⟩])[s.tasks.length]? = some ⟨none, false⟩ := by
      rw [← hlength]
      exact List.getElem?_concat_length
    have hlt := (List.getElem?_eq_some_iff.mp hfresh).1
    constructor
    · intro hmay
      exact hsound.eq_of_maySweep (Nat.lt_of_le_of_lt hi hlt) hlt hmay
        (maySweep_of_fresh hfresh halive)
    · rintro rfl
      exact maySweep_of_fresh hfresh halive

theorem Sound.cache_poll (h : s.Sound) {l : List (CacheKey × Entry V)}
    (hstore : s.cache.store.InOrder l) {d : Nat} (hdue : s.Due i d) (now : Instant) :
    (∀ k e, (s.poll i now).cache.store.get? k = some e ↔
      s.cache.store.get? k = some e ∧ e.expiredAt now = false) ∧
    (s.poll i now).cache.metrics = s.cache.metrics.recordSweep
      (s.cache.store.entries.countP fun p => p.2.expiredAt now) ∧
    (s.poll i now).log = s.log ++ [(i, d)] := by
  rw [poll_of_due hdue (h.alive_of_due hdue) now]
  refine ⟨fun k e => ?_, ?_, rfl⟩
  · have hkept := hstore.get?_retain (fun _ e => !e.expiredAt now) (k := k) (e := e)
    rw [Bool.not_eq_true'] at hkept
    exact hkept
  · exact congrArg s.cache.metrics.recordSweep (s.cache.purgeExpired_snd now)

theorem rests_of_not_due (hrests : ¬∃ d, s.Due i d) (now : Instant) :
    (s.poll i now).cache = s.cache ∧ (s.poll i now).log = s.log := by
  rcases s.poll_cases i now with ⟨-, heq⟩ | ⟨-, heq⟩ | ⟨d, hdue, -⟩
  · rw [heq]
    exact ⟨rfl, rfl⟩
  · rw [heq]
    exact ⟨rfl, rfl⟩
  · exact absurd ⟨d, hdue⟩ hrests

/-- The records of a destroyed cache are those of a new one. -/
theorem answers_destroy {config : CacheConfig} {codec : Option (Codec V)}
    {history : List (CacheEvent V)} (h : s.Sound) (hafter : s.cache.After config codec history)
    (later : List (TendedEvent V)) :
    s.destroy.answers later =
      ((Cache.new config codec).trace (later.filterMap TendedEvent.call?)).map Prod.fst := by
  obtain ⟨m, hsim, rfl, rfl, -⟩ := hafter
  have hdestroyed : Cache.Simulates s.destroy.cache m.clear := hsim.destroy
  have hnew := Cache.Simulates.new m.config m.codec
  rw [h.destroy_ended.answers_eq, hdestroyed.trace_eq, hnew.trace_eq]
  exact (PlainCache.new m.config m.codec).answers_recount m.metrics _

/-- The life of a new cache is orderly, whatever tasks are started for it and whenever they run. A
cache that is swept on time leads such a life. -/
theorem orderly_run (config : CacheConfig) (codec : Option (Codec V)) :
    (∀ events, ((ofCache (.new config codec)).run events).Orderly config codec) ∧
      ∀ ops : List (SweptOp V), ∃ events,
        ((ofCache (.new config codec)).run events).Schedules
          (ops.foldl SweptCache.perform (.ofCache (.new config codec))) := by
  have hnew : (ofCache (Cache.new config codec)).Sound := .ofCache rfl rfl
  constructor
  · intro events
    obtain ⟨calls, hcalls⟩ := exists_calls (ofCache (.new config codec)) events
    have hafter := (Cache.After.new config codec).run calls
    have hsound := hnew.run events
    change (_ : TendedCache V).cache = (Cache.new config codec).run calls at hcalls
    rw [← hcalls] at hafter
    obtain ⟨m, hsim, -⟩ := id hafter
    obtain ⟨l, hstore, -⟩ := hsim.holds
    have hover := fun later => hsound.destroy_ended.run later
    exact {
      one := fun i j => hsound.eq_of_maySweep
      spaced := hsound.spaced
      counted := hsound.counted
      starts := snd_start_iff _
      replaces := fun timer hstarts i hi => hsound.maySweep_start_iff hstarts hi
      sweeps := fun i d now hdue => hsound.cache_poll hstore hdue now
      rests := fun i now hrests => rests_of_not_due hrests now
      emptied := ⟨rfl, rfl⟩
      ended := fun later => ⟨(hover later).1.destroyed, (hover later).1.not_maySweep,
        fun timer => congrArg Prod.snd ((hover later).1.start_eq timer), (hover later).2⟩
      answers := answers_destroy hsound hafter }
  · intro ops
    exact (Schedules.exists_events ⟨hnew, rfl, rfl, fun _ hd => by cases hd⟩ ops)

end TendedCache

end ActionPolicy
