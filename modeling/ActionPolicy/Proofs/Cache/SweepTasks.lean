import ActionPolicy.Cache.SweepTasks
import ActionPolicy.Proofs.Cache.Expiry

/-!
# One task sweeps at a time

However often a sweeper is started, one of its tasks at most may still sweep, and its sweeps are a
period apart.

## Main definitions

* `TendedEvent.call?` – the call that an event makes to the cache.
* `TendedCache.MaySweep` – some events to come let a task sweep.
* `TendedCache.Sound` – one task at most may run, and its ticks come a period after all sweeps.

## Main statements

* `Cache.steady_step` – what ordinary calls do not change.
* `TendedCache.start_cases`, `TendedCache.poll_cases` – all that a start and a poll can do.
* `TendedCache.Stopped.not_maySweep` – a task that has been stopped never sweeps again.
* `TendedCache.Sound.step`, `TendedCache.Sound.run` – the state stays sound.
* `TendedCache.Sound.eq_of_maySweep` – two tasks that may both sweep are one.
-/

namespace ActionPolicy

variable {V : Type}

namespace Cache

/-- What ordinary calls leave as it is. -/
structure Steady (c c' : Cache V) : Prop where
  config : c'.config = c.config
  destroyed : c'.destroyed = c.destroyed
  sweeps : c'.metrics.counts.sweeps = c.metrics.counts.sweeps
  sweptEntries : c'.metrics.counts.sweptEntries = c.metrics.counts.sweptEntries

theorem Steady.trans {c c' c'' : Cache V} (h : c.Steady c') (h' : c'.Steady c'') : c.Steady c'' :=
  ⟨h'.config.trans h.config, h'.destroyed.trans h.destroyed, h'.sweeps.trans h.sweeps,
    h'.sweptEntries.trans h.sweptEntries⟩

theorem steady_tryGet (c : Cache V) (now : Instant) (k : CacheKey) (version : Option String) :
    c.Steady (c.tryGet now k version).1 := by
  have hlookup : c.Steady (c.lookup now k version).1 := by
    unfold lookup
    split
    · exact ⟨rfl, rfl, rfl, rfl⟩
    split
    · exact ⟨rfl, rfl, rfl, rfl⟩
    split
    · exact ⟨rfl, rfl, rfl, rfl⟩
    split <;> exact ⟨rfl, rfl, rfl, rfl⟩
  refine hlookup.trans ?_
  simp only [tryGet]
  cases (c.lookup now k version).2.toBool <;> exact ⟨rfl, rfl, rfl, rfl⟩

theorem steady_set (c : Cache V) (now : Instant) (k : CacheKey) (value : V) (ttl : Option Duration)
    (version : Option String) : c.Steady (c.set now k value ttl version) := by
  simp only [set]
  cases (c.makeRoom k).2 <;> cases (c.encode value).2 <;> exact ⟨rfl, rfl, rfl, rfl⟩

theorem steady_complete (c : Cache V) (now : Instant) (k : CacheKey) (value : V)
    (ttl : Option Duration) (version : Option String) (micros : Nat) :
    c.Steady (c.complete now k value ttl version micros) :=
  have habandon : c.Steady (c.abandon micros) := ⟨rfl, rfl, rfl, rfl⟩
  habandon.trans (steady_set _ now k value ttl version)

theorem steady_step (c : Cache V) {call : CacheCall V} (h : call.op.ordinary = true) :
    c.Steady (c.step call).1 := by
  obtain ⟨now, op⟩ := call
  cases op with
  | sweep | destroy => contradiction
  | set k value ttl version => exact c.steady_set now k value ttl version
  | get k version | tryGet k version | has k version => exact c.steady_tryGet now k version
  | complete k derived ttl version micros =>
    exact c.steady_complete now k derived ttl version micros
  | getOrInsert k ttl version derived later micros =>
    have hlookup : c.Steady (c.get now k version).1 := c.steady_tryGet now k version
    simp only [step, getOrInsert]
    cases hget : c.get now k version with
    | mk d found =>
      rw [hget] at hlookup
      cases found with
      | some v => exact hlookup
      | none => exact hlookup.trans (d.steady_complete later k derived ttl version micros)
  | _ => exact ⟨rfl, rfl, rfl, rfl⟩

end Cache

/-! ### Tasks -/

/-- The call that an event makes to the cache, unless a task makes it. -/
def TendedEvent.call? : TendedEvent V → Option (CacheCall V)
  | .call made _ => some made
  | .destroy => some ⟨.epoch, .destroy⟩
  | _ => none

namespace TendedCache

/-- The task at a place may run, and its tick has fallen due. -/
def Due (s : TendedCache V) (i d : Nat) : Prop :=
  s.tasks[i]? = some ⟨some d, false⟩ ∧ d ≤ s.elapsed

/-- All that a start can do. -/
theorem start_cases (s : TendedCache V) (timer : Bool) :
    ((s.cache.destroyed = true ∨ timer = false) ∧ s.start timer = (s, false)) ∨
      s.cache.destroyed = false ∧ timer = true ∧ s.start timer =
        ({ s with
          tasks := s.aborted ++ [⟨none, false⟩]
          handle := some s.tasks.length }, true) := by
  unfold start
  cases s.cache.destroyed with
  | true => exact Or.inl ⟨Or.inl rfl, rfl⟩
  | false =>
    cases timer with
    | true => exact Or.inr ⟨rfl, rfl, rfl⟩
    | false => exact Or.inl ⟨Or.inr rfl, rfl⟩

/-- All that a poll can do. -/
theorem poll_cases (s : TendedCache V) (i : Nat) (now : Instant) :
    ((¬∃ d, s.Due i d) ∧ s.poll i now = s) ∨
    (s.tasks[i]? = some ⟨none, false⟩ ∧
      s.poll i now = { s with tasks := s.tasks.set i ⟨some (s.elapsed + s.period), false⟩ }) ∨
    ∃ d, s.Due i d ∧
      (s.cache.destroyed = true ∧ s.poll i now = { s with tasks := s.tasks.set i ⟨some d, true⟩ } ∨
        s.cache.destroyed = false ∧ s.poll i now =
          { s with
            cache := s.cache.sweep now
            tasks := s.tasks.set i ⟨some (d + s.period), false⟩
            log := s.log ++ [(i, d)] }) := by
  unfold poll Due
  split
  · rename_i hnone
    exact Or.inl ⟨by simp [hnone], rfl⟩
  · rename_i hstopped
    exact Or.inl ⟨by simp [hstopped], rfl⟩
  · rename_i hfresh
    exact Or.inr (Or.inl ⟨hfresh, rfl⟩)
  · rename_i d htask
    by_cases hlate : s.elapsed < d
    · refine Or.inl ⟨?_, if_pos hlate⟩
      rintro ⟨d', htask', hdue⟩
      rw [htask] at htask'
      cases htask'
      omega
    · refine Or.inr (Or.inr ⟨d, ⟨htask, by omega⟩, ?_⟩)
      rw [if_neg hlate]
      cases s.cache.destroyed with
      | true => exact Or.inl ⟨rfl, rfl⟩
      | false => exact Or.inr ⟨rfl, rfl⟩

variable {s : TendedCache V} {i : Nat}

theorem poll_of_fresh (h : s.tasks[i]? = some ⟨none, false⟩) (now : Instant) :
    s.poll i now = { s with tasks := s.tasks.set i ⟨some (s.elapsed + s.period), false⟩ } := by
  unfold poll
  rw [h]

theorem poll_of_due {d : Nat} (hdue : s.Due i d) (halive : s.cache.destroyed = false)
    (now : Instant) :
    s.poll i now =
      { s with
        cache := s.cache.sweep now
        tasks := s.tasks.set i ⟨some (d + s.period), false⟩
        log := s.log ++ [(i, d)] } := by
  have hlate : ¬s.elapsed < d := Nat.not_lt.mpr hdue.2
  unfold poll
  simp only [hdue.1, hlate, halive, if_false, Bool.false_eq_true]

/-! ### Stopped tasks -/

/-- The task at a place has been stopped. -/
def Stopped (s : TendedCache V) (i : Nat) : Prop := ∃ t, s.tasks[i]? = some t ∧ t.stopped = true

theorem getElem?_aborted (s : TendedCache V) (i : Nat) :
    s.aborted[i]? = (s.tasks[i]?).map fun t => if s.handle = some i then t.stop else t := by
  unfold aborted
  split
  · rename_i j hhandle
    rw [List.getElem?_modify, hhandle]
    simp
  · rename_i hhandle
    simp [hhandle]

theorem length_aborted (s : TendedCache V) : s.aborted.length = s.tasks.length := by
  unfold aborted
  split
  · exact List.length_modify ..
  · rfl

namespace Stopped

theorem aborted (h : s.Stopped i) : ∃ t, s.aborted[i]? = some t ∧ t.stopped = true := by
  obtain ⟨t, htask, hstopped⟩ := h
  refine ⟨_, by rw [getElem?_aborted, htask, Option.map_some], ?_⟩
  split
  · rfl
  · exact hstopped

theorem not_due (h : s.Stopped i) (d : Nat) : ¬s.Due i d := by
  obtain ⟨t, htask, hstopped⟩ := h
  rintro ⟨hdue, -⟩
  rw [hdue] at htask
  cases htask
  contradiction

/-- Another task, or the same one, changes. -/
theorem set (h : s.Stopped i) {j : Nat} {t : SweepTask} (hj : j ≠ i ∨ t.stopped = true)
    {s' : TendedCache V} (hs' : s'.tasks = s.tasks.set j t) : s'.Stopped i := by
  obtain ⟨u, htask, hstopped⟩ := h
  have hlt := (List.getElem?_eq_some_iff.mp htask).1
  unfold Stopped
  rw [hs', List.getElem?_set]
  by_cases hji : j = i
  · exact ⟨t, by simp [hji, hlt], hj.resolve_left (absurd hji)⟩
  · exact ⟨u, by simp [hji, htask], hstopped⟩

theorem start (h : s.Stopped i) (timer : Bool) : (s.start timer).1.Stopped i := by
  rcases s.start_cases timer with ⟨-, heq⟩ | ⟨-, -, heq⟩
  · rw [heq]
    exact h
  · rw [heq]
    obtain ⟨t, htask, hstopped⟩ := h.aborted
    have hlt := (List.getElem?_eq_some_iff.mp htask).1
    exact ⟨t, by rw [List.getElem?_append_left hlt, htask], hstopped⟩

/-- A stopped task stays stopped, and a poll of it does nothing. -/
theorem step (h : s.Stopped i) (event : TendedEvent V) :
    (s.step event).Stopped i ∧
      ∃ later, (s.step event).log = s.log ++ later ∧ ∀ d, (i, d) ∉ later := by
  have hsame {s' : TendedCache V} (hlog : s'.log = s.log) :
      ∃ later, s'.log = s.log ++ later ∧ ∀ d, (i, d) ∉ later :=
    ⟨[], by simp [hlog], fun _ => List.not_mem_nil⟩
  cases event with
  | start timer =>
    refine ⟨h.start timer, hsame ?_⟩
    show (s.start timer).1.log = s.log
    rcases s.start_cases timer with ⟨-, heq⟩ | ⟨-, -, heq⟩ <;> rw [heq]
  | poll j now =>
    simp only [TendedCache.step]
    rcases s.poll_cases j now with ⟨-, heq⟩ | ⟨hfresh, heq⟩ | ⟨d, hdue, ⟨-, heq⟩ | ⟨-, heq⟩⟩
    · rw [heq]
      exact ⟨h, hsame rfl⟩
    · have hji : j ≠ i := by
        rintro rfl
        obtain ⟨t, htask, hstopped⟩ := h
        rw [hfresh] at htask
        cases htask
        contradiction
      exact heq ▸ ⟨h.set (.inl hji) rfl, hsame rfl⟩
    · exact heq ▸ ⟨h.set (.inr rfl) rfl, hsame rfl⟩
    · have hji : j ≠ i := by
        rintro rfl
        exact h.not_due d hdue
      refine heq ▸ ⟨h.set (.inl hji) rfl, [(j, d)], rfl, fun d' hmem => ?_⟩
      exact hji (congrArg Prod.fst (List.mem_singleton.mp hmem)).symm
  | elapse nanos => exact ⟨h, hsame rfl⟩
  | destroy => exact ⟨h.aborted, hsame rfl⟩
  | call made ordinary => exact ⟨h, hsame rfl⟩

theorem run (h : s.Stopped i) (events : List (TendedEvent V)) :
    ∃ later, (s.run events).log = s.log ++ later ∧ ∀ d, (i, d) ∉ later := by
  induction events generalizing s with
  | nil => exact ⟨[], (List.append_nil _).symm, fun _ => List.not_mem_nil⟩
  | cons event events ih =>
    obtain ⟨hstopped, first, hfirst, hnone⟩ := h.step event
    obtain ⟨rest, hrest, hnone'⟩ := ih hstopped
    refine ⟨first ++ rest, ?_, fun d hmem => ?_⟩
    · rw [← List.append_assoc, ← hfirst]
      exact hrest
    · rcases List.mem_append.mp hmem with hmem | hmem
      · exact hnone d hmem
      · exact hnone' d hmem

end Stopped

/-- Some events to come let the task at a place sweep. -/
def MaySweep (s : TendedCache V) (i : Nat) : Prop :=
  ∃ events later d, (s.run events).log = s.log ++ later ∧ (i, d) ∈ later

theorem Stopped.not_maySweep (h : s.Stopped i) : ¬s.MaySweep i := by
  rintro ⟨events, later, d, hlog, hmem⟩
  obtain ⟨later', hlog', hnone⟩ := h.run events
  rw [hlog', List.append_cancel_left_eq] at hlog
  exact hnone d (hlog ▸ hmem)

/-- A task that has not run yet sweeps when it has been polled twice, a period apart. -/
theorem maySweep_of_fresh (h : s.tasks[i]? = some ⟨none, false⟩)
    (halive : s.cache.destroyed = false) : s.MaySweep i := by
  have hlt := (List.getElem?_eq_some_iff.mp h).1
  let waiting : TendedCache V :=
    { s with
      tasks := s.tasks.set i ⟨some (s.elapsed + s.period), false⟩
      elapsed := s.elapsed + s.period }
  have hdue : waiting.Due i (s.elapsed + s.period) :=
    ⟨List.getElem?_set_self hlt, Nat.le_refl _⟩
  have hrun : s.run [.poll i .epoch, .elapse s.period, .poll i .epoch] =
      waiting.poll i .epoch := by
    simp only [run, List.foldl_cons, List.foldl_nil, step, poll_of_fresh h, waiting]
  rw [poll_of_due hdue halive] at hrun
  have hlog := congrArg TendedCache.log hrun
  exact ⟨_, [(i, s.elapsed + s.period)], _, hlog, List.mem_singleton.mpr rfl⟩

/-! ### Sound states -/

/-- Only the task behind the handle may run. Every tick comes a period after the last sweep. -/
structure Sound (s : TendedCache V) : Prop where
  single : ∀ (i : Nat) t, s.tasks[i]? = some t → t.stopped = false → s.handle = some i
  /-- With the cache its last task has ended. -/
  ended : s.cache.destroyed = true → s.handle = none
  counted : s.cache.metrics.counts.sweeps = s.log.length
  spaced : (s.log.map Prod.snd).Pairwise fun a b => a + s.period ≤ b
  past : ∀ p ∈ s.log, p.2 ≤ s.elapsed
  ahead : ∀ i d : Nat, s.tasks[i]? = some ⟨some d, false⟩ → ∀ p ∈ s.log, p.2 + s.period ≤ d

namespace Sound

theorem ofCache {c : Cache V} (hc : c.metrics.counts.sweeps = 0) (halive : c.destroyed = false) :
    (TendedCache.ofCache c).Sound where
  single _ _ h _ := by cases h
  ended h := by rw [TendedCache.ofCache, halive] at h; contradiction
  counted := hc
  spaced := .nil
  past _ h := absurd h List.not_mem_nil
  ahead _ _ h := by cases h

/-- The tasks and their log stay as they are. -/
theorem keep (h : s.Sound) {c : Cache V} (hc : s.cache.Steady c) :
    Sound { s with cache := c } := by
  have hperiod : ({ s with cache := c } : TendedCache V).period = s.period := by
    unfold period
    rw [hc.config]
  exact {
    single := h.single
    ended := fun hdestroyed => h.ended (hc.destroyed ▸ hdestroyed)
    counted := hc.sweeps.trans h.counted
    spaced := hperiod ▸ h.spaced
    past := h.past
    ahead := hperiod ▸ h.ahead }

/-- An abort leaves no task that may run. -/
theorem stopped_of_aborted (h : s.Sound) {t : SweepTask} (ht : s.aborted[i]? = some t) :
    t.stopped = true := by
  rw [getElem?_aborted] at ht
  obtain ⟨u, hu, rfl⟩ := Option.map_eq_some_iff.mp ht
  by_cases hhandle : s.handle = some i
  · rw [if_pos hhandle]
    rfl
  · rw [if_neg hhandle]
    by_contra hrunning
    exact hhandle (h.single i u hu (by simpa using hrunning))

/-- After a start the new task alone may run. -/
theorem eq_of_running (h : s.Sound) {t : SweepTask}
    (ht : (s.aborted ++ [⟨none, false⟩])[i]? = some t) (hrunning : t.stopped = false) :
    i = s.tasks.length ∧ t = ⟨none, false⟩ := by
  have hlength := s.length_aborted
  rcases Nat.lt_or_ge i s.aborted.length with hlt | hge
  · rw [List.getElem?_append_left hlt] at ht
    rw [h.stopped_of_aborted ht] at hrunning
    contradiction
  · rw [List.getElem?_append_right hge, List.getElem?_singleton] at ht
    split at ht
    · exact ⟨by omega, (Option.some.inj ht).symm⟩
    · contradiction

theorem start (h : s.Sound) (timer : Bool) : (s.start timer).1.Sound := by
  rcases s.start_cases timer with ⟨-, heq⟩ | ⟨halive, -, heq⟩
  · rw [heq]
    exact h
  · rw [heq]
    refine ⟨fun i t ht hrunning => ?_, fun hdestroyed => ?_, h.counted, h.spaced, h.past,
      fun i d ht => ?_⟩
    · rw [(h.eq_of_running ht hrunning).1]
    · rw [halive] at hdestroyed
      contradiction
    · cases (h.eq_of_running ht rfl).2

theorem destroy (h : s.Sound) : s.destroy.Sound := by
  refine ⟨fun i t ht hrunning => ?_, fun _ => rfl, h.counted, h.spaced, h.past, fun i d ht => ?_⟩
  · rw [h.stopped_of_aborted ht] at hrunning
    contradiction
  · cases h.stopped_of_aborted ht

/-- One task that may run changes. -/
theorem single_set (h : s.Sound) {u : SweepTask} (hu : s.tasks[i]? = some u)
    (hrunning : u.stopped = false) {t : SweepTask} {j : Nat} {t' : SweepTask}
    (ht' : (s.tasks.set i t)[j]? = some t') (hrunning' : t'.stopped = false) :
    s.handle = some j ∧ j = i ∧ t' = t := by
  have hi := h.single i u hu hrunning
  rw [List.getElem?_set] at ht'
  by_cases hij : i = j
  · subst hij
    have hlt := (List.getElem?_eq_some_iff.mp hu).1
    rw [if_pos rfl, if_pos hlt] at ht'
    exact ⟨hi, rfl, (Option.some.inj ht').symm⟩
  · rw [if_neg hij] at ht'
    have hj := h.single j t' ht' hrunning'
    exact absurd (Option.some.inj (hi.symm.trans hj)) hij

/-- The due tick of a task is one of a cache that is not destroyed. -/
theorem alive_of_due (h : s.Sound) {d : Nat} (hdue : s.Due i d) : s.cache.destroyed = false := by
  by_contra hdestroyed
  have hnone := h.ended (by simpa using hdestroyed)
  rw [h.single i _ hdue.1 rfl] at hnone
  contradiction

theorem poll (h : s.Sound) (i : Nat) (now : Instant) : (s.poll i now).Sound := by
  rcases s.poll_cases i now with ⟨-, heq⟩ | ⟨hfresh, heq⟩ | ⟨d, hdue, ⟨hgone, -⟩ | ⟨-, heq⟩⟩
  · rw [heq]
    exact h
  · rw [heq]
    refine ⟨fun j t ht hrunning => (h.single_set hfresh rfl ht hrunning).1, h.ended, h.counted,
      h.spaced, h.past, fun j d ht p hp => ?_⟩
    obtain ⟨-, -, htask⟩ := h.single_set hfresh rfl ht rfl
    cases htask
    exact Nat.add_le_add_right (h.past p hp) s.period
  · rw [h.alive_of_due hdue] at hgone
    contradiction
  · -- The tick was ahead of all sweeps by a period, and the next one is ahead of this sweep.
    rw [heq]
    have hbefore := h.ahead i d hdue.1
    refine ⟨fun j t ht hrunning => (h.single_set hdue.1 rfl ht hrunning).1, h.ended, ?_, ?_, ?_,
      fun j d' ht p hp => ?_⟩
    · rw [List.length_append]
      exact congrArg (· + 1) h.counted
    · rw [List.map_append]
      refine List.pairwise_append.mpr ⟨h.spaced, List.pairwise_singleton _ _, ?_⟩
      intro a ha b hb
      obtain ⟨p, hp, rfl⟩ := List.mem_map.mp ha
      rw [List.mem_singleton.mp hb]
      exact hbefore p hp
    · intro p hp
      rcases List.mem_append.mp hp with hp | hp
      · exact h.past p hp
      · rw [List.mem_singleton.mp hp]
        exact hdue.2
    · obtain ⟨-, -, htask⟩ := h.single_set hdue.1 rfl ht rfl
      cases htask
      rcases List.mem_append.mp hp with hp | hp
      · have hspaced := hbefore p hp
        exact Nat.le_add_right_of_le hspaced
      · rw [List.mem_singleton.mp hp]
        exact Nat.le_refl _

theorem step (h : s.Sound) (event : TendedEvent V) : (s.step event).Sound := by
  cases event with
  | start timer => exact h.start timer
  | poll i now => exact h.poll i now
  | elapse nanos =>
    refine ⟨h.single, h.ended, h.counted, h.spaced, fun p hp => ?_, h.ahead⟩
    exact Nat.le_add_right_of_le (h.past p hp)
  | destroy => exact h.destroy
  | call made ordinary => exact h.keep (s.cache.steady_step ordinary)

theorem run (h : s.Sound) (events : List (TendedEvent V)) : (s.run events).Sound := by
  induction events generalizing s with
  | nil => exact h
  | cons event events ih => exact ih (h.step event)

/-- Two tasks that may both sweep are one. -/
theorem eq_of_maySweep (h : s.Sound) {i j : Nat} (hi : i < s.tasks.length)
    (hj : j < s.tasks.length) (hmay : s.MaySweep i) (hmay' : s.MaySweep j) : i = j := by
  have hhandle : ∀ i, i < s.tasks.length → s.MaySweep i → s.handle = some i := by
    intro i hi hmay
    refine h.single i s.tasks[i] (List.getElem?_eq_getElem hi) ?_
    by_contra hstopped
    exact Stopped.not_maySweep ⟨_, List.getElem?_eq_getElem hi, by simpa using hstopped⟩ hmay
  exact Option.some.inj ((hhandle i hi hmay).symm.trans (hhandle j hj hmay'))

end Sound

end TendedCache

end ActionPolicy
