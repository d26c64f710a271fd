import ActionPolicy.Proofs.Cache.Encoded
import ActionPolicy.Proofs.Engine.Operations

/-!
# Compression cannot be seen

An engine that holds decisions as JSON answers like one that holds them as they are. All that tells
them apart is what is known about an entry.

## Main definitions

* `Engine.EncodedAs`, `WatchedEngine.EncodedAs` – the second one holds encoded what the first one
  holds as it is, and is the same otherwise.
* `EngineSight.encoded` – what is seen then, if entries are encoded.
* `WatchedEngine.Hides` – only what is known about an entry tells two engines apart.

## Main statements

* `CacheSession.encodedAs_step` – overlapping calls are answered alike.
* `WatchedEngine.EncodedAs.step`, `WatchedEngine.EncodedAs.trace_eq` – so is everything else, over
  whole sequences of operations.
* `WatchedEngine.hides_compression` – new engines, with and without compression.

## Design notes

Nothing here depends on what JSON is like: of the codec it is used only that every decision is
encoded, and decoded to itself.
-/

namespace ActionPolicy

variable {codec : Codec Decision}

theorem Codec.decisions_roundTrips : decisions.RoundTrips := decisions_decode_encode

/-! ### Cache sessions -/

theorem CacheSession.encodedAs_step {V : Type} {codec : Codec V} (hcodec : codec.RoundTrips)
    (s s' : CacheSession V) (h : s.cache.EncodedAs codec s'.cache)
    (hunder : s'.underWay = s.underWay) (event : SessionEvent V) :
    (s.step event).1.cache.EncodedAs codec (s'.step event).1.cache ∧
      (s'.step event).1.underWay = (s.step event).1.underWay ∧
      (s'.step event).2 = (s.step event).2.encoded := by
  have hfind : ∀ id, s'.find? id = s.find? id := fun id => by rw [find?, find?, hunder]
  have hothers : ∀ id, s'.others id = s.others id := fun id => by rw [others, others, hunder]
  cases event with
  | call call =>
    obtain ⟨hstate, hanswer⟩ := h.step hcodec call
    exact ⟨hstate, hunder, hanswer⟩
  | ask now id ttl version =>
    obtain ⟨hstate, hresult⟩ := h.get hcodec now id.key version
    refine ⟨hstate, ?_, congrArg CacheAnswer.value hresult⟩
    rw [underWay_ask, underWay_ask, hresult, hunder]
  | derived now id value micros =>
    simp only [step, hfind, hothers]
    cases s.find? id with
    | none => exact ⟨h, hunder, rfl⟩
    | some u => exact ⟨(h.abandon micros).set hcodec now id.key value u.ttl u.version, rfl, rfl⟩
  | abandoned now id micros =>
    simp only [step, hfind, hothers]
    cases s.find? id with
    | none => exact ⟨h, hunder, rfl⟩
    | some u => exact ⟨h.abandon micros, rfl, rfl⟩

/-! ### Sweeps -/

namespace SweptCache

variable {V : Type}

/-- Both are swept at the same times, and the second cache holds encoded what the first one
holds. -/
structure EncodedAs (codec : Codec V) (s s' : SweptCache V) : Prop where
  cache : s.cache.EncodedAs codec s'.cache
  elapsed : s'.elapsed = s.elapsed
  due : s'.due = s.due

namespace EncodedAs

variable {codec : Codec V} {s s' : SweptCache V}

theorem period_eq (h : s.EncodedAs codec s') : s'.period = s.period := by
  rw [period, period, h.cache.config]

theorem startSweeper (h : s.EncodedAs codec s') (timer : Bool) :
    (s.startSweeper timer).1.EncodedAs codec (s'.startSweeper timer).1 ∧
      (s'.startSweeper timer).2 = (s.startSweeper timer).2 := by
  simp only [SweptCache.startSweeper, h.cache.destroyed, h.elapsed, h.period_eq]
  split
  · exact ⟨h, rfl⟩
  · exact ⟨⟨h.cache, rfl, rfl⟩, rfl⟩

theorem destroy (h : s.EncodedAs codec s') : s.destroy.EncodedAs codec s'.destroy :=
  ⟨h.cache.destroy, h.elapsed, rfl⟩

theorem sweepUntil (h : s.EncodedAs codec s') (finish : Nat) (now : Instant) (fuel : Nat) :
    (sweepUntil finish now fuel s).EncodedAs codec (sweepUntil finish now fuel s') := by
  induction fuel generalizing s s' with
  | zero => exact h
  | succ fuel ih =>
    simp only [SweptCache.sweepUntil, h.due]
    cases s.due with
    | none => exact h
    | some t =>
      dsimp only
      split
      · exact h
      · rw [h.period_eq]
        exact ih ⟨h.cache.sweep now, h.elapsed, rfl⟩

theorem run (h : s.EncodedAs codec s') (now : Instant) (d : Duration) :
    (s.run now d).EncodedAs codec (s'.run now d) := by
  have hsweeps := h.sweepUntil (s.elapsed + d.nanos) now (d.nanos / s.period + 1)
  simp only [SweptCache.run, h.elapsed, h.period_eq]
  exact ⟨hsweeps.cache, rfl, hsweeps.due⟩

end EncodedAs

end SweptCache

/-! ### Engines -/

namespace Engine

/-- Both resolve alike, and the second one holds encoded what the first one holds. -/
structure EncodedAs (codec : Codec Decision) (e e' : Engine) : Prop where
  swept : e.swept.EncodedAs codec e'.swept
  resolver : e'.resolver = e.resolver

namespace EncodedAs

variable {e e' : Engine}

theorem withCache (h : e.EncodedAs codec e') {c c' : Cache Decision} (hc : c.EncodedAs codec c') :
    (e.withCache c).EncodedAs codec (e'.withCache c') :=
  ⟨⟨hc, h.swept.elapsed, h.swept.due⟩, h.resolver⟩

theorem invalidate (h : e.EncodedAs codec e') (k : CacheKey) :
    (e.invalidate k).1.EncodedAs codec (e'.invalidate k).1 ∧
      (e'.invalidate k).2 = (e.invalidate k).2 := by
  obtain ⟨hstate, hresult⟩ := h.swept.cache.delete k
  exact ⟨h.withCache hstate, hresult⟩

theorem invalidateNamespace (h : e.EncodedAs codec e') (ns : Namespace) :
    (e.invalidateNamespace ns).1.EncodedAs codec (e'.invalidateNamespace ns).1 ∧
      (e'.invalidateNamespace ns).2 = (e.invalidateNamespace ns).2 := by
  obtain ⟨hstate, hresult⟩ := h.swept.cache.clearNamespace ns
  exact ⟨h.withCache hstate, hresult⟩

theorem dropNamespaces (h : e.EncodedAs codec e') (namespaces : List Namespace) :
    (e.dropNamespaces namespaces).EncodedAs codec (e'.dropNamespaces namespaces) := by
  induction namespaces generalizing e e' with
  | nil => exact h
  | cons ns rest ih => exact ih (h.invalidateNamespace ns).1

theorem ofCache_new (codec : Codec Decision) (config config' : CacheConfig)
    (h : config' = { config with compress := config'.compress }) (resolver : PriorityTable) :
    (ofCache (.new config none) resolver).EncodedAs codec
      (ofCache (.new config' (some codec)) resolver) :=
  ⟨⟨.new codec h, rfl, rfl⟩, rfl⟩

theorem create (config : CacheConfig) (resolver : PriorityTable) (timer : Bool) :
    (Engine.create { config with compress := false } resolver timer).EncodedAs .decisions
      (Engine.create { config with compress := true } resolver timer) := by
  have hnew := ofCache_new .decisions { config with compress := false }
    { config with compress := true } rfl resolver
  exact ⟨(hnew.swept.startSweeper timer).1, rfl⟩

end EncodedAs

end Engine

/-! ### Engines with a watcher -/

/-- What is answered if entries are encoded. -/
def EngineAnswer.encoded : EngineAnswer → EngineAnswer
  | .cache answer => .cache answer.encoded
  | answer => answer

/-- What is seen if entries are encoded. -/
def EngineSight.encoded (sight : EngineSight) : EngineSight :=
  { sight with answer := sight.answer.encoded }

namespace WatchedEngine

/-- Both have the same calls under way and the same watcher, and the second one holds encoded what
the first one holds. -/
structure EncodedAs (codec : Codec Decision) (s s' : WatchedEngine) : Prop where
  engine : s.engine.EncodedAs codec s'.engine
  underWay : s'.underWay = s.underWay
  watcher : s'.watcher = s.watcher

/-- What is seen of the second one is what is seen of the first one, except that entries are known
to be encoded, and in neither a failure to encode or decode is ever counted. -/
def Hides (s s' : WatchedEngine) : Prop :=
  ∀ ops, s'.trace ops = (s.trace ops).map EngineSight.encoded ∧
    ∀ sight ∈ s.trace ops ++ s'.trace ops, sight.metrics.counts.transformErrors = 0

namespace EncodedAs

variable {s s' : WatchedEngine}

theorem withEngine (h : s.EncodedAs codec s') {e e' : Engine} (he : e.EncodedAs codec e') :
    EncodedAs codec { s with engine := e } { s' with engine := e' } :=
  ⟨he, h.underWay, h.watcher⟩

theorem step (h : s.EncodedAs codec s') (hcodec : codec.RoundTrips) (event : WatchedEvent) :
    (s.step event).EncodedAs codec (s'.step event) ∧ s'.answer event = (s.answer event).encoded := by
  cases event with
  | use event =>
    obtain ⟨hcache, hunder, hanswer⟩ := CacheSession.encodedAs_step hcodec s.session s'.session
      h.engine.swept.cache h.underWay event
    exact ⟨⟨h.engine.withCache hcache, hunder, h.watcher⟩, congrArg EngineAnswer.cache hanswer⟩
  | invalidate k =>
    obtain ⟨hstate, hresult⟩ := h.engine.invalidate k
    exact ⟨h.withEngine hstate, congrArg EngineAnswer.existed hresult⟩
  | invalidateNamespace ns =>
    obtain ⟨hstate, hresult⟩ := h.engine.invalidateNamespace ns
    exact ⟨h.withEngine hstate, congrArg EngineAnswer.removed hresult⟩
  | clearTaskRelated taskId =>
    exact ⟨h.withEngine ((h.engine.invalidate (.buttons taskId)).1.dropNamespaces _), rfl⟩
  | clearFormRelated => exact ⟨h.withEngine (h.engine.dropNamespaces _), rfl⟩
  | startSweeper timer =>
    obtain ⟨hstate, hresult⟩ := h.engine.swept.startSweeper timer
    exact ⟨h.withEngine ⟨hstate, h.engine.resolver⟩, congrArg EngineAnswer.sweeping hresult⟩
  | elapse now d => exact ⟨h.withEngine ⟨h.engine.swept.run now d, h.engine.resolver⟩, rfl⟩
  | destroy => exact ⟨h.withEngine ⟨h.engine.swept.destroy, h.engine.resolver⟩, rfl⟩
  | seen => exact ⟨⟨h.engine, h.underWay, congrArg TableWatcher.markSeen h.watcher⟩, rfl⟩
  | poll loaded =>
    -- The watchers are the same, so both publish the table or neither does.
    have hpublishes : s'.watcher.publishes? loaded = s.watcher.publishes? loaded := by rw [h.watcher]
    refine ⟨?_, congrArg EngineAnswer.published hpublishes⟩
    cases hloaded : s.watcher.publishes? loaded with
    | none =>
      rw [s.step_poll_of_not_publishes hloaded,
        s'.step_poll_of_not_publishes (hpublishes.trans hloaded)]
      exact h
    | some table =>
      rw [s.step_poll_of_publishes hloaded, s'.step_poll_of_publishes (hpublishes.trans hloaded),
        h.watcher]
      exact ⟨h.engine.dropNamespaces tableDerived, h.underWay, rfl⟩

theorem perform (h : s.EncodedAs codec s') (hcodec : codec.RoundTrips) (op : EngineOp) :
    (s.perform op).1.EncodedAs codec (s'.perform op).1 ∧
      (s'.perform op).2 = (s.perform op).2.encoded := by
  rw [perform_eq, perform_eq, h.engine.resolver]
  exact h.step hcodec (op.event s.engine.resolver)

theorem sight_eq (h : s.EncodedAs codec s') (answer : EngineAnswer) :
    s'.sight answer.encoded = (s.sight answer).encoded := by
  have hcache := h.engine.swept.cache
  have hstats : s'.engine.cache.stats = s.engine.cache.stats := hcache.stats_eq
  have hmetrics : s'.engine.cache.metrics = s.engine.cache.metrics := hcache.metrics
  have hdestroyed : s'.engine.cache.destroyed = s.engine.cache.destroyed := hcache.destroyed
  rw [sight, sight, EngineSight.encoded, hstats, hmetrics, hdestroyed]

/-- Whatever is asked in sequence, both answer alike, and neither has failed. -/
theorem trace_eq (h : s.EncodedAs codec s') (hcodec : codec.RoundTrips) (ops : List EngineOp) :
    s'.trace ops = (s.trace ops).map EngineSight.encoded ∧
      ∀ sight ∈ s.trace ops, sight.metrics.counts.transformErrors = 0 := by
  induction ops generalizing s s' with
  | nil => exact ⟨rfl, fun _ hsight => absurd hsight List.not_mem_nil⟩
  | cons op ops ih =>
    obtain ⟨hstate, hanswer⟩ := h.perform hcodec op
    obtain ⟨hrest, hflawless⟩ := ih hstate
    constructor
    · rw [trace, trace, List.map_cons, hanswer, hstate.sight_eq, hrest]
    · intro sight hsight
      rcases List.mem_cons.mp hsight with rfl | hsight
      · exact hstate.engine.swept.cache.flawless
      · exact hflawless sight hsight

theorem hides (h : s.EncodedAs codec s') (hcodec : codec.RoundTrips) : s.Hides s' := by
  intro ops
  obtain ⟨htrace, hflawless⟩ := h.trace_eq hcodec ops
  refine ⟨htrace, fun sight hsight => ?_⟩
  rcases List.mem_append.mp hsight with hsight | hsight
  · exact hflawless sight hsight
  · -- What is seen of the second one has the counters of what is seen of the first one.
    rw [htrace] at hsight
    obtain ⟨seen, hseen, rfl⟩ := List.mem_map.mp hsight
    exact hflawless seen hseen

end EncodedAs

/-- Whether or not an engine is created with compression, and whether or not a cache is given the
JSON codec, cannot be told from what is answered, from what the cache holds in numbers, and from
what it has counted, except that entries are known to be encoded. -/
theorem hides_compression (config : CacheConfig) (resolver : PriorityTable) (interval : Duration)
    (first : Except TableError RuleTable) :
    (∀ timer,
      (start (.create { config with compress := false } resolver timer) interval first).Hides
        (start (.create { config with compress := true } resolver timer) interval first)) ∧
      (start (.ofCache (.new config none) resolver) interval first).Hides
        (start (.ofCache (.new config (some .decisions)) resolver) interval first) := by
  have hstart : ∀ {e e' : Engine}, e.EncodedAs .decisions e' →
      (start e interval first).Hides (start e' interval first) := by
    intro e e' he
    exact EncodedAs.hides ⟨he, rfl, rfl⟩ Codec.decisions_roundTrips
  exact ⟨fun timer => hstart (.create config resolver timer),
    hstart (.ofCache_new .decisions config config rfl resolver)⟩

end WatchedEngine

end ActionPolicy
