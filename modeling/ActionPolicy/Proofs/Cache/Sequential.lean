import ActionPolicy.Proofs.Cache.Session

/-!
# Derivations leave no trace

Calls that derive values may overlap in any way. What they do to a cache is what lookups and stored
values do, one after another: each call is a lookup where it began, and one that ended with a value
is that value stored where it ended. A call that failed or was given up is its lookup alone.

## Main definitions

* `Cache.Alike` – caches that differ at most in the derivations they have counted.
* `CacheSession.sequential` – the calls in one piece that a sequence of events amounts to.

## Main statements

* `Cache.Alike.step` – caches that are alike answer alike and stay alike.
* `CacheSession.alike_step` – an event does what its call in one piece does.
* `CacheSession.run_sequential` – so does a whole session, with the same answers.
-/

namespace ActionPolicy

variable {V : Type}

/-! ### Counting derivations -/

/-- Counters that differ at most in the derivations. -/
def CacheMetrics.Alike (m m' : CacheMetrics) : Prop :=
  m'.counts = { m.counts with derivations := m'.counts.derivations }

namespace CacheMetrics.Alike

variable {m m' : CacheMetrics}

theorem refl (m : CacheMetrics) : m.Alike m := rfl

/-- An event that is no derivation is counted in both. -/
theorem count (h : m.Alike m') {f : MetricsSnapshot → MetricsSnapshot}
    (hf : ∀ c n, f { c with derivations := n } = { f c with derivations := n })
    (hn : ∀ c, (f c).derivations = c.derivations) : (m.count f).Alike (m'.count f) := by
  show f m'.counts = { f m.counts with derivations := (f m'.counts).derivations }
  rw [hn, ← hf]
  exact congrArg f h

theorem recordLookup (h : m.Alike m') (hit : Bool) :
    (m.recordLookup hit).Alike (m'.recordLookup hit) := by
  refine h.count (fun c n => ?_) fun c => ?_
  · cases hit <;> rfl
  · cases hit <;> rfl

theorem recordExpiration (h : m.Alike m') : m.recordExpiration.Alike m'.recordExpiration :=
  h.count (fun _ _ => rfl) fun _ => rfl

theorem recordVersionMismatch (h : m.Alike m') :
    m.recordVersionMismatch.Alike m'.recordVersionMismatch :=
  h.count (fun _ _ => rfl) fun _ => rfl

theorem recordEviction (h : m.Alike m') : m.recordEviction.Alike m'.recordEviction :=
  h.count (fun _ _ => rfl) fun _ => rfl

theorem recordTransformError (h : m.Alike m') :
    m.recordTransformError.Alike m'.recordTransformError :=
  h.count (fun _ _ => rfl) fun _ => rfl

theorem recordSweep (h : m.Alike m') (removed : Nat) :
    (m.recordSweep removed).Alike (m'.recordSweep removed) :=
  h.count (fun _ _ => rfl) fun _ => rfl

theorem recordDerivation (h : m.Alike m') (micros micros' : Nat) :
    (m.recordDerivation micros).Alike (m'.recordDerivation micros') := by
  show { m'.counts with derivations := m'.counts.derivations + 1 } =
    { m.counts with derivations := m'.counts.derivations + 1 }
  rw [h]

theorem recordDerivation_left (h : m.Alike m') (micros : Nat) :
    (m.recordDerivation micros).Alike m' := h

end CacheMetrics.Alike

namespace Cache

/-- Caches that differ at most in the derivations they have counted. -/
structure Alike (c c' : Cache V) : Prop where
  config : c'.config = c.config
  codec : c'.codec = c.codec
  /-- The entries are the same, and so is the order of their touches. -/
  store : c'.store = c.store
  metrics : c.metrics.Alike c'.metrics
  destroyed : c'.destroyed = c.destroyed

namespace Alike

variable {c c' : Cache V}

theorem refl (c : Cache V) : c.Alike c := ⟨rfl, rfl, rfl, .refl _, rfl⟩

theorem change (h : c.Alike c') (s : Store V) {m m' : CacheMetrics} (hm : m.Alike m') :
    Alike { c with store := s, metrics := m } { c' with store := s, metrics := m' } :=
  ⟨h.config, h.codec, rfl, hm, h.destroyed⟩

theorem encode_eq (h : c.Alike c') (value : V) : c'.encode value = c.encode value := by
  rw [Cache.encode, Cache.encode, h.codec]

theorem decode_eq (h : c.Alike c') (held : Stored V) : c'.decode held = c.decode held := by
  cases held with
  | raw value => rfl
  | encoded bytes => rw [Cache.decode, Cache.decode, h.codec]

theorem makeRoom_eq (h : c.Alike c') (k : CacheKey) : c'.makeRoom k = c.makeRoom k := by
  rw [Cache.makeRoom, Cache.makeRoom, h.store, h.config]

theorem set (h : c.Alike c') (now : Instant) (k : CacheKey) (value : V) (ttl : Option Duration)
    (version : Option String) :
    (c.set now k value ttl version).Alike (c'.set now k value ttl version) := by
  have hdefault : c'.config.defaultTtl = c.config.defaultTtl := by rw [h.config]
  simp only [Cache.set, h.encode_eq, h.makeRoom_eq, hdefault]
  refine h.change _ ?_
  have hfailed : CacheMetrics.Alike
      (if (c.encode value).2 = true then c.metrics.recordTransformError else c.metrics)
      (if (c.encode value).2 = true then c'.metrics.recordTransformError else c'.metrics) := by
    split
    · exact h.metrics.recordTransformError
    · exact h.metrics
  split
  · exact hfailed.recordEviction
  · exact hfailed

theorem abandon (h : c.Alike c') (micros : Nat) : (c.abandon micros).Alike (c'.abandon micros) :=
  ⟨h.config, h.codec, h.store, h.metrics.recordDerivation micros micros, h.destroyed⟩

theorem abandon_left (h : c.Alike c') (micros : Nat) : (c.abandon micros).Alike c' :=
  ⟨h.config, h.codec, h.store, h.metrics.recordDerivation_left micros, h.destroyed⟩

theorem drop (h : c.Alike c') (k : CacheKey) {count : CacheMetrics → CacheMetrics}
    (hcount : (count c.metrics).Alike (count c'.metrics)) :
    (c.drop k count).Alike (c'.drop k count) := by
  simp only [Cache.drop, h.store]
  exact h.change _ hcount

theorem lookup (h : c.Alike c') (now : Instant) (k : CacheKey) (version : Option String) :
    (c.lookup now k version).1.Alike (c'.lookup now k version).1 ∧
      (c'.lookup now k version).2 = (c.lookup now k version).2 := by
  simp only [Cache.lookup, h.store, h.decode_eq]
  cases c.store.get? k with
  | none => exact ⟨h, rfl⟩
  | some e =>
    dsimp only
    split
    · exact ⟨h.drop k h.metrics.recordExpiration, rfl⟩
    split
    · exact ⟨h.drop k h.metrics.recordVersionMismatch, rfl⟩
    cases c.decode e.value with
    | none => exact ⟨h.drop k h.metrics.recordTransformError, rfl⟩
    | some value => exact ⟨h.change _ h.metrics, rfl⟩

theorem tryGet (h : c.Alike c') (now : Instant) (k : CacheKey) (version : Option String) :
    (c.tryGet now k version).1.Alike (c'.tryGet now k version).1 ∧
      (c'.tryGet now k version).2 = (c.tryGet now k version).2 := by
  obtain ⟨hstate, hresult⟩ := h.lookup now k version
  simp only [Cache.tryGet, hresult]
  exact ⟨⟨hstate.config, hstate.codec, hstate.store, hstate.metrics.recordLookup _,
    hstate.destroyed⟩, trivial⟩

theorem get (h : c.Alike c') (now : Instant) (k : CacheKey) (version : Option String) :
    (c.get now k version).1.Alike (c'.get now k version).1 ∧
      (c'.get now k version).2 = (c.get now k version).2 := by
  obtain ⟨hstate, hresult⟩ := h.tryGet now k version
  exact ⟨hstate, congrArg Except.toOption hresult⟩

theorem restore (h : c.Alike c') (s : Store V) :
    Alike { c with store := s } { c' with store := s } := h.change s h.metrics

/-- Caches that are alike answer a call alike and are alike after it. -/
theorem step (h : c.Alike c') (call : CacheCall V) :
    (c.step call).1.Alike (c'.step call).1 ∧ (c'.step call).2 = (c.step call).2 := by
  obtain ⟨now, op⟩ := call
  cases op with
  | set k value ttl version => exact ⟨h.set now k value ttl version, rfl⟩
  | get k version =>
    obtain ⟨hstate, hresult⟩ := h.get now k version
    exact ⟨hstate, congrArg CacheAnswer.value hresult⟩
  | tryGet k version =>
    obtain ⟨hstate, hresult⟩ := h.tryGet now k version
    exact ⟨hstate, congrArg CacheAnswer.outcome hresult⟩
  | has k version =>
    obtain ⟨hstate, hresult⟩ := h.tryGet now k version
    exact ⟨hstate, congrArg (fun r : Except MissReason V => CacheAnswer.existed r.toBool) hresult⟩
  | delete k =>
    simp only [Cache.step, Cache.delete, h.store]
    exact ⟨h.restore _, rfl⟩
  | clearNamespace ns =>
    simp only [Cache.step, Cache.clearNamespace, h.store]
    exact ⟨h.restore _, rfl⟩
  | clear =>
    simp only [Cache.step, Cache.clear, h.store]
    exact ⟨h.restore _, trivial⟩
  | purgeExpired =>
    simp only [Cache.step, Cache.purgeExpired, h.store]
    exact ⟨h.restore _, rfl⟩
  | sweep =>
    simp only [Cache.step, Cache.sweep, Cache.purgeExpired, h.store]
    exact ⟨h.change _ (h.metrics.recordSweep _), trivial⟩
  | stats => exact ⟨h, by simp only [Cache.step, Cache.stats, h.store, h.config]⟩
  | info k => exact ⟨h, by simp only [Cache.step, Cache.info, h.store]⟩
  | getOrInsert k ttl version derived later micros =>
    obtain ⟨hstate, hresult⟩ := h.get now k version
    simp only [Cache.step, Cache.getOrInsert]
    cases hget : c.get now k version with
    | mk d found =>
      cases hget' : c'.get now k version with
      | mk d' found' =>
        rw [hget, hget'] at hstate hresult
        obtain rfl : found' = found := hresult
        cases found' with
        | some value => exact ⟨hstate, rfl⟩
        | none => exact ⟨(hstate.abandon micros).set later k derived ttl version, rfl⟩
  | complete k derived ttl version micros =>
    exact ⟨(h.abandon micros).set now k derived ttl version, rfl⟩
  | abandon micros => exact ⟨h.abandon micros, rfl⟩
  | destroy =>
    simp only [Cache.step, Cache.destroy, Cache.clear, h.store]
    exact ⟨⟨h.config, h.codec, rfl, h.metrics, rfl⟩, trivial⟩

end Alike

end Cache

/-! ### Calls in one piece -/

namespace CacheSession

/-- The call in one piece that an event amounts to: a lookup where a call begins, a value stored
where it ends with one, and nothing where it ends without. -/
def sequential? (s : CacheSession V) : SessionEvent V → Option (CacheCall V)
  | .call call => some call
  | .ask now id _ version => some ⟨now, .get id.key version⟩
  | .derived now id value _ => (s.find? id).map fun u => ⟨now, .set id.key value u.ttl u.version⟩
  | .abandoned _ _ _ => none

/-- The calls in one piece that a sequence of events amounts to. -/
def sequential (s : CacheSession V) : List (SessionEvent V) → List (CacheCall V)
  | [] => []
  | event :: events => (s.sequential? event).toList ++ (s.step event).1.sequential events

/-- What the call in one piece is answered. -/
def sequentialAnswer? : SessionEvent V × CacheAnswer V → Option (CacheAnswer V)
  | (.call _, answer) => some answer
  | (.ask _ _ _ _, answer) => some answer
  | (.derived _ _ _ _, .derived _ _) => some .done
  | _ => none

/-- An event does what its call in one piece does, and is answered the same. -/
theorem alike_step {s : CacheSession V} {c : Cache V} (h : s.cache.Alike c)
    (event : SessionEvent V) :
    (s.step event).1.cache.Alike (c.run (s.sequential? event).toList) ∧
      (c.trace (s.sequential? event).toList).map Prod.fst =
        (sequentialAnswer? (event, (s.step event).2)).toList := by
  cases event with
  | call call =>
    obtain ⟨hstate, hanswer⟩ := h.step call
    exact ⟨hstate, congrArg (fun answer => [answer]) hanswer⟩
  | ask now id ttl version =>
    obtain ⟨hstate, hanswer⟩ := h.step ⟨now, .get id.key version⟩
    exact ⟨hstate, congrArg (fun answer => [answer]) hanswer⟩
  | derived now id value micros =>
    -- Storing the value is all that the end does, apart from counting the derivation.
    simp only [step, sequential?]
    cases s.find? id with
    | none => exact ⟨h, rfl⟩
    | some u => exact ⟨(h.abandon_left micros).set now id.key value u.ttl u.version, rfl⟩
  | abandoned now id micros =>
    simp only [step, sequential?]
    cases s.find? id with
    | none => exact ⟨h, rfl⟩
    | some u => exact ⟨h.abandon_left micros, rfl⟩

theorem alike_run {s : CacheSession V} {c : Cache V} (h : s.cache.Alike c)
    (events : List (SessionEvent V)) :
    (s.run events).cache.Alike (c.run (s.sequential events)) ∧
      (c.trace (s.sequential events)).map Prod.fst =
        (s.trace events).filterMap sequentialAnswer? := by
  induction events generalizing s c with
  | nil => exact ⟨h, rfl⟩
  | cons event events ih =>
    obtain ⟨hstate, hanswer⟩ := alike_step h event
    obtain ⟨hrun, hanswers⟩ := ih hstate
    simp only [run_cons, sequential, trace]
    -- The event amounts to one call or to none.
    cases hcall : s.sequential? event with
    | none =>
      rw [hcall] at hanswer hrun hanswers
      have hnone : sequentialAnswer? (event, (s.step event).2) = none :=
        Option.toList_eq_nil_iff.mp hanswer.symm
      rw [List.filterMap_cons_none hnone]
      exact ⟨hrun, hanswers⟩
    | some call =>
      rw [hcall] at hanswer hrun hanswers
      have hsome : sequentialAnswer? (event, (s.step event).2) = some (c.step call).2 :=
        Option.toList_eq_singleton_iff.mp hanswer.symm
      rw [List.filterMap_cons_some hsome, ← hanswers]
      exact ⟨hrun, rfl⟩

/-- The value that a call ends with is stored as the call was asked for. -/
theorem asked_of_sequential? {s : CacheSession V} {before : List (SessionEvent V)} {now : Instant}
    {id : CallId} {value : V} {micros : Nat} {call : CacheCall V}
    (h : (s.run before).sequential? (.derived now id value micros) = some call) :
    ∃ ttl version, call = ⟨now, .set id.key value ttl version⟩ ∧
      (⟨id, ttl, version⟩ ∈ s.underWay ∨ ∃ asked, .ask asked id ttl version ∈ before) := by
  obtain ⟨u, hu, rfl⟩ := Option.map_eq_some_iff.mp h
  have hid : u.id = id := by simpa using List.find?_some hu
  refine ⟨u.ttl, u.version, rfl, ?_⟩
  subst hid
  exact asked_of_underWay (List.mem_of_find?_eq_some hu)

/-- However calls that derive values overlap with each other and with all other calls, the entries
and the order of their touches are those after lookups and stored values one after another, and all
answers are the same. What failed or was given up has been its lookup and nothing else, and what
ended with a value is stored as it was asked for. -/
theorem run_sequential (s : CacheSession V) (events : List (SessionEvent V)) :
    let c := s.cache.run (s.sequential events)
    (s.run events).cache.store = c.store ∧ (s.run events).cache.Alike c ∧
      (s.trace events).filterMap sequentialAnswer? =
        (s.cache.trace (s.sequential events)).map Prod.fst ∧
      ∀ before now id value micros call,
        (s.run before).sequential? (.derived now id value micros) = some call →
          ∃ ttl version, call = ⟨now, .set id.key value ttl version⟩ ∧
            (⟨id, ttl, version⟩ ∈ s.underWay ∨ ∃ asked, .ask asked id ttl version ∈ before) := by
  intro c
  obtain ⟨hstate, hanswers⟩ := alike_run (.refl s.cache) events
  exact ⟨hstate.store.symm, hstate, hanswers.symm, fun _ _ _ _ _ _ => asked_of_sequential?⟩

end CacheSession

end ActionPolicy
