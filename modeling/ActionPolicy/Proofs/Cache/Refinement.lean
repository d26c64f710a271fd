import ActionPolicy.Proofs.Cache.PlainCache

/-!
# Caches are plain caches

A cache keeps its entries and the order of their touches apart, and every operation changes both.
Whatever is asked of it, it answers as a plain cache does, which is one list.

## Main definitions

* `Cache.Simulates` – a cache holds the records of a plain cache and has counted the same.

## Main statements

* `Cache.Simulates.step` – every call gives the same answer and leads to states related again.
* `Cache.Simulates.run`, `Cache.Simulates.trace_eq` – the same for sequences of calls.
* `Cache.trace_eq_plainCache` – from a new cache on, nothing tells a cache from a plain one.
-/

namespace ActionPolicy

open CacheRecord

namespace Cache

variable {V : Type}

/-- A cache holds the records of a plain cache, no more than there may be, and has the same settings
and the same counts. -/
structure Simulates (c : Cache V) (m : PlainCache V) : Prop where
  /-- The settings are the same, but that the capacity has been raised to one. -/
  config : c.config = { m.config with capacity := m.limit }
  /-- Values are held in the same form. -/
  codec : c.codec = m.codec
  holds : c.store.Holds m.records
  /-- There are not more of them than there may be. -/
  bounded : m.records.length ≤ m.limit
  metrics : c.metrics = m.metrics

/-- States are related, and the results are equal. -/
def Agree {α : Type} (x : Cache V × α) (y : PlainCache V × α) : Prop :=
  Simulates x.1 y.1 ∧ x.2 = y.2

theorem Agree.map {α β : Type} {x : Cache V × α} {y : PlainCache V × α} (h : Agree x y)
    (f : α → β) : Agree (x.map id f) (y.map id f) :=
  ⟨h.1, congrArg f h.2⟩

namespace Simulates

variable {c : Cache V} {m : PlainCache V}

theorem new (config : CacheConfig) (codec : Option (Codec V)) :
    Simulates (Cache.new config codec) (PlainCache.new config codec) where
  config := rfl
  codec := rfl
  holds := .empty
  bounded := Nat.zero_le _
  metrics := rfl

theorem capacity_eq (h : Simulates c m) : c.config.capacity = m.limit := by rw [h.config]

/-- Other counts keep states related. -/
theorem recount (h : Simulates c m) {metrics metrics' : CacheMetrics} (hm : metrics = metrics') :
    Simulates { c with metrics := metrics } { m with metrics := metrics' } :=
  ⟨h.config, h.codec, h.holds, h.bounded, hm⟩

/-- Other records, of which there are not more, and other counts keep states related. -/
theorem change (h : Simulates c m) {s : Store V} {records : List (CacheRecord V)}
    (hs : s.Holds records) (hn : records.length ≤ m.limit) {metrics metrics' : CacheMetrics}
    (hm : metrics = metrics') :
    Simulates { c with store := s, metrics := metrics }
      { m with records := records, metrics := metrics' } :=
  ⟨h.config, h.codec, hs, hn, hm⟩

/-! ### Values at rest -/

theorem encode_eq (h : Simulates c m) (value : V) : c.encode value = m.encode value := by
  unfold Cache.encode PlainCache.encode
  rw [h.codec]
  cases m.codec with
  | none => rfl
  | some codec =>
    simp only [Option.map_some]
    cases codec.encode value <;> rfl

theorem decode_eq (h : Simulates c m) (held : Stored V) : c.decode held = m.decode held := by
  unfold Cache.decode PlainCache.decode
  rw [h.codec]
  cases held with
  | raw value => rfl
  | encoded bytes => cases m.codec <;> rfl

/-! ### Storing -/

theorem isSome_get? (h : Simulates c m) (k : CacheKey) :
    (c.store.get? k).isSome = (find? k m.records).isSome := by
  rw [h.holds.find? k, Option.isSome_map]

/-- One record goes exactly if a new one needs its place, and it is the first. -/
theorem makeRoom (h : Simulates c m) (k : CacheKey) :
    (c.makeRoom k).2 = m.evicts k ∧
      (c.makeRoom k).1.Holds (if m.evicts k then m.records.tail else m.records) := by
  unfold Cache.makeRoom PlainCache.evicts
  rw [h.isSome_get? k, h.holds.size_eq, h.capacity_eq]
  cases hk : find? k m.records with
  | some r => exact ⟨rfl, h.holds⟩
  | none =>
    by_cases hfull : m.limit ≤ m.records.length
    · have hlength : m.records.length = m.limit := Nat.le_antisymm h.bounded hfull
      have hne : m.records ≠ [] := by
        rw [← List.length_pos_iff_ne_nil]
        exact Nat.lt_of_lt_of_le m.limit_pos hfull
      obtain ⟨s, hs, hholds⟩ := h.holds.evictOldest hne
      simpa [hlength, hs] using hholds
    · have hlength : m.records.length ≠ m.limit := fun he => hfull (Nat.le_of_eq he.symm)
      simpa [hfull, hlength] using h.holds

theorem set (h : Simulates c m) (now : Instant) (k : CacheKey) (value : V) (ttl : Option Duration)
    (version : Option String) :
    Simulates (c.set now k value ttl version) (m.set now k value ttl version) := by
  obtain ⟨hevicts, hroom⟩ := h.makeRoom k
  have hdefault : c.config.defaultTtl = m.config.defaultTtl := by rw [h.config]
  have hinsert := hroom.insert k (m.encode value).1 now
    (now.plus (ttl.getD m.config.defaultTtl)) version
  rw [PlainCache.without_staying] at hinsert
  simp only [Cache.set, PlainCache.set, h.encode_eq, hevicts, hdefault, h.metrics]
  refine h.change hinsert ?_ rfl
  rw [List.length_append, List.length_singleton]
  exact PlainCache.length_staying_lt h.bounded k

/-! ### Looking up -/

theorem drop (h : Simulates c m) (k : CacheKey) (count : CacheMetrics → CacheMetrics) :
    Simulates (c.drop k count) (m.drop k count) :=
  h.change (h.holds.remove k) (Nat.le_trans (length_without_le k _) h.bounded) (congrArg count h.metrics)

theorem conflicting_iff (wanted stored : Option String) :
    conflicting wanted stored = true ↔ wanted.isSome ∧ stored.isSome ∧ wanted ≠ stored := by
  cases wanted <;> cases stored <;> simp [conflicting]

theorem lookup (h : Simulates c m) (now : Instant) (k : CacheKey) (version : Option String) :
    Agree (c.lookup now k version) (m.lookup now k version) := by
  have hfind := h.holds.find? k
  unfold Cache.lookup PlainCache.lookup
  cases he : c.store.get? k with
  | none =>
    rw [he, Option.map_none] at hfind
    rw [hfind]
    exact ⟨h, rfl⟩
  | some e =>
    rw [he, Option.map_some] at hfind
    obtain ⟨r, hr, hvalue, hexpires, hversion⟩ : ∃ r, find? k m.records = some r ∧
        e.value = r.value ∧ e.expiresAt = r.expiresAt ∧ e.version = r.version :=
      ⟨_, hfind, rfl, rfl, rfl⟩
    rw [hr]
    simp only [Entry.expiredAt, decide_eq_true_eq, conflicting_iff, h.decode_eq, hvalue, hexpires,
      hversion]
    by_cases hexpired : r.expiresAt < now
    · rw [if_pos hexpired, if_pos hexpired]
      exact ⟨h.drop k _, rfl⟩
    rw [if_neg hexpired, if_neg hexpired]
    by_cases hother : version.isSome ∧ r.version.isSome ∧ version ≠ r.version
    · rw [if_pos hother, if_pos hother]
      exact ⟨h.drop k _, rfl⟩
    rw [if_neg hother, if_neg hother]
    cases m.decode r.value with
    | none => exact ⟨h.drop k _, rfl⟩
    | some value =>
      refine ⟨h.change (h.holds.touch hr now) ?_ h.metrics, rfl⟩
      rw [List.length_append, List.length_singleton]
      exact Nat.le_trans (length_without_lt hr) h.bounded

theorem tryGet (h : Simulates c m) (now : Instant) (k : CacheKey) (version : Option String) :
    Agree (c.tryGet now k version) (m.tryGet now k version) := by
  obtain ⟨hstate, hresult⟩ := h.lookup now k version
  simp only [Agree, Cache.tryGet, PlainCache.tryGet, hresult, hstate.metrics]
  exact ⟨hstate.recount rfl, trivial⟩

/-! ### Removing -/

theorem keep (h : Simulates c m) (test : CacheRecord V → Bool) :
    Agree ({ c with store := (c.store.retain fun k e => test (ofEntry (k, e))).1 },
      (c.store.retain fun k e => test (ofEntry (k, e))).2) (m.keep test) := by
  obtain ⟨hholds, hcount⟩ := h.holds.retain test
  exact ⟨h.change hholds (Nat.le_trans (List.length_filter_le _ _) h.bounded) h.metrics, hcount⟩

theorem delete (h : Simulates c m) (k : CacheKey) : Agree (c.delete k) (m.delete k) :=
  ⟨h.change (h.holds.remove k) (Nat.le_trans (length_without_le k _) h.bounded) h.metrics,
    h.isSome_get? k⟩

theorem clearNamespace (h : Simulates c m) (ns : Namespace) :
    Agree (c.clearNamespace ns) (m.clearNamespace ns) :=
  h.keep fun r => r.key.ns != ns

theorem purgeExpired (h : Simulates c m) (now : Instant) :
    Agree (c.purgeExpired now) (m.purgeExpired now) :=
  h.keep fun r => !decide (r.expiresAt < now)

theorem sweep (h : Simulates c m) (now : Instant) : Simulates (c.sweep now) (m.sweep now) := by
  obtain ⟨hstate, hcount⟩ := h.purgeExpired now
  simp only [Cache.sweep, PlainCache.sweep, hcount, hstate.metrics]
  exact hstate.recount rfl

theorem clear (h : Simulates c m) : Simulates c.clear m.clear :=
  h.change (.clear _) (Nat.zero_le _) h.metrics

theorem destroy (h : Simulates c m) : Simulates c.destroy m.clear :=
  ⟨h.clear.config, h.clear.codec, h.clear.holds, h.clear.bounded, h.clear.metrics⟩

/-! ### Looking on -/

theorem stats_eq (h : Simulates c m) : c.stats = m.stats := by
  rw [Cache.stats, PlainCache.stats, h.holds.size_eq, h.capacity_eq, h.holds.countByNamespace_eq]

theorem info_eq (h : Simulates c m) (k : CacheKey) : c.info k = m.info k := by
  rw [Cache.info, PlainCache.info, h.holds.find? k, Option.map_map]
  rfl

/-! ### Derivations -/

theorem abandon (h : Simulates c m) (micros : Nat) :
    Simulates (c.abandon micros) (m.abandon micros) :=
  h.recount (congrArg (CacheMetrics.recordDerivation · micros) h.metrics)

theorem complete (h : Simulates c m) (now : Instant) (k : CacheKey) (value : V)
    (ttl : Option Duration) (version : Option String) (micros : Nat) :
    Simulates (c.complete now k value ttl version micros)
      (m.complete now k value ttl version micros) :=
  (h.abandon micros).set now k value ttl version

/-! ### Calls -/

/-- A call gives the same answer, and the states after it are related again. -/
theorem step (h : Simulates c m) (call : CacheCall V) : Agree (c.step call) (m.step call) := by
  obtain ⟨now, op⟩ := call
  cases op with
  | set k value ttl version => exact ⟨h.set now k value ttl version, rfl⟩
  | get k version => exact (h.tryGet now k version).map fun r => CacheAnswer.value r.toOption
  | tryGet k version => exact (h.tryGet now k version).map CacheAnswer.outcome
  | has k version => exact (h.tryGet now k version).map fun r => CacheAnswer.existed r.toBool
  | delete k => exact (h.delete k).map CacheAnswer.existed
  | clearNamespace ns => exact (h.clearNamespace ns).map CacheAnswer.removed
  | clear => exact ⟨h.clear, rfl⟩
  | purgeExpired => exact (h.purgeExpired now).map CacheAnswer.removed
  | sweep => exact ⟨h.sweep now, rfl⟩
  | stats => exact ⟨h, congrArg CacheAnswer.stats h.stats_eq⟩
  | info k => exact ⟨h, congrArg CacheAnswer.info (h.info_eq k)⟩
  | getOrInsert k ttl version derived later micros =>
    obtain ⟨hstate, hresult⟩ := h.tryGet now k version
    simp only [Cache.step, PlainCache.step, Cache.getOrInsert, Cache.get]
    cases hr : m.tryGet now k version with
    | mk m' r =>
      rw [hr] at hstate hresult
      simp only [hresult]
      cases r with
      | ok value => exact ⟨hstate, rfl⟩
      | error reason => exact ⟨hstate.complete later k derived ttl version micros, rfl⟩
  | complete k derived ttl version micros =>
    exact ⟨h.complete now k derived ttl version micros, rfl⟩
  | abandon micros => exact ⟨h.abandon micros, rfl⟩
  | destroy => exact ⟨h.destroy, rfl⟩

theorem run (h : Simulates c m) (calls : List (CacheCall V)) :
    Simulates (c.run calls) (m.run calls) := by
  induction calls generalizing c m with
  | nil => exact h
  | cons call rest ih => exact ih (h.step call).1

theorem trace_eq (h : Simulates c m) (calls : List (CacheCall V)) :
    c.trace calls = m.trace calls := by
  induction calls generalizing c m with
  | nil => rfl
  | cons call rest ih =>
    obtain ⟨hstate, hanswer⟩ := h.step call
    simp only [Cache.trace, PlainCache.trace]
    rw [hanswer, hstate.metrics, ih hstate]

end Simulates

/-- Whatever is asked of a new cache, and whatever the clock reads, all its answers and all its
counters are those of a plain cache. -/
theorem trace_eq_plainCache (config : CacheConfig) (codec : Option (Codec V))
    (calls : List (CacheCall V)) :
    (Cache.new config codec).trace calls = (PlainCache.new config codec).trace calls :=
  (Simulates.new config codec).trace_eq calls

end Cache

end ActionPolicy
