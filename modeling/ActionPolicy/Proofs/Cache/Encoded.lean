import ActionPolicy.Proofs.Cache.Contents
import ActionPolicy.Proofs.KeyedList

/-!
# Values at rest in encoded form

A cache that holds its values encoded does what a cache does that holds them as they are, if its
codec encodes every value and gives it back. Only what is known about an entry tells them apart.

## Main definitions

* `Store.mapValues` – a store with its values in another form.
* `Codec.RoundTrips` – every value is encoded and can be had again.
* `Codec.wrap` – the form that a codec gives to a value that is held as it is.
* `Cache.EncodedAs` – the second cache holds encoded what the first one holds as it is.

## Main statements

* `Store.get?_mapValues`, `Store.insert_mapValues`, `Store.retain_mapValues` and their like – no
  change of a store depends on the form of its values.
* `Cache.EncodedAs.lookup` – both caches find the same.
* `Cache.EncodedAs.step` – both answer alike, and hold the same after that.

## Design notes

That the first cache holds every value as it is, and has counted no failure, is part of the
relation: it keeps lookups from failing to decode a value, which would drop the entry in one of the
caches.
-/

namespace ActionPolicy

variable {V : Type}

/-! ### Stores -/

namespace Entry

def mapValue (f : Stored V → Stored V) (e : Entry V) : Entry V := { e with value := f e.value }

end Entry

namespace Store

/-- The store with its values in another form. -/
def mapValues (f : Stored V → Stored V) (s : Store V) : Store V :=
  { s with entries := s.entries.map fun p => (p.1, p.2.mapValue f) }

variable (f : Stored V → Stored V) (s : Store V)

theorem entries_mapValues :
    (s.mapValues f).entries = s.entries.map fun p => (p.1, p.2.mapValue f) := rfl

theorem size_mapValues : (s.mapValues f).size = s.size := by
  rw [size, size, entries_mapValues, List.length_map]

theorem get?_mapValues (k : CacheKey) :
    (s.mapValues f).get? k = (s.get? k).map (Entry.mapValue f) := by
  rw [get?, get?, entries_mapValues]
  exact lookup_map_values (fun _ => Entry.mapValue f) s.entries k

theorem eraseEntry_map (k : CacheKey) (entries : List (CacheKey × Entry V)) :
    eraseEntry k (entries.map fun p => (p.1, p.2.mapValue f)) =
      (eraseEntry k entries).map fun p => (p.1, p.2.mapValue f) := by
  rw [eraseEntry, eraseEntry, List.filter_map]
  rfl

theorem remove_mapValues (k : CacheKey) :
    (s.mapValues f).remove k = (s.remove k).mapValues f := by
  unfold remove
  rw [get?_mapValues]
  cases s.get? k with
  | none => rfl
  | some e =>
    simp only [Option.map_some, mapValues, eraseEntry_map]
    rfl

theorem touch_mapValues (k : CacheKey) (now : Instant) :
    (s.mapValues f).touch k now = (s.touch k now).mapValues f := by
  unfold touch
  rw [get?_mapValues]
  cases s.get? k with
  | none => rfl
  | some e =>
    simp only [Option.map_some, mapValues, List.map_map]
    congr 1
    refine List.map_congr_left fun p _ => ?_
    by_cases hk : p.1 = k
    · simp [hk, Entry.mapValue]
    · simp [hk]

theorem evictOldest_mapValues :
    (s.mapValues f).evictOldest = s.evictOldest.map (mapValues f) := by
  unfold evictOldest
  cases hrecency : s.recency with
  | nil => simp [mapValues, hrecency]
  | cons oldest rest => simp [mapValues, hrecency, eraseEntry_map]

theorem insert_mapValues (k : CacheKey) (value : Stored V) (now expiresAt : Instant)
    (version : Option String) :
    (s.mapValues f).insert k (f value) now expiresAt version =
      (s.insert k value now expiresAt version).mapValues f := by
  unfold insert
  rw [remove_mapValues]
  simp [mapValues, Entry.mapValue]

theorem filter_map (test : CacheKey → Entry V → Bool)
    (h : ∀ k e, test k (e.mapValue f) = test k e) (entries : List (CacheKey × Entry V)) :
    ((entries.map fun p => (p.1, p.2.mapValue f)).filter fun p => test p.1 p.2) =
      (entries.filter fun p => test p.1 p.2).map fun p => (p.1, p.2.mapValue f) := by
  rw [List.filter_map]
  simp only [Function.comp_def, h]

theorem retain_mapValues (keep : CacheKey → Entry V → Bool)
    (hkeep : ∀ k e, keep k (e.mapValue f) = keep k e) :
    (s.mapValues f).retain keep = ((s.retain keep).1.mapValues f, (s.retain keep).2) := by
  have hdrop : ∀ k e, (!keep k (e.mapValue f)) = !keep k e := fun k e => by rw [hkeep]
  unfold retain
  simp only [entries_mapValues, filter_map f keep hkeep, filter_map f (fun k e => !keep k e) hdrop,
    List.length_map, List.any_map]
  rfl

theorem countByNamespace_mapValues :
    (s.mapValues f).countByNamespace = s.countByNamespace := by
  simp only [countByNamespace, entries_mapValues, List.countP_map]
  rfl

end Store

/-! ### Codecs -/

namespace Codec

/-- Every value is encoded, and decoded to the same value. -/
def RoundTrips (codec : Codec V) : Prop :=
  ∀ value, ∃ bytes, codec.encode value = some bytes ∧ codec.decode bytes = some value

/-- The form that the codec gives to a value that is held as it is. -/
def wrap (codec : Codec V) : Stored V → Stored V
  | .raw value =>
    match codec.encode value with
    | some bytes => .encoded bytes
    | none => .raw value
  | .encoded bytes => .encoded bytes

end Codec

/-! ### Caches -/

/-- What is answered by a cache that holds values encoded: the same, except that an entry is known
to be encoded. -/
def CacheAnswer.encoded : CacheAnswer V → CacheAnswer V
  | .info known => .info (known.map fun i => { i with encoded := true })
  | answer => answer

namespace Cache

/-- The second cache holds in encoded form what the first one holds as it is. -/
structure EncodedAs (codec : Codec V) (c c' : Cache V) : Prop where
  /-- The settings agree, but for the one that asks for a codec. -/
  config : c'.config = { c.config with compress := c'.config.compress }
  plain : c.codec = none
  /-- The first cache holds every value as it is. -/
  raw : ∀ p ∈ c.store.entries, p.2.value.isEncoded = false
  encodes : c'.codec = some codec
  store : c'.store = c.store.mapValues codec.wrap
  metrics : c'.metrics = c.metrics
  /-- No value has failed to be encoded or decoded. -/
  flawless : c.metrics.counts.transformErrors = 0
  destroyed : c'.destroyed = c.destroyed

namespace EncodedAs

variable {codec : Codec V} {c c' : Cache V}

theorem new (codec : Codec V) {config config' : CacheConfig}
    (h : config' = { config with compress := config'.compress }) :
    (Cache.new config none).EncodedAs codec (Cache.new config' (some codec)) where
  config := by
    rw [h]
    rfl
  plain := rfl
  raw p hp := absurd hp List.not_mem_nil
  encodes := rfl
  store := rfl
  metrics := rfl
  flawless := rfl
  destroyed := rfl

theorem capacity_eq (h : c.EncodedAs codec c') : c'.config.capacity = c.config.capacity := by
  rw [h.config]

theorem defaultTtl_eq (h : c.EncodedAs codec c') : c'.config.defaultTtl = c.config.defaultTtl := by
  rw [h.config]

/-- What thins one store thins the other one. -/
theorem change (h : c.EncodedAs codec c') {s s' : Store V} (hs : c.store.Thins s)
    (hs' : s' = s.mapValues codec.wrap) {m m' : CacheMetrics} (hm : m.counts.transformErrors = 0)
    (hm' : m' = m) :
    EncodedAs codec { c with store := s, metrics := m } { c' with store := s', metrics := m' } where
  config := h.config
  plain := h.plain
  raw p hp := by
    obtain ⟨e, he, hpe⟩ := hs p hp
    have hvalue : p.2.value = e.value := by rw [hpe]
    rw [hvalue]
    exact h.raw (p.1, e) he
  encodes := h.encodes
  store := hs'
  metrics := hm'
  flawless := hm
  destroyed := h.destroyed

/-! ### Values -/

theorem encode_eq (h : c.EncodedAs codec c') (value : V) : c.encode value = (.raw value, false) := by
  rw [Cache.encode, h.plain]

theorem encode_eq' (h : c.EncodedAs codec c') (hcodec : codec.RoundTrips) (value : V) :
    c'.encode value = (codec.wrap (.raw value), false) := by
  obtain ⟨bytes, hencode, -⟩ := hcodec value
  simp only [Cache.encode, h.encodes, Codec.wrap, hencode]

/-- Both caches make the same value of an entry, and neither fails to. -/
theorem decode_eq (h : c.EncodedAs codec c') (hcodec : codec.RoundTrips) {held : Stored V}
    (hraw : held.isEncoded = false) :
    ∃ value, held = .raw value ∧ c.decode held = some value ∧
      c'.decode (codec.wrap held) = some value := by
  cases held with
  | encoded bytes => contradiction
  | raw value =>
    obtain ⟨bytes, hencode, hdecode⟩ := hcodec value
    refine ⟨value, rfl, rfl, ?_⟩
    simp only [Codec.wrap, hencode, Cache.decode, h.encodes, Option.bind_some, hdecode]

theorem isEncoded_wrap (hcodec : codec.RoundTrips) {held : Stored V} :
    (codec.wrap held).isEncoded = true := by
  cases held with
  | encoded bytes => rfl
  | raw value =>
    obtain ⟨bytes, hencode, -⟩ := hcodec value
    simp only [Codec.wrap, hencode, Stored.isEncoded]

/-! ### Operations -/

theorem makeRoom_eq (h : c.EncodedAs codec c') (k : CacheKey) :
    c'.makeRoom k = ((c.makeRoom k).1.mapValues codec.wrap, (c.makeRoom k).2) := by
  simp only [Cache.makeRoom, h.store, Store.get?_mapValues, Store.size_mapValues,
    Store.evictOldest_mapValues, h.capacity_eq, Option.isSome_map]
  split
  · rfl
  split
  · cases c.store.evictOldest <;> rfl
  · rfl

theorem set (h : c.EncodedAs codec c') (hcodec : codec.RoundTrips) (now : Instant) (k : CacheKey)
    (value : V) (ttl : Option Duration) (version : Option String) :
    (c.set now k value ttl version).EncodedAs codec (c'.set now k value ttl version) where
  config := h.config
  plain := h.plain
  raw p hp := by
    rcases mem_set hp with hold | ⟨-, hnew, -⟩
    · exact h.raw p hold
    · rw [hnew, h.encode_eq]
      rfl
  encodes := h.encodes
  store := by
    simp only [Cache.set, h.encode_eq, h.encode_eq' hcodec, h.makeRoom_eq, h.defaultTtl_eq]
    exact Store.insert_mapValues _ _ _ _ _ _ _
  metrics := by
    simp only [Cache.set, h.encode_eq, h.encode_eq' hcodec, h.makeRoom_eq, h.metrics]
  flawless := by
    simp only [Cache.set, h.encode_eq]
    split
    · exact h.flawless
    · exact h.flawless
  destroyed := h.destroyed

theorem abandon (h : c.EncodedAs codec c') (micros : Nat) :
    (c.abandon micros).EncodedAs codec (c'.abandon micros) :=
  h.change (.refl c.store) h.store h.flawless (congrArg (·.recordDerivation micros) h.metrics)

theorem drop (h : c.EncodedAs codec c') (k : CacheKey) {count : CacheMetrics → CacheMetrics}
    (hcount : (count c.metrics).counts.transformErrors = 0) :
    (c.drop k count).EncodedAs codec (c'.drop k count) := by
  refine h.change (c.store.thins_remove k) ?_ hcount (congrArg count h.metrics)
  rw [h.store, Store.remove_mapValues]

/-- Both caches find the same value, or miss it for the same reason. -/
theorem lookup (h : c.EncodedAs codec c') (hcodec : codec.RoundTrips) (now : Instant)
    (k : CacheKey) (version : Option String) :
    (c.lookup now k version).1.EncodedAs codec (c'.lookup now k version).1 ∧
      (c'.lookup now k version).2 = (c.lookup now k version).2 := by
  simp only [Cache.lookup, h.store, Store.get?_mapValues]
  cases he : c.store.get? k with
  | none => exact ⟨h, rfl⟩
  | some e =>
    obtain ⟨value, -, hdecode, hdecode'⟩ := h.decode_eq hcodec (h.raw _ (Store.mem_of_get? he))
    have hexpired : (e.mapValue codec.wrap).expiredAt now = e.expiredAt now := rfl
    have hvalue : (e.mapValue codec.wrap).value = codec.wrap e.value := rfl
    have hversion : (e.mapValue codec.wrap).version = e.version := rfl
    simp only [Option.map_some, hexpired, hversion, hvalue, hdecode, hdecode']
    split
    · exact ⟨h.drop k h.flawless, rfl⟩
    split
    · exact ⟨h.drop k h.flawless, rfl⟩
    · exact ⟨h.change (c.store.thins_touch k now) (Store.touch_mapValues _ _ _ _) h.flawless h.metrics,
        rfl⟩

theorem tryGet (h : c.EncodedAs codec c') (hcodec : codec.RoundTrips) (now : Instant)
    (k : CacheKey) (version : Option String) :
    (c.tryGet now k version).1.EncodedAs codec (c'.tryGet now k version).1 ∧
      (c'.tryGet now k version).2 = (c.tryGet now k version).2 := by
  obtain ⟨hstate, hresult⟩ := h.lookup hcodec now k version
  simp only [Cache.tryGet, hresult]
  refine ⟨hstate.change (.refl _) hstate.store ?_ ?_, trivial⟩
  · cases (c.lookup now k version).2.toBool <;> exact hstate.flawless
  · rw [hstate.metrics]

theorem get (h : c.EncodedAs codec c') (hcodec : codec.RoundTrips) (now : Instant) (k : CacheKey)
    (version : Option String) :
    (c.get now k version).1.EncodedAs codec (c'.get now k version).1 ∧
      (c'.get now k version).2 = (c.get now k version).2 := by
  obtain ⟨hstate, hresult⟩ := h.tryGet hcodec now k version
  exact ⟨hstate, congrArg Except.toOption hresult⟩

theorem getOrInsert (h : c.EncodedAs codec c') (hcodec : codec.RoundTrips) (now later : Instant)
    (k : CacheKey) (ttl : Option Duration) (version : Option String) (derived : V) (micros : Nat) :
    (c.getOrInsert now later k ttl version derived micros).1.EncodedAs codec
        (c'.getOrInsert now later k ttl version derived micros).1 ∧
      (c'.getOrInsert now later k ttl version derived micros).2 =
        (c.getOrInsert now later k ttl version derived micros).2 := by
  obtain ⟨hstate, hresult⟩ := h.get hcodec now k version
  simp only [Cache.getOrInsert]
  cases hget : c.get now k version with
  | mk d found =>
    cases hget' : c'.get now k version with
    | mk d' found' =>
      rw [hget, hget'] at hstate hresult
      obtain rfl : found' = found := hresult
      cases found' with
      | some value => exact ⟨hstate, rfl⟩
      | none => exact ⟨(hstate.abandon micros).set hcodec later k derived ttl version, rfl⟩

theorem delete (h : c.EncodedAs codec c') (k : CacheKey) :
    (c.delete k).1.EncodedAs codec (c'.delete k).1 ∧ (c'.delete k).2 = (c.delete k).2 := by
  simp only [Cache.delete, h.store, Store.remove_mapValues, Store.get?_mapValues,
    Option.isSome_map]
  exact ⟨h.change (c.store.thins_remove k) rfl h.flawless h.metrics, trivial⟩

theorem clearNamespace (h : c.EncodedAs codec c') (ns : Namespace) :
    (c.clearNamespace ns).1.EncodedAs codec (c'.clearNamespace ns).1 ∧
      (c'.clearNamespace ns).2 = (c.clearNamespace ns).2 := by
  have hretain := c.store.retain_mapValues codec.wrap (fun k _ => k.ns != ns) fun _ _ => rfl
  simp only [Cache.clearNamespace, h.store, hretain]
  exact ⟨h.change (c.store.thins_retain _) rfl h.flawless h.metrics, trivial⟩

theorem purgeExpired (h : c.EncodedAs codec c') (now : Instant) :
    (c.purgeExpired now).1.EncodedAs codec (c'.purgeExpired now).1 ∧
      (c'.purgeExpired now).2 = (c.purgeExpired now).2 := by
  have hretain := c.store.retain_mapValues codec.wrap (fun _ e => !e.expiredAt now) fun _ _ => rfl
  simp only [Cache.purgeExpired, h.store, hretain]
  exact ⟨h.change (c.store.thins_retain _) rfl h.flawless h.metrics, trivial⟩

theorem sweep (h : c.EncodedAs codec c') (now : Instant) :
    (c.sweep now).EncodedAs codec (c'.sweep now) := by
  obtain ⟨hstate, hremoved⟩ := h.purgeExpired now
  simp only [Cache.sweep, hremoved]
  exact hstate.change (.refl _) hstate.store hstate.flawless
    (congrArg (·.recordSweep (c.purgeExpired now).2) hstate.metrics)

theorem clear (h : c.EncodedAs codec c') : c.clear.EncodedAs codec c'.clear := by
  refine h.change c.store.thins_clear ?_ h.flawless h.metrics
  rw [h.store]
  rfl

theorem destroy (h : c.EncodedAs codec c') : c.destroy.EncodedAs codec c'.destroy :=
  { h.clear with destroyed := rfl }

theorem stats_eq (h : c.EncodedAs codec c') : c'.stats = c.stats := by
  rw [Cache.stats, Cache.stats, h.store, h.capacity_eq, Store.size_mapValues,
    Store.countByNamespace_mapValues]

theorem info_eq (h : c.EncodedAs codec c') (hcodec : codec.RoundTrips) (k : CacheKey) :
    c'.info k = (c.info k).map fun i => { i with encoded := true } := by
  rw [Cache.info, Cache.info, h.store, Store.get?_mapValues, Option.map_map, Option.map_map]
  congr 1
  funext e
  simp only [Function.comp_apply, Entry.mapValue, isEncoded_wrap hcodec]

/-- Both caches answer a call alike, except that entries are known to be encoded, and afterwards the
second one holds encoded what the first one holds. -/
theorem step (h : c.EncodedAs codec c') (hcodec : codec.RoundTrips) (call : CacheCall V) :
    (c.step call).1.EncodedAs codec (c'.step call).1 ∧
      (c'.step call).2 = (c.step call).2.encoded := by
  obtain ⟨now, op⟩ := call
  cases op with
  | set k value ttl version => exact ⟨h.set hcodec now k value ttl version, rfl⟩
  | get k version =>
    obtain ⟨hstate, hresult⟩ := h.get hcodec now k version
    exact ⟨hstate, congrArg CacheAnswer.value hresult⟩
  | tryGet k version =>
    obtain ⟨hstate, hresult⟩ := h.tryGet hcodec now k version
    exact ⟨hstate, congrArg CacheAnswer.outcome hresult⟩
  | has k version =>
    obtain ⟨hstate, hresult⟩ := h.tryGet hcodec now k version
    exact ⟨hstate, congrArg (fun r : Except MissReason V => CacheAnswer.existed r.toBool) hresult⟩
  | delete k =>
    obtain ⟨hstate, hresult⟩ := h.delete k
    exact ⟨hstate, congrArg CacheAnswer.existed hresult⟩
  | clearNamespace ns =>
    obtain ⟨hstate, hresult⟩ := h.clearNamespace ns
    exact ⟨hstate, congrArg CacheAnswer.removed hresult⟩
  | clear => exact ⟨h.clear, rfl⟩
  | purgeExpired =>
    obtain ⟨hstate, hresult⟩ := h.purgeExpired now
    exact ⟨hstate, congrArg CacheAnswer.removed hresult⟩
  | sweep => exact ⟨h.sweep now, rfl⟩
  | stats => exact ⟨h, congrArg CacheAnswer.stats h.stats_eq⟩
  | info k => exact ⟨h, congrArg CacheAnswer.info (h.info_eq hcodec k)⟩
  | getOrInsert k ttl version derived later micros =>
    obtain ⟨hstate, hresult⟩ := h.getOrInsert hcodec now later k ttl version derived micros
    exact ⟨hstate, congrArg (fun r : V × Bool => CacheAnswer.derived r.1 r.2) hresult⟩
  | complete k derived ttl version micros =>
    exact ⟨(h.abandon micros).set hcodec now k derived ttl version, rfl⟩
  | abandon micros => exact ⟨h.abandon micros, rfl⟩
  | destroy => exact ⟨h.destroy, rfl⟩

end EncodedAs

end Cache

end ActionPolicy
