import ActionPolicy.Proofs.Cache.OneKey
import ActionPolicy.Proofs.Cache.Session

/-!
# Keys are independent

Where there is room for all keys that are ever stored and the clock does not go back, what is asked
about one key is answered from what was done with that key, whatever is done with other keys and
whenever expired entries are swept out.

## Main definitions

* `SessionEvent.concerns` – an event is about a key.
* `SessionEvent.seen?` – what an answer says of a key.
* `PlainCache.AgreeOn`, `Cache.AgreeOn`, `CacheSession.AgreeOn` – nothing valid under a key tells
  two caches or two sessions apart.

## Main statements

* `PlainCache.AgreeOn.step`, `Cache.Simulates.live_step` – what is about the key keeps this, and
  what is not changes nothing valid.
* `CacheSession.AgreeOn.trace` – all that does not concern the key can be left out of a session.
* `CacheSession.seen_eq` – sessions that do the same with a key see the same of it.

## Design notes

An entry past its expiry may be there in one session and swept out in the other. So only records
that are valid at the readings still to come are compared. The reason for which a lookup finds
nothing tells an expired entry from none, and so do the answers of removals, so these are not
compared.
-/

namespace ActionPolicy

open CacheRecord

variable {V : Type}

/-! ### What an event is about -/

/-- Something is looked up, stored or removed under the key. -/
def CacheOp.concerns (k : CacheKey) : CacheOp V → Bool
  | set k' _ _ _ => k' = k
  | get k' _ => k' = k
  | tryGet k' _ => k' = k
  | has k' _ => k' = k
  | delete k' => k' = k
  | clearNamespace ns => ns = k.ns
  | clear => true
  | getOrInsert k' _ _ _ _ _ => k' = k
  | complete k' _ _ _ _ => k' = k
  | destroy => true
  | _ => false

def CacheOp.untimed : CacheOp V → CacheOp V
  | getOrInsert k ttl version derived later _ => getOrInsert k ttl version derived later 0
  | complete k derived ttl version _ => complete k derived ttl version 0
  | abandon _ => abandon 0
  | op => op

namespace CacheCall

/-- What the clock reads during a call. -/
def readings (call : CacheCall V) : List Instant :=
  match call.op with
  | .getOrInsert _ _ _ _ later _ => [call.now, later]
  | _ => [call.now]

def untimed (call : CacheCall V) : CacheCall V := ⟨call.now, call.op.untimed⟩

/-- What the answer says of the key: what was found or derived, but not why nothing was found. -/
def seen? (k : CacheKey) (call : CacheCall V) (answer : CacheAnswer V) : Option (CacheAnswer V) :=
  match call.op, answer with
  | .get k' _, _ => if k' = k then some answer else none
  | .has k' _, _ => if k' = k then some answer else none
  | .getOrInsert k' _ _ _ _ _, _ => if k' = k then some answer else none
  | .tryGet k' _, .outcome result => if k' = k then some (.value result.toOption) else none
  | _, _ => none

end CacheCall

namespace SessionEvent

def concerns (k : CacheKey) : SessionEvent V → Bool
  | .call c => c.op.concerns k
  | ask _ id _ _ => id.key = k
  | derived _ id _ _ => id.key = k
  | abandoned _ id _ => id.key = k

def readings : SessionEvent V → List Instant
  | .call c => c.readings
  | ask now _ _ _ => [now]
  | derived now _ _ _ => [now]
  | abandoned now _ _ => [now]

def untimed : SessionEvent V → SessionEvent V
  | .call c => .call c.untimed
  | ask now id ttl version => .ask now id ttl version
  | derived now id value _ => .derived now id value 0
  | abandoned now id _ => .abandoned now id 0

def writtenKey? : SessionEvent V → Option CacheKey
  | .call c => c.op.writtenKey?
  | derived _ id _ _ => some id.key
  | _ => none

/-- What the answer says of the key. -/
def seen? (k : CacheKey) : SessionEvent V × CacheAnswer V → Option (CacheAnswer V)
  | (.call c, answer) => c.seen? k answer
  | (ask _ id _ _, answer) => if id.key = k then some answer else none
  | (derived _ id _ _, answer) => if id.key = k then some answer else none
  | (abandoned _ _ _, _) => none

theorem seen?_of_not_concerns {event : SessionEvent V} {k : CacheKey}
    (h : event.concerns k = false) (answer : CacheAnswer V) : seen? k (event, answer) = none := by
  cases event with
  | call c =>
    obtain ⟨now, op⟩ := c
    cases op <;> cases answer <;> simp_all [concerns, CacheOp.concerns, seen?, CacheCall.seen?]
  | ask now id ttl version | derived now id value micros =>
    have hne : id.key ≠ k := by simpa [concerns] using h
    exact if_neg hne
  | abandoned now id micros => rfl

end SessionEvent

/-- The keys under which values are stored. A call that finds its value was preceded by one that
stored it, so all that may store are counted. -/
def writtenKeys (events : List (SessionEvent V)) : Finset CacheKey :=
  (events.filterMap SessionEvent.writtenKey?).toFinset

theorem mem_writtenKeys {events : List (SessionEvent V)} {event : SessionEvent V}
    (he : event ∈ events) {k : CacheKey} (hk : event.writtenKey? = some k) :
    k ∈ writtenKeys events :=
  List.mem_toFinset.mpr (List.mem_filterMap.mpr ⟨event, he, hk⟩)

/-! ### Plain caches -/

namespace PlainCache

/-- Two plain caches treat values alike, and what is valid under the key is the same. -/
structure AgreeOn (k : CacheKey) (t : Instant) (m m' : PlainCache V) : Prop where
  codec : m'.codec = m.codec
  defaultTtl : m'.config.defaultTtl = m.config.defaultTtl
  live : live t (find? k m.records) = live t (find? k m'.records)

theorem isOk_eq_isSome (r : Except MissReason V) : r.isOk = r.toOption.isSome := by
  cases r <;> rfl

namespace AgreeOn

variable {k : CacheKey} {t : Instant} {m m' : PlainCache V}

theorem change (h : m.AgreeOn k t m') {records records' : List (CacheRecord V)}
    (hrecords : find? k records = find? k records') (metrics metrics' : CacheMetrics)
    (u : Instant) :
    AgreeOn k u { m with records := records, metrics := metrics }
      { m' with records := records', metrics := metrics' } :=
  ⟨h.codec, h.defaultTtl, congrArg (CacheRecord.live u) hrecords⟩

theorem encode_eq (h : m.AgreeOn k t m') (value : V) : m'.encode value = m.encode value := by
  rw [encode, encode, h.codec]

theorem usable?_eq (h : m.AgreeOn k t m') : m'.usable? = m.usable? := by
  funext wanted r
  unfold usable? decode
  rw [h.codec]

theorem tryGet (h : m.AgreeOn k t m') (wanted : Option String) :
    (m'.tryGet t k wanted).2.toOption = (m.tryGet t k wanted).2.toOption ∧
      ∀ u, (m.tryGet t k wanted).1.AgreeOn k u (m'.tryGet t k wanted).1 := by
  have hfind : find? k (m.tryGet t k wanted).1.records =
      find? k (m'.tryGet t k wanted).1.records := by
    rw [find?_tryGet, find?_tryGet, h.live, h.usable?_eq]
  refine ⟨by rw [toOption_tryGet, toOption_tryGet, h.live, h.usable?_eq], fun u => ⟨?_, ?_, ?_⟩⟩
  · exact (m'.codec_step ⟨t, .get k wanted⟩).trans
      (h.codec.trans (m.codec_step ⟨t, .get k wanted⟩).symm)
  · rw [config_tryGet, config_tryGet, h.defaultTtl]
  · rw [hfind]

theorem set (h : m.AgreeOn k t m') (now : Instant) (value : V) (ttl : Option Duration)
    (version : Option String) (u : Instant) :
    (m.set now k value ttl version).AgreeOn k u (m'.set now k value ttl version) := by
  refine ⟨h.codec, h.defaultTtl, ?_⟩
  rw [find?_set, find?_set, h.encode_eq, h.defaultTtl]

theorem abandon (h : m.AgreeOn k t m') (micros micros' : Nat) :
    (m.abandon micros).AgreeOn k t (m'.abandon micros') := ⟨h.codec, h.defaultTtl, h.live⟩

/-- What is about the key is seen alike, and then there is the same record. -/
theorem step {call : CacheCall V} (h : ∀ t ∈ call.readings, m.AgreeOn k t m')
    (hc : call.op.concerns k = true) :
    (∀ u, (m.step call).1.AgreeOn k u (m'.step call.untimed).1) ∧
      call.seen? k (m.step call).2 = call.untimed.seen? k (m'.step call.untimed).2 := by
  obtain ⟨now, op⟩ := call
  have hnow : m.AgreeOn k now m' := h now (by cases op <;> simp [CacheCall.readings])
  cases op with
  | set k' value ttl version =>
    obtain rfl : k' = k := by simpa [CacheOp.concerns] using hc
    exact ⟨fun u => hnow.set now value ttl version u, rfl⟩
  | get k' wanted =>
    obtain rfl : k' = k := by simpa [CacheOp.concerns] using hc
    obtain ⟨hresult, hstate⟩ := hnow.tryGet wanted
    refine ⟨hstate, ?_⟩
    exact congrArg (fun v => if k' = k' then some (CacheAnswer.value v) else none) hresult.symm
  | tryGet k' wanted =>
    obtain rfl : k' = k := by simpa [CacheOp.concerns] using hc
    obtain ⟨hresult, hstate⟩ := hnow.tryGet wanted
    refine ⟨hstate, ?_⟩
    exact congrArg (fun v => if k' = k' then some (CacheAnswer.value v) else none) hresult.symm
  | has k' wanted =>
    obtain rfl : k' = k := by simpa [CacheOp.concerns] using hc
    obtain ⟨hresult, hstate⟩ := hnow.tryGet wanted
    have hok : (m.tryGet now k' wanted).2.isOk = (m'.tryGet now k' wanted).2.isOk := by
      rw [isOk_eq_isSome, isOk_eq_isSome, hresult]
    refine ⟨hstate, ?_⟩
    exact congrArg (fun ok => if k' = k' then some (CacheAnswer.existed ok) else none) hok
  | getOrInsert k' ttl wanted derived later micros =>
    obtain rfl : k' = k := by simpa [CacheOp.concerns] using hc
    obtain ⟨hresult, hstate⟩ := hnow.tryGet wanted
    simp only [PlainCache.step, CacheCall.untimed, CacheOp.untimed]
    cases hget : m.tryGet now k' wanted with
    | mk n r =>
      cases hget' : m'.tryGet now k' wanted with
      | mk n' r' =>
        rw [hget, hget'] at hstate hresult
        cases r with
        | ok v =>
          cases r' with
          | error _ => contradiction
          | ok v' =>
            obtain rfl : v' = v := Option.some.inj hresult
            exact ⟨hstate, rfl⟩
        | error _ =>
          cases r' with
          | ok _ => contradiction
          | error _ =>
            exact ⟨fun u => ((hstate now).abandon micros 0).set later derived ttl wanted u, rfl⟩
  | complete k' derived ttl version micros =>
    obtain rfl : k' = k := by simpa [CacheOp.concerns] using hc
    exact ⟨fun u => (hnow.abandon micros 0).set now derived ttl version u, rfl⟩
  | delete k' =>
    obtain rfl : k' = k := by simpa [CacheOp.concerns] using hc
    exact ⟨hnow.change ((find?_without k' _).trans (find?_without k' _).symm) _ _, rfl⟩
  | clearNamespace ns =>
    obtain rfl : ns = k.ns := by simpa [CacheOp.concerns] using hc
    exact ⟨hnow.change ((find?_otherNamespaces k _).trans (find?_otherNamespaces k _).symm) _ _, rfl⟩
  | clear | destroy => exact ⟨hnow.change rfl _ _, rfl⟩
  | purgeExpired | sweep | stats | info | abandon => contradiction

end AgreeOn

end PlainCache

/-- What is not about the key changes nothing that is valid under it later, where there is room for
all keys. -/
theorem Cache.Simulates.live_step {c : Cache V} {m : PlainCache V} (h : c.Simulates m)
    {keys : Finset CacheKey} (hkeys : m.Confined keys) {call : CacheCall V}
    (hwrite : ∀ k', call.op.writtenKey? = some k' → k' ∈ keys) {k : CacheKey}
    (hc : call.op.concerns k = false) {t : Instant} (ht : ∀ u ∈ call.readings, u ≤ t) :
    live t (find? k (m.step call).1.records) = live t (find? k m.records) := by
  have hnodup := h.sound.keys
  obtain ⟨now, op⟩ := call
  have hnow : now ≤ t := ht now (by cases op <;> simp [CacheCall.readings])
  cases op with
  | set k' value ttl version =>
    have hne : k' ≠ k := by simpa [CacheOp.concerns] using hc
    have hroom := hkeys.evicts_eq_false hnodup (hwrite k' rfl)
    exact congrArg (live t) (m.find?_set_of_ne now value ttl version hne hroom)
  | complete k' derived ttl version micros =>
    have hne : k' ≠ k := by simpa [CacheOp.concerns] using hc
    have hroom := hkeys.evicts_eq_false hnodup (hwrite k' rfl)
    exact congrArg (live t) ((m.abandon micros).find?_set_of_ne now derived ttl version hne hroom)
  | get k' wanted | tryGet k' wanted | has k' wanted =>
    have hne : k' ≠ k := by simpa [CacheOp.concerns] using hc
    exact congrArg (live t) (PlainCache.find?_tryGet_of_ne hne m now wanted)
  | delete k' =>
    have hne : k' ≠ k := by simpa [CacheOp.concerns] using hc
    exact congrArg (live t) (find?_without_of_ne hne m.records)
  | clearNamespace ns =>
    have hne : ns ≠ k.ns := by simpa [CacheOp.concerns] using hc
    exact congrArg (live t) (find?_otherNamespaces_of_ne hne hnodup)
  | purgeExpired | sweep =>
    -- What is removed has expired by now, so it is not valid later either.
    exact (congrArg (live t) (find?_purged hnodup k now)).trans (live_live hnow _)
  | clear | destroy => contradiction
  | stats | info | abandon => rfl
  | getOrInsert k' ttl wanted derived later micros =>
    have hne : k' ≠ k := by simpa [CacheOp.concerns] using hc
    have hfind := PlainCache.find?_tryGet_of_ne hne m now wanted
    have hlookup := hkeys.tryGet now k' wanted
    have hnodup' := (h.tryGet now k' wanted).1.sound.keys
    -- Two changes in a row: the lookup of another key, and a value stored under it.
    simp only [PlainCache.step]
    cases hget : m.tryGet now k' wanted with
    | mk n r =>
      rw [hget] at hfind hlookup hnodup'
      cases r with
      | ok v => exact congrArg (live t) hfind
      | error reason =>
        have hroom := hlookup.evicts_eq_false hnodup' (hwrite k' rfl)
        have hset := (n.abandon micros).find?_set_of_ne later derived ttl wanted hne hroom
        exact congrArg (live t) (hset.trans hfind)

/-! ### Caches -/

namespace Cache

/-- One cache has room for all keys of a set, and at the readings to come nothing valid under the
key tells it from the other one. -/
def AgreeOn (k : CacheKey) (keys : Finset CacheKey) (later : List Instant) (c c' : Cache V) : Prop :=
  ∃ m m', c.Simulates m ∧ c'.Simulates m' ∧ m.Confined keys ∧ ∀ t ∈ later, m.AgreeOn k t m'

namespace AgreeOn

variable {k : CacheKey} {keys : Finset CacheKey} {later : List Instant} {c c' : Cache V}

theorem new (config : CacheConfig) (codec : Option (Codec V)) (k : CacheKey)
    (hroom : keys.card ≤ max config.capacity 1) (later : List Instant) :
    AgreeOn k keys later (Cache.new config codec) (Cache.new config codec) :=
  ⟨_, _, .new config codec, .new config codec, ⟨fun _ hr => absurd hr List.not_mem_nil, hroom⟩,
    fun _ _ => ⟨rfl, rfl, rfl⟩⟩

theorem of_append {earlier : List Instant} (h : AgreeOn k keys (earlier ++ later) c c') :
    AgreeOn k keys later c c' := by
  obtain ⟨m, m', hm, hm', hkeys, hagree⟩ := h
  exact ⟨m, m', hm, hm', hkeys, fun t ht => hagree t (List.mem_append_right earlier ht)⟩

theorem step (call : CacheCall V) (h : AgreeOn k keys (call.readings ++ later) c c')
    (hwrite : ∀ k', call.op.writtenKey? = some k' → k' ∈ keys)
    (hc : call.op.concerns k = true) :
    AgreeOn k keys later (c.step call).1 (c'.step call.untimed).1 ∧
      call.seen? k (c.step call).2 = call.untimed.seen? k (c'.step call.untimed).2 := by
  obtain ⟨m, m', hm, hm', hkeys, hagree⟩ := h
  obtain ⟨hstate, hanswer⟩ := hm.step call
  obtain ⟨hstate', hanswer'⟩ := hm'.step call.untimed
  obtain ⟨hnext, hseen⟩ := PlainCache.AgreeOn.step
    (fun t ht => hagree t (List.mem_append_left later ht)) hc
  rw [hanswer, hanswer']
  exact ⟨⟨_, _, hstate, hstate', hkeys.step hwrite, fun t _ => hnext t⟩, hseen⟩

/-- A call about other keys, made to one of them. -/
theorem step_left (call : CacheCall V) (h : AgreeOn k keys later c c')
    (hwrite : ∀ k', call.op.writtenKey? = some k' → k' ∈ keys)
    (hc : call.op.concerns k = false) (hlater : ∀ u ∈ call.readings, ∀ t ∈ later, u ≤ t) :
    AgreeOn k keys later (c.step call).1 c' := by
  obtain ⟨m, m', hm, hm', hkeys, hagree⟩ := h
  refine ⟨_, m', (hm.step call).1, hm', hkeys.step hwrite, fun t ht => ?_⟩
  have hlive := hm.live_step hkeys hwrite hc fun u hu => hlater u hu t ht
  obtain ⟨hcodec, hdefault, hsame⟩ := hagree t ht
  exact ⟨hcodec.trans (m.codec_step call).symm, by rw [hdefault, m.config_step call],
    hlive.trans hsame⟩

/-- A derivation that comes to nothing is only counted. -/
theorem abandon (h : AgreeOn k keys later c c') (micros micros' : Nat) :
    AgreeOn k keys later (c.abandon micros) (c'.abandon micros') := by
  obtain ⟨m, m', hm, hm', hkeys, hagree⟩ := h
  exact ⟨_, _, hm.abandon micros, hm'.abandon micros', ⟨hkeys.mem, hkeys.room⟩,
    fun t ht => (hagree t ht).abandon micros micros'⟩

end AgreeOn

end Cache

/-! ### Sessions -/

namespace CacheSession

def underWayFor (s : CacheSession V) (k : CacheKey) : List UnderWay :=
  s.underWay.filter fun u => u.id.key = k

theorem find?_eq_underWayFor (s : CacheSession V) (id : CallId) :
    s.find? id = (s.underWayFor id.key).find? fun u => u.id = id := by
  rw [find?, underWayFor, List.find?_filter]
  congr 1
  funext u
  by_cases hu : u.id = id
  · simp [hu]
  · simp [hu]

theorem underWayFor_ask (s : CacheSession V) (now : Instant) (id : CallId) (ttl : Option Duration)
    (version : Option String) :
    (s.step (.ask now id ttl version)).1.underWayFor id.key =
      if (s.cache.get now id.key version).2.isSome then s.underWayFor id.key
      else s.underWayFor id.key ++ [⟨id, ttl, version⟩] := by
  rw [underWayFor, underWay_ask]
  split
  · rfl
  · simp [underWayFor]

theorem underWayFor_ask_of_ne {id : CallId} {k : CacheKey} (h : id.key ≠ k) (s : CacheSession V)
    (now : Instant) (ttl : Option Duration) (version : Option String) :
    (s.step (.ask now id ttl version)).1.underWayFor k = s.underWayFor k := by
  rw [underWayFor, underWay_ask]
  split
  · rfl
  · simp [underWayFor, h]

theorem filter_others (s : CacheSession V) (id : CallId) (k : CacheKey) :
    (s.others id).filter (fun u => u.id.key = k) = (s.underWayFor k).filter fun u => u.id ≠ id := by
  rw [others, underWayFor, List.filter_filter, List.filter_filter]
  congr 1
  funext u
  exact Bool.and_comm _ _

theorem filter_others_of_ne {id : CallId} {k : CacheKey} (h : id.key ≠ k) (s : CacheSession V) :
    (s.others id).filter (fun u => u.id.key = k) = s.underWayFor k := by
  rw [filter_others]
  refine List.filter_eq_self.mpr fun u hu => ?_
  have hkey : u.id.key = k := by simpa using (List.mem_filter.mp hu).2
  have hne : u.id ≠ id := fun heq => h (heq ▸ hkey)
  exact decide_eq_true hne

/-- Nothing valid under the key tells two sessions apart, nor do their calls under way for it. -/
structure AgreeOn (k : CacheKey) (keys : Finset CacheKey) (later : List Instant)
    (s s' : CacheSession V) : Prop where
  cache : s.cache.AgreeOn k keys later s'.cache
  underWay : s.underWayFor k = s'.underWayFor k

namespace AgreeOn

variable {k : CacheKey} {keys : Finset CacheKey} {later : List Instant} {s s' : CacheSession V}

theorem of_append {earlier : List Instant} (h : s.AgreeOn k keys (earlier ++ later) s') :
    s.AgreeOn k keys later s' := ⟨h.cache.of_append, h.underWay⟩

theorem find?_eq {id : CallId} (h : s.AgreeOn id.key keys later s') : s.find? id = s'.find? id := by
  rw [find?_eq_underWayFor, find?_eq_underWayFor, h.underWay]

theorem others_eq (h : s.AgreeOn k keys later s') (id : CallId) :
    (s.others id).filter (fun u => u.id.key = k) =
      (s'.others id).filter fun u => u.id.key = k := by
  rw [filter_others, filter_others, h.underWay]

theorem step {event : SessionEvent V} (h : s.AgreeOn k keys (event.readings ++ later) s')
    (hwrite : ∀ k', event.writtenKey? = some k' → k' ∈ keys) (hc : event.concerns k = true) :
    (s.step event).1.AgreeOn k keys later (s'.step event.untimed).1 ∧
      SessionEvent.seen? k (event, (s.step event).2) =
        SessionEvent.seen? k (event.untimed, (s'.step event.untimed).2) := by
  cases event with
  | call c =>
    obtain ⟨hcache, hseen⟩ := h.cache.step c hwrite hc
    exact ⟨⟨hcache, h.underWay⟩, hseen⟩
  | ask now id ttl version =>
    obtain rfl : id.key = k := by simpa [SessionEvent.concerns] using hc
    have hnone : ∀ k', (CacheOp.get id.key version : CacheOp V).writtenKey? = some k' → k' ∈ keys :=
      fun _ hk => by contradiction
    obtain ⟨hcache, hseen⟩ := h.cache.step ⟨now, .get id.key version⟩ hnone hc
    have hfound : (s.cache.get now id.key version).2 = (s'.cache.get now id.key version).2 := by
      simpa [CacheCall.seen?, CacheCall.untimed, CacheOp.untimed, Cache.step] using hseen
    refine ⟨⟨hcache, ?_⟩, hseen⟩
    rw [SessionEvent.untimed, underWayFor_ask, underWayFor_ask, hfound, h.underWay]
  | derived now id value micros =>
    obtain rfl : id.key = k := by simpa [SessionEvent.concerns] using hc
    have hfind := h.find?_eq
    have hothers := h.others_eq id
    rw [← underWay_derived s now id value micros, ← underWay_derived s' now id value 0] at hothers
    cases hu : s.find? id with
    | none =>
      rw [hu] at hfind
      simp only [CacheSession.step, SessionEvent.untimed, hu, ← hfind] at hothers ⊢
      exact ⟨⟨h.cache.of_append, hothers⟩, rfl⟩
    | some u =>
      rw [hu] at hfind
      have hstored := (h.cache.step
        ⟨now, .complete id.key value u.ttl u.version micros⟩ hwrite hc).1
      simp only [CacheSession.step, SessionEvent.untimed, hu, ← hfind] at hothers ⊢
      exact ⟨⟨hstored, hothers⟩, rfl⟩
  | abandoned now id micros =>
    obtain rfl : id.key = k := by simpa [SessionEvent.concerns] using hc
    have hfind := h.find?_eq
    have hothers := h.others_eq id
    rw [← underWay_abandoned s now id micros, ← underWay_abandoned s' now id 0] at hothers
    cases hu : s.find? id with
    | none =>
      rw [hu] at hfind
      simp only [CacheSession.step, SessionEvent.untimed, hu, ← hfind] at hothers ⊢
      exact ⟨⟨h.cache.of_append, hothers⟩, rfl⟩
    | some u =>
      rw [hu] at hfind
      simp only [CacheSession.step, SessionEvent.untimed, hu, ← hfind] at hothers ⊢
      exact ⟨⟨h.cache.of_append.abandon micros 0, hothers⟩, rfl⟩

/-- An event about other keys, in one of them. -/
theorem step_left {event : SessionEvent V} (h : s.AgreeOn k keys later s')
    (hwrite : ∀ k', event.writtenKey? = some k' → k' ∈ keys) (hc : event.concerns k = false)
    (hlater : ∀ u ∈ event.readings, ∀ t ∈ later, u ≤ t) :
    (s.step event).1.AgreeOn k keys later s' := by
  cases event with
  | call c => exact ⟨h.cache.step_left c hwrite hc hlater, h.underWay⟩
  | ask now id ttl version =>
    have hne : id.key ≠ k := by simpa [SessionEvent.concerns] using hc
    have hnone : ∀ k', (CacheOp.get id.key version : CacheOp V).writtenKey? = some k' → k' ∈ keys :=
      fun _ hk => by contradiction
    refine ⟨h.cache.step_left ⟨now, .get id.key version⟩ hnone hc hlater, ?_⟩
    rw [underWayFor_ask_of_ne hne, h.underWay]
  | derived now id value micros =>
    have hne : id.key ≠ k := by simpa [SessionEvent.concerns] using hc
    refine ⟨?_, ?_⟩
    · -- The end of a call that is under way stores its value under another key.
      rw [cache_step, made?]
      cases s.find? id with
      | none => exact h.cache
      | some u =>
        exact h.cache.step_left ⟨now, .complete id.key value u.ttl u.version micros⟩ hwrite hc
          hlater
    · rw [underWayFor, underWay_derived, filter_others_of_ne hne, h.underWay]
  | abandoned now id micros =>
    have hne : id.key ≠ k := by simpa [SessionEvent.concerns] using hc
    refine ⟨?_, ?_⟩
    · rw [cache_step, made?]
      cases s.find? id with
      | none => exact h.cache
      | some u =>
        exact h.cache.step_left ⟨now, .abandon micros⟩ (fun _ hk => by contradiction)
          rfl hlater
    · rw [underWayFor, underWay_abandoned, filter_others_of_ne hne, h.underWay]

/-- What is not about the key can be left out, and derivations may take any time. -/
theorem trace {events : List (SessionEvent V)}
    (h : s.AgreeOn k keys (events.flatMap SessionEvent.readings) s')
    (hclock : (events.flatMap SessionEvent.readings).Pairwise (· ≤ ·))
    (hwrite : ∀ event ∈ events, ∀ k', event.writtenKey? = some k' → k' ∈ keys) :
    (s.trace events).filterMap (SessionEvent.seen? k) =
      (s'.trace ((events.filter (·.concerns k)).map SessionEvent.untimed)).filterMap
        (SessionEvent.seen? k) := by
  -- One session goes on by every event, the other one only by those about the key.
  induction events generalizing s s' with
  | nil => rfl
  | cons event events ih =>
    rw [List.flatMap_cons] at h hclock
    obtain ⟨-, hrest, hlater⟩ := List.pairwise_append.mp hclock
    have hwrite' := hwrite event List.mem_cons_self
    have hwrites : ∀ e ∈ events, ∀ k', e.writtenKey? = some k' → k' ∈ keys :=
      fun e he => hwrite e (List.mem_cons_of_mem _ he)
    by_cases hc : event.concerns k = true
    · obtain ⟨hnext, hseen⟩ := h.step hwrite' hc
      rw [List.filter_cons_of_pos hc, List.map_cons, CacheSession.trace, CacheSession.trace,
        List.filterMap_cons, List.filterMap_cons, hseen, ih hnext hrest hwrites]
    · have hnot : event.concerns k = false := by simpa using hc
      rw [List.filter_cons_of_neg hc, CacheSession.trace,
        List.filterMap_cons_none (SessionEvent.seen?_of_not_concerns hnot _)]
      exact ih (h.of_append.step_left hwrite' hnot hlater) hrest hwrites

end AgreeOn

/-- Two sessions of new caches with room for all keys that they store, over a clock that does not
go back. If the same is done with a key at the same readings, the same is found and derived. -/
theorem seen_eq (config : CacheConfig) (codec : Option (Codec V)) (k : CacheKey)
    (events events' : List (SessionEvent V))
    (hclock : (events.flatMap SessionEvent.readings).Pairwise (· ≤ ·))
    (hclock' : (events'.flatMap SessionEvent.readings).Pairwise (· ≤ ·))
    (hroom : (writtenKeys events).card ≤ max config.capacity 1)
    (hroom' : (writtenKeys events').card ≤ max config.capacity 1)
    (hsame : (events.filter (·.concerns k)).map SessionEvent.untimed =
      (events'.filter (·.concerns k)).map SessionEvent.untimed) :
    ((start (Cache.new config codec)).trace events).filterMap (SessionEvent.seen? k) =
      ((start (Cache.new config codec)).trace events').filterMap (SessionEvent.seen? k) := by
  have hnew : ∀ events : List (SessionEvent V),
      (writtenKeys events).card ≤ max config.capacity 1 →
      AgreeOn k (writtenKeys events) (events.flatMap SessionEvent.readings)
        (start (Cache.new config codec)) (start (Cache.new config codec)) :=
    fun events hroom => ⟨.new config codec k hroom _, rfl⟩
  rw [(hnew events hroom).trace hclock fun _ he _ => mem_writtenKeys he, hsame,
    (hnew events' hroom').trace hclock' fun _ he _ => mem_writtenKeys he]

/-- What expired is still there when the value is asked for, and a sweep comes before it is
derived anew. -/
def sweptDuringDerivation : List (SessionEvent String) :=
  [.call ⟨.epoch, .set (.buttons "T1") "old" (some ⟨5⟩) none⟩,
    .ask (Instant.epoch.plus ⟨6⟩) ⟨.buttons "T1", 0⟩ none none,
    .call ⟨Instant.epoch.plus ⟨7⟩, .sweep⟩,
    .derived (Instant.epoch.plus ⟨8⟩) ⟨.buttons "T1", 0⟩ "new" 40,
    .call ⟨Instant.epoch.plus ⟨9⟩, .get (.buttons "T1") none⟩]

/-- It is purged before, and another key is looked up, stored and removed. -/
def purgedBeforeDerivation : List (SessionEvent String) :=
  [.call ⟨.epoch, .set (.buttons "T1") "old" (some ⟨5⟩) none⟩,
    .call ⟨Instant.epoch.plus ⟨1⟩,
      .getOrInsert (.buttons "T2") none none "other" (Instant.epoch.plus ⟨2⟩) 10⟩,
    .call ⟨Instant.epoch.plus ⟨6⟩, .purgeExpired⟩,
    .ask (Instant.epoch.plus ⟨6⟩) ⟨.buttons "T1", 0⟩ none none,
    .call ⟨Instant.epoch.plus ⟨7⟩, .delete (.buttons "T2")⟩,
    .derived (Instant.epoch.plus ⟨8⟩) ⟨.buttons "T1", 0⟩ "new" 70,
    .call ⟨Instant.epoch.plus ⟨9⟩, .get (.buttons "T1") none⟩]

theorem seen_swept_eq_purged :
    let config := { CacheConfig.usual with capacity := 2 }
    ((start (Cache.new config none)).trace sweptDuringDerivation).filterMap
        (SessionEvent.seen? (.buttons "T1")) =
      [.value none, .derived "new" true, .value (some "new")] ∧
    ((start (Cache.new config none)).trace sweptDuringDerivation).filterMap
        (SessionEvent.seen? (.buttons "T1")) =
      ((start (Cache.new config none)).trace purgedBeforeDerivation).filterMap
        (SessionEvent.seen? (.buttons "T1")) := by
  intro config
  have hclock : (sweptDuringDerivation.flatMap SessionEvent.readings).Pairwise (· ≤ ·) := by decide
  have hclock' : (purgedBeforeDerivation.flatMap SessionEvent.readings).Pairwise (· ≤ ·) := by
    decide
  have hroom : (writtenKeys sweptDuringDerivation).card ≤ max config.capacity 1 := by decide
  have hroom' : (writtenKeys purgedBeforeDerivation).card ≤ max config.capacity 1 := by decide
  exact ⟨by unfold config; rfl, seen_eq config none (.buttons "T1") _ _ hclock hclock' hroom hroom' rfl⟩

end CacheSession

end ActionPolicy
