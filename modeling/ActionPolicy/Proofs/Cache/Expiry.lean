import ActionPolicy.Proofs.Cache.Invariant
import ActionPolicy.Proofs.Cache.Provenance
import ActionPolicy.Proofs.Time.Later

/-!
# When entries expire

An entry expires when the time to live that it was stored with is over. A lookup, a purge and a
sweep find that out each for itself, and find the same.

## Main definitions

* `Cache.Timely` – every entry expires some time to live after it was stored.
* `Cache.SameTimes` – under every key stands an entry as long as there was one, with its times.

## Main statements

* `Cache.exists_expiry_set`, `Cache.expiresAt_mono_set` – when that expires which is stored.
* `Cache.tryGet_expired_iff` – a lookup reports an entry that has expired.
* `Cache.get?_purgeExpired_eq_some_iff` – a purge leaves the other ones.
* `Cache.sameTimes_tryGet` – a lookup that succeeds changes no time but that of the last touch.
* `Cache.Timely.run` – a cache in use is timely.
* `Cache.expiry_of_run` – all this for the states that a new cache comes to.
-/

namespace ActionPolicy

variable {V : Type}

/-! ### Stores -/

namespace Store

theorem get?_insert (s : Store V) (k : CacheKey) (value : Stored V) (now expiresAt : Instant)
    (version : Option String) :
    (s.insert k value now expiresAt version).get? k =
      some ⟨value, now, now, expiresAt, version, (s.remove k).nextTick⟩ := by
  have hnone : (s.remove k).entries.lookup k = none :=
    lookup_eq_none_iff_key.mpr fun _ => key_ne_of_mem_remove
  unfold insert get?
  dsimp only
  rw [List.lookup_append, hnone]
  simp

/-- An entry that is touched keeps all but its tick and the time of the last touch. -/
theorem get?_touch (s : Store V) (k k' : CacheKey) (now : Instant) :
    (s.touch k now).get? k' = (s.get? k').map fun e =>
      if k' = k then { e with tick := s.nextTick, touchedAt := now } else e := by
  unfold touch
  split
  · have hchanged := lookup_map_values (fun k' (e : Entry V) =>
      if k' = k then { e with tick := s.nextTick, touchedAt := now } else e) s.entries k'
    refine Eq.trans (congrArg (List.lookup k') ?_) hchanged
    refine List.map_congr_left fun p _ => ?_
    dsimp only
    split <;> rfl
  · rename_i hnone
    change s.get? k' = _
    by_cases hk : k' = k
    · rw [hk, hnone]
      rfl
    · simp [hk]

theorem InOrder.get?_retain {s : Store V} {l : List (CacheKey × Entry V)} (h : s.InOrder l)
    (keep : CacheKey → Entry V → Bool) {k : CacheKey} {e : Entry V} :
    (s.retain keep).1.get? k = some e ↔ s.get? k = some e ∧ keep k e = true := by
  rw [(h.retain keep).1.get?_eq_some_iff, List.mem_filter, h.get?_eq_some_iff]

theorem retain_snd (s : Store V) (keep : CacheKey → Entry V → Bool) :
    (s.retain keep).2 = s.entries.countP fun p => !keep p.1 p.2 := by
  have hall := List.length_eq_countP_add_countP (fun p : CacheKey × Entry V => keep p.1 p.2)
    (l := s.entries)
  have hkept : (s.entries.filter fun p => keep p.1 p.2).length =
      s.entries.countP fun p => keep p.1 p.2 := List.countP_eq_length_filter.symm
  show s.entries.length - _ = _
  rw [hkept, hall]
  simp

end Store

namespace Cache

variable {c : Cache V} {k : CacheKey} {e : Entry V}

/-! ### What is stored -/

theorem exists_get?_set (c : Cache V) (now : Instant) (k : CacheKey) (value : V)
    (ttl : Option Duration) (version : Option String) :
    ∃ e, (c.set now k value ttl version).store.get? k = some e ∧ e.storedAt = now ∧
      e.expiresAt = now.plus (ttl.getD c.config.defaultTtl) :=
  ⟨_, Store.get?_insert _ _ _ _ _ _, rfl, rfl⟩

/-- What is stored expires when the time to live is over, or at the calendar's end if that comes
before. -/
theorem exists_expiry_set (c : Cache V) (now : Instant) (k : CacheKey) (value : V)
    (ttl : Option Duration) (version : Option String) :
    ∃ e, (c.set now k value ttl version).store.get? k = some e ∧ e.storedAt = now ∧
      now.IsSum (ttl.getD c.config.defaultTtl) e.expiresAt := by
  obtain ⟨e, he, hstored, hexpires⟩ := c.exists_get?_set now k value ttl version
  exact ⟨e, he, hstored, hexpires ▸ now.isSum_plus _⟩

section Ordered

variable {c' : Cache V} {now now' : Instant} {k' : CacheKey} {value value' : V}
  {ttl ttl' : Option Duration} {version version' : Option String} {e' : Entry V}

theorem expiresAt_eq_of_get?_set (he : (c.set now k value ttl version).store.get? k = some e) :
    e.expiresAt = now.plus (ttl.getD c.config.defaultTtl) := by
  obtain ⟨_, hfound, -, hexpires⟩ := c.exists_get?_set now k value ttl version
  obtain rfl := Option.some.inj (hfound.symm.trans he)
  exact hexpires

/-- What is stored later, or for longer, expires no earlier, unless a leap second begins
meanwhile. -/
theorem expiresAt_mono_set (he : (c.set now k value ttl version).store.get? k = some e)
    (he' : (c'.set now' k' value' ttl' version').store.get? k' = some e') (hnow : now ≤ now')
    (hlasts : (ttl.getD c.config.defaultTtl).nanos ≤ (ttl'.getD c'.config.defaultTtl).nanos)
    (hend : now ≤ .calendarEnd)
    (hleap : now'.InLeapSecond → now.InLeapSecond ∨ now.secs ≠ now'.secs) :
    e.expiresAt ≤ e'.expiresAt := by
  rw [expiresAt_eq_of_get?_set he, expiresAt_eq_of_get?_set he']
  exact Instant.plus_mono hnow hlasts hend hleap

/-- Also then it expires less than a second earlier. -/
theorem nanos_expiresAt_lt_set (he : (c.set now k value ttl version).store.get? k = some e)
    (he' : (c'.set now' k' value' ttl' version').store.get? k' = some e') (hnow : now ≤ now')
    (hlasts : (ttl.getD c.config.defaultTtl).nanos ≤ (ttl'.getD c'.config.defaultTtl).nanos)
    (hend : now ≤ .calendarEnd) : e.expiresAt.nanos < e'.expiresAt.nanos + 1000000000 := by
  rw [expiresAt_eq_of_get?_set he, expiresAt_eq_of_get?_set he']
  exact Instant.nanos_plus_lt hnow hlasts hend

end Ordered

/-- Every entry expires some time to live after it was stored. -/
def Timely (c : Cache V) : Prop :=
  ∀ p ∈ c.store.entries, ∃ ttl : Duration, p.2.expiresAt = p.2.storedAt.plus ttl

namespace Timely

theorem new (config : CacheConfig) (codec : Option (Codec V)) : (Cache.new config codec).Timely :=
  fun _ hp => absurd hp List.not_mem_nil

theorem of_thins {c' : Cache V} (h : c.Timely) (hthins : c.Thins c') : c'.Timely := by
  intro p hp
  obtain ⟨e, he, hpe⟩ := hthins.store p hp
  obtain ⟨ttl, hexpires⟩ := h _ he
  exact ⟨ttl, by rw [hpe]; exact hexpires⟩

theorem set (h : c.Timely) (now : Instant) (k : CacheKey) (value : V) (ttl : Option Duration)
    (version : Option String) : (c.set now k value ttl version).Timely := by
  intro p hp
  rcases Store.mem_insert (c.makeRoom k).1 hp with hold | rfl
  · exact h p (mem_of_mem_makeRoom hold)
  · exact ⟨_, rfl⟩

theorem complete (h : c.Timely) (now : Instant) (k : CacheKey) (value : V) (ttl : Option Duration)
    (version : Option String) (micros : Nat) :
    (c.complete now k value ttl version micros).Timely :=
  (h.of_thins (c.thins_abandon micros)).set now k value ttl version

theorem step (h : c.Timely) (call : CacheCall V) : (c.step call).1.Timely := by
  obtain ⟨now, op⟩ := call
  cases hwrites : op.writes with
  | false => exact h.of_thins (c.thins_step hwrites)
  | true =>
    cases op with
    | set k value ttl version => exact h.set now k value ttl version
    | complete k derived ttl version micros => exact h.complete now k derived ttl version micros
    | getOrInsert k ttl version derived later micros =>
      have hget := h.of_thins (c.thins_get now k version)
      simp only [Cache.step, getOrInsert]
      cases hr : c.get now k version with
      | mk c' found =>
        rw [hr] at hget
        cases found with
        | some value => exact hget
        | none => exact hget.complete later k derived ttl version micros
    | _ => contradiction

theorem run (h : c.Timely) (calls : List (CacheCall V)) : (c.run calls).Timely := by
  induction calls generalizing c with
  | nil => exact h
  | cons call rest ih => exact ih (h.step call)

theorem storedAt_le (h : c.Timely) (hget : c.store.get? k = some e)
    (hend : e.storedAt ≤ .calendarEnd) : e.storedAt ≤ e.expiresAt := by
  obtain ⟨ttl, hexpires⟩ := h _ (Store.mem_of_get? hget)
  rw [hexpires, Instant.le_plus_iff]
  exact .inl hend

end Timely

/-! ### What has expired -/

/-- A lookup reports that an entry has expired if it has, whatever version is asked for. -/
theorem tryGet_expired_iff (c : Cache V) (t : Instant) (k : CacheKey) (version : Option String) :
    (c.tryGet t k version).2 = .error .expired ↔
      ∃ e, c.store.get? k = some e ∧ e.expiresAt < t := by
  change (c.lookup t k version).2 = .error .expired ↔ _
  unfold lookup
  cases hget : c.store.get? k with
  | none => simp
  | some e =>
    by_cases hexpired : e.expiresAt < t
    · simp [Entry.expiredAt, hexpired]
    · have hvalid : ¬e.expiredAt t = true := by simpa [Entry.expiredAt] using hexpired
      dsimp only
      rw [if_neg hvalid]
      split
      · simp [hexpired]
      · cases c.decode e.value <;> simp [hexpired]

theorem tryGet_ne_expired_iff (hget : c.store.get? k = some e) (t : Instant)
    (version : Option String) :
    (c.tryGet t k version).2 ≠ .error .expired ↔ e.expiredAt t = false := by
  rw [ne_eq, tryGet_expired_iff, hget]
  simp [Entry.expiredAt]

/-- A purge leaves the entries that a lookup would not report to have expired, and no other. -/
theorem get?_purgeExpired_eq_some_iff {l : List (CacheKey × Entry V)} (h : c.store.InOrder l)
    (t : Instant) :
    (c.purgeExpired t).1.store.get? k = some e ↔
      c.store.get? k = some e ∧ ∀ version, (c.tryGet t k version).2 ≠ .error .expired := by
  refine (h.get?_retain fun _ e => !e.expiredAt t).trans (and_congr_right fun hget => ?_)
  simp [tryGet_ne_expired_iff hget]

/-- Up to the instant at which it expires, an entry is not reported to have expired. -/
theorem tryGet_ne_expired_of_le (hget : c.store.get? k = some e) {t : Instant}
    (hle : t ≤ e.expiresAt) (version : Option String) :
    (c.tryGet t k version).2 ≠ .error .expired := by
  intro hreported
  obtain ⟨_, hget', hexpired⟩ := (c.tryGet_expired_iff t k version).mp hreported
  obtain rfl := Option.some.inj (hget.symm.trans hget')
  exact Instant.not_lt.mpr hle hexpired

theorem purgeExpired_snd (c : Cache V) (t : Instant) :
    (c.purgeExpired t).2 = c.store.entries.countP fun p => p.2.expiredAt t := by
  rw [purgeExpired, Store.retain_snd]
  simp

/-! ### Lookups that succeed -/

/-- Under every key there is an entry in both caches or in none, stored and expiring at the same
times. -/
def SameTimes (c c' : Cache V) : Prop :=
  ∀ k, (c'.store.get? k).map (fun e => (e.storedAt, e.expiresAt)) =
    (c.store.get? k).map fun e => (e.storedAt, e.expiresAt)

theorem sameTimes_tryGet {now : Instant} {version : Option String} {value : V}
    (hfound : (c.tryGet now k version).2 = .ok value) : c.SameTimes (c.tryGet now k version).1 := by
  intro k'
  have hstore : (c.tryGet now k version).1.store = c.store.touch k now := by
    change (c.lookup now k version).2 = .ok value at hfound
    change (c.lookup now k version).1.store = _
    unfold lookup at hfound ⊢
    split at hfound
    · contradiction
    split at hfound
    · contradiction
    split at hfound
    · contradiction
    split at hfound
    · contradiction
    · simp_all
  rw [hstore, Store.get?_touch, Option.map_map]
  congr 1
  funext e
  dsimp only [Function.comp]
  split <;> rfl

theorem sameTimes_getOrInsert {now later : Instant} {version : Option String} {value : V}
    (hfound : (c.tryGet now k version).2 = .ok value) (ttl : Option Duration) (derived : V)
    (micros : Nat) :
    c.SameTimes (c.getOrInsert now later k ttl version derived micros).1 := by
  have hget : c.get now k version = ((c.tryGet now k version).1, some value) :=
    Prod.ext rfl (congrArg Except.toOption hfound)
  rw [getOrInsert, hget]
  exact sameTimes_tryGet hfound

/-! ### Caches in use -/

theorem defaultTtl_run (config : CacheConfig) (codec : Option (Codec V))
    (calls : List (CacheCall V)) :
    ((Cache.new config codec).run calls).config.defaultTtl = config.defaultTtl := by
  rw [((Simulates.new config codec).run calls).config, PlainCache.config_run]
  rfl

/-- What is stored in a cache in use expires when its time to live is over, or at the calendar's end
if that comes before. A time to live that leaves a leap second is counted from the second before it.
What is stored later or for longer expires no earlier; but what is stored within a leap second may
expire less than a second before what was stored in the second before. A lookup reports an entry
exactly if it has expired, a purge and a sweep remove exactly the entries that a lookup would
report, and a lookup that succeeds leaves the times of all entries. An entry that would expire at
the calendar's end only does so within the leap second after it. -/
theorem expiry_of_run (config : CacheConfig) (codec : Option (Codec V))
    (calls : List (CacheCall V)) :
    let c := (Cache.new config codec).run calls
    (∀ now k value ttl version, ∃ e,
      (c.set now k value ttl version).store.get? k = some e ∧ e.storedAt = now ∧
        now.IsSum (ttl.getD config.defaultTtl) e.expiresAt) ∧
      (∀ now now' k k' value value' ttl ttl' version version' e e',
        (c.set now k value ttl version).store.get? k = some e →
        (c.set now' k' value' ttl' version').store.get? k' = some e' → now ≤ now' →
        (ttl.getD config.defaultTtl).nanos ≤ (ttl'.getD config.defaultTtl).nanos →
        now ≤ .calendarEnd →
        ((now'.InLeapSecond → now.InLeapSecond ∨ now.secs ≠ now'.secs) →
            e.expiresAt ≤ e'.expiresAt) ∧
          e.expiresAt.nanos < e'.expiresAt.nanos + 1000000000) ∧
      (∀ k e, c.store.get? k = some e → e.storedAt ≤ .calendarEnd → e.storedAt ≤ e.expiresAt) ∧
      (∀ t k version, (c.tryGet t k version).2 = .error .expired ↔
        ∃ e, c.store.get? k = some e ∧ e.expiresAt < t) ∧
      (∀ t, (∀ k e, (c.purgeExpired t).1.store.get? k = some e ↔
          c.store.get? k = some e ∧ ∀ version, (c.tryGet t k version).2 ≠ .error .expired) ∧
        (c.purgeExpired t).2 = (c.store.entries.countP fun p => p.2.expiredAt t) ∧
        (c.sweep t).store = (c.purgeExpired t).1.store) ∧
      (∀ t k version value, (c.tryGet t k version).2 = .ok value →
        c.SameTimes (c.tryGet t k version).1 ∧ c.SameTimes (c.get t k version).1 ∧
          c.SameTimes (c.has t k version).1 ∧ ∀ later ttl derived micros,
            c.SameTimes (c.getOrInsert t later k ttl version derived micros).1) ∧
      ∀ k e, c.store.get? k = some e → e.expiresAt = .calendarEnd → ∀ t ≤ .calendarEnd,
        (∀ version, (c.tryGet t k version).2 ≠ .error .expired) ∧
          (c.purgeExpired t).1.store.get? k = some e := by
  intro c
  have httl : c.config.defaultTtl = config.defaultTtl := defaultTtl_run config codec calls
  obtain ⟨l, horder, -⟩ := ((Simulates.new config codec).run calls).holds
  rw [← httl]
  refine ⟨c.exists_expiry_set, ?_, ?_, c.tryGet_expired_iff, ?_, ?_, ?_⟩
  · intro now now' k k' value value' ttl ttl' version version' e e' he he' hnow hlasts hend
    exact ⟨expiresAt_mono_set he he' hnow hlasts hend,
      nanos_expiresAt_lt_set he he' hnow hlasts hend⟩
  · intro k e he hend
    exact ((Timely.new config codec).run calls).storedAt_le he hend
  · intro t
    exact ⟨fun k e => get?_purgeExpired_eq_some_iff horder t, c.purgeExpired_snd t, rfl⟩
  · intro t k version value hfound
    have hsame := sameTimes_tryGet hfound
    exact ⟨hsame, hsame, hsame, fun later ttl derived micros =>
      sameTimes_getOrInsert hfound ttl derived micros⟩
  · intro k e he hend t ht
    have hvalid := tryGet_ne_expired_of_le he (hend.symm ▸ ht)
    exact ⟨hvalid, (get?_purgeExpired_eq_some_iff horder t).mpr ⟨he, hvalid⟩⟩

/-- One entry is stored for a second, and one for as long as can be said. -/
def briefAndLasting : Cache Unit :=
  (Cache.new .usual none).run
    [⟨.epoch, .set (.buttons "T1") () (some (.ofSecs 1)) none⟩,
      ⟨.epoch, .set (.buttons "T2") () (some (.ofSecs (2 ^ 64 - 1))) none⟩]

/-- `2016-12-31T23:59:59.900Z`, in the second before a leap second. -/
def beforeLeapSecond : Instant :=
  { Instant.calendarEnd with
    day := 17166, nano := 900000000, day_mem := by decide, nano_lt := by decide }

/-- `2016-12-31T23:59:60.300Z`, in the leap second. -/
def inLeapSecond : Instant := { beforeLeapSecond with nano := 1300000000, nano_lt := by decide }

theorem expiry_of_run_briefAndLasting :
    (briefAndLasting.tryGet (Instant.epoch.plus ⟨1000000000⟩) (.buttons "T1") none).2 = .ok () ∧
      (briefAndLasting.tryGet (Instant.epoch.plus ⟨1000000001⟩) (.buttons "T1") none).2 =
        .error .expired ∧
      (∃ e e', (briefAndLasting.set .epoch (.buttons "T1") () none none).store.get?
          (.buttons "T1") = some e ∧
        (briefAndLasting.set inLeapSecond (.buttons "T1") () none none).store.get?
          (.buttons "T1") = some e' ∧ e.expiresAt ≤ e'.expiresAt) ∧
      ∀ t ≤ .calendarEnd, ∀ version,
        (briefAndLasting.tryGet t (.buttons "T2") version).2 ≠ .error .expired := by
  obtain ⟨-, hascends, -, hexpired, -, -, hnever⟩ := expiry_of_run .usual none
    [⟨.epoch, .set (.buttons "T1") () (some (.ofSecs 1)) none⟩,
      ⟨.epoch, .set (.buttons "T2") () (some (.ofSecs (2 ^ 64 - 1))) none⟩]
  have hlasting : ∃ e, briefAndLasting.store.get? (.buttons "T2") = some e ∧
      e.expiresAt = .calendarEnd := ⟨_, rfl, by decide⟩
  obtain ⟨e, he, hend⟩ := hlasting
  refine ⟨rfl, (hexpired _ (.buttons "T1") none).mpr ⟨_, rfl, by decide⟩,
    ⟨_, _, rfl, rfl, ?_⟩, fun t ht => (hnever _ e he hend t ht).1⟩
  have hlater := hascends .epoch inLeapSecond (.buttons "T1") (.buttons "T1") () () none none none
    none _ _ rfl rfl (by decide) (Nat.le_refl _) (by decide)
  exact hlater.1 fun _ => .inr (by decide)

/-- `+262142-12-31T23:59:60.999999999Z`, the greatest instant. -/
def greatest : Instant := { Instant.calendarEnd with nano := 1999999999, nano_lt := by decide }

/-- Of two entries that are stored for ten seconds, the later one expires earlier if a leap second
has begun meanwhile. What is stored for as long as can be said does not expire at the greatest
instant but before, and what is stored at the greatest instant has expired by then. -/
theorem expiresAt_set_leapSecond :
    let c : Cache Unit := .new .usual none
    let k : CacheKey := .buttons "T1"
    let lasting := c.set .epoch k () (some (.ofSecs (2 ^ 64 - 1))) none
    (∃ e e', (c.set beforeLeapSecond k () (some (.ofSecs 10)) none).store.get? k = some e ∧
        (c.set inLeapSecond k () (some (.ofSecs 10)) none).store.get? k = some e' ∧
        beforeLeapSecond < inLeapSecond ∧ e'.expiresAt < e.expiresAt) ∧
      (∃ e, lasting.store.get? k = some e ∧ e.expiresAt = .calendarEnd ∧
        Instant.calendarEnd < greatest ∧ (lasting.tryGet greatest k none).2 = .error .expired) ∧
      ∃ e, (c.set greatest k () (some (.ofSecs 10)) none).store.get? k = some e ∧
        e.expiresAt < greatest := by
  refine ⟨⟨_, _, rfl, rfl, ?_, ?_⟩, ⟨_, rfl, ?_, ?_, rfl⟩, _, rfl, ?_⟩ <;> decide

end Cache

end ActionPolicy
