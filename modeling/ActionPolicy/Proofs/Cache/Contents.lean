import ActionPolicy.Cache.Calls

/-!
# What a cache holds

A cache takes up an entry only where a value is stored. Everything else leaves it with some of the
entries it had, of which at most the time of the last touch is another one.

## Main definitions

* `Store.Thins`, `Cache.Thins` – a store or cache holds only what another one holds.
* `Codec.Lossless` – what a codec encodes, it decodes to the same value.

## Main statements

* `Cache.thins_lookup`, `Cache.thins_step` – what does not store a value thins the cache.
* `Cache.exists_of_lookup` – what is found is held under its key, in a version that agrees.
* `Cache.mem_set` – after a value is stored there is its entry, and what was there before.
* `Cache.decode_encode` – a value at rest can be had again.
-/

namespace ActionPolicy

variable {V : Type}

namespace Store

/-- The second store holds only entries of the first one, which may have been touched since. -/
def Thins (s t : Store V) : Prop :=
  ∀ p ∈ t.entries, ∃ e, (p.1, e) ∈ s.entries ∧
    p.2 = { e with tick := p.2.tick, touchedAt := p.2.touchedAt }

namespace Thins

theorem refl (s : Store V) : s.Thins s := fun p hp => ⟨p.2, hp, rfl⟩

theorem trans {s t u : Store V} (hst : s.Thins t) (htu : t.Thins u) : s.Thins u := by
  intro p hp
  obtain ⟨e, he, hpe⟩ := htu p hp
  obtain ⟨e', he', hee⟩ := hst (p.1, e) he
  have hfield : e = { e' with tick := e.tick, touchedAt := e.touchedAt } := hee
  refine ⟨e', he', ?_⟩
  rw [hpe, hfield]

theorem of_subset {s t : Store V} (h : ∀ p ∈ t.entries, p ∈ s.entries) : s.Thins t :=
  fun p hp => ⟨p.2, h p hp, rfl⟩

end Thins

theorem mem_of_get? {s : Store V} {k : CacheKey} {e : Entry V} (h : s.get? k = some e) :
    (k, e) ∈ s.entries := by
  obtain ⟨before, after, hentries, -⟩ := List.lookup_eq_some_iff.mp h
  rw [hentries]
  simp

variable (s : Store V)

theorem mem_of_mem_remove {k : CacheKey} {p : CacheKey × Entry V}
    (hp : p ∈ (s.remove k).entries) : p ∈ s.entries := by
  unfold remove at hp
  split at hp
  · exact (List.mem_filter.mp hp).1
  · exact hp

theorem thins_remove (k : CacheKey) : s.Thins (s.remove k) :=
  .of_subset fun _ => s.mem_of_mem_remove

theorem thins_touch (k : CacheKey) (now : Instant) : s.Thins (s.touch k now) := by
  intro p hp
  unfold touch at hp
  split at hp
  · obtain ⟨⟨k', e'⟩, hmem, rfl⟩ := List.mem_map.mp hp
    by_cases hk : k' = k
    · exact ⟨e', by simpa [hk] using hmem, by simp [hk]⟩
    · exact ⟨e', by simpa [hk] using hmem, by simp [hk]⟩
  · exact ⟨p.2, hp, rfl⟩

theorem mem_of_mem_evictOldest {t : Store V} (h : s.evictOldest = some t)
    {p : CacheKey × Entry V} (hp : p ∈ t.entries) : p ∈ s.entries := by
  unfold evictOldest at h
  split at h
  · contradiction
  · obtain rfl := Option.some.inj h
    exact (List.mem_filter.mp hp).1

/-- What is there after an insertion was there before, or is the new entry. -/
theorem mem_insert {k : CacheKey} {value : Stored V} {now expiresAt : Instant}
    {version : Option String} {p : CacheKey × Entry V}
    (hp : p ∈ (s.insert k value now expiresAt version).entries) :
    p ∈ s.entries ∨
      p = (k, ⟨value, now, now, expiresAt, version, (s.remove k).nextTick⟩) := by
  rcases List.mem_append.mp hp with hp | hp
  · exact Or.inl (s.mem_of_mem_remove hp)
  · exact Or.inr (List.mem_singleton.mp hp)

theorem thins_retain (keep : CacheKey → Entry V → Bool) : s.Thins (s.retain keep).1 := by
  refine .of_subset fun p hp => ?_
  exact (List.mem_filter.mp hp).1

theorem thins_clear : s.Thins s.clear := fun _ hp => absurd hp List.not_mem_nil

end Store

/-! ### Calls that store nothing -/

namespace Cache

/-- The second cache holds only what the first one holds, in the same form. -/
structure Thins (c c' : Cache V) : Prop where
  /-- Values are held in the same form. -/
  codec : c'.codec = c.codec
  store : c.store.Thins c'.store

namespace Thins

theorem refl (c : Cache V) : c.Thins c := ⟨rfl, .refl c.store⟩

theorem trans {c c' c'' : Cache V} (h : c.Thins c') (h' : c'.Thins c'') : c.Thins c'' :=
  ⟨h'.codec.trans h.codec, h.store.trans h'.store⟩

end Thins

variable (c : Cache V)

theorem thins_lookup (now : Instant) (k : CacheKey) (version : Option String) :
    c.Thins (c.lookup now k version).1 := by
  unfold lookup
  split
  · exact .refl c
  split
  · exact ⟨rfl, c.store.thins_remove k⟩
  split
  · exact ⟨rfl, c.store.thins_remove k⟩
  split
  · exact ⟨rfl, c.store.thins_remove k⟩
  · exact ⟨rfl, c.store.thins_touch k now⟩

theorem thins_tryGet (now : Instant) (k : CacheKey) (version : Option String) :
    c.Thins (c.tryGet now k version).1 :=
  have h := c.thins_lookup now k version
  ⟨h.codec, h.store⟩

theorem thins_get (now : Instant) (k : CacheKey) (version : Option String) :
    c.Thins (c.get now k version).1 :=
  c.thins_tryGet now k version

theorem thins_delete (k : CacheKey) : c.Thins (c.delete k).1 := ⟨rfl, c.store.thins_remove k⟩

theorem thins_clearNamespace (ns : Namespace) : c.Thins (c.clearNamespace ns).1 :=
  ⟨rfl, c.store.thins_retain fun k _ => k.ns != ns⟩

theorem thins_purgeExpired (now : Instant) : c.Thins (c.purgeExpired now).1 :=
  ⟨rfl, c.store.thins_retain fun _ e => !e.expiredAt now⟩

theorem thins_sweep (now : Instant) : c.Thins (c.sweep now) :=
  ⟨rfl, (c.thins_purgeExpired now).store⟩

theorem thins_clear : c.Thins c.clear := ⟨rfl, c.store.thins_clear⟩

theorem thins_destroy : c.Thins c.destroy := ⟨rfl, c.store.thins_clear⟩

theorem thins_abandon (micros : Nat) : c.Thins (c.abandon micros) := ⟨rfl, .refl c.store⟩

end Cache

namespace Cache

/-- What does not store a value thins the cache. -/
theorem thins_step (c : Cache V) {call : CacheCall V} (h : call.op.writes = false) :
    c.Thins (c.step call).1 := by
  obtain ⟨now, op⟩ := call
  cases op with
  | set _ _ _ _ => contradiction
  | getOrInsert _ _ _ _ _ _ => contradiction
  | complete _ _ _ _ _ => contradiction
  | get k version => exact c.thins_get now k version
  | tryGet k version => exact c.thins_tryGet now k version
  | has k version => exact c.thins_tryGet now k version
  | delete k => exact c.thins_delete k
  | clearNamespace ns => exact c.thins_clearNamespace ns
  | clear => exact c.thins_clear
  | purgeExpired => exact c.thins_purgeExpired now
  | sweep => exact c.thins_sweep now
  | stats => exact .refl c
  | info k => exact .refl c
  | abandon micros => exact c.thins_abandon micros
  | destroy => exact c.thins_destroy

/-! ### Values found and stored -/

/-- What is found is held under its key, in a version that agrees with the wanted one. -/
theorem exists_of_lookup {c : Cache V} {now : Instant} {k : CacheKey} {version : Option String}
    {value : V} (h : (c.lookup now k version).2 = .ok value) :
    ∃ e, (k, e) ∈ c.store.entries ∧ conflicting version e.version = false ∧
      c.decode e.value = some value := by
  unfold lookup at h
  split at h
  · contradiction
  · rename_i e he
    split at h
    · contradiction
    split at h
    · contradiction
    · rename_i hversion
      split at h
      · contradiction
      · rename_i found hfound
        have hvalue : found = value := Except.ok.inj h
        exact ⟨e, Store.mem_of_get? he, by simpa using hversion, hvalue ▸ hfound⟩

theorem exists_of_get {c : Cache V} {now : Instant} {k : CacheKey} {version : Option String}
    {value : V} (h : (c.get now k version).2 = some value) :
    ∃ e, (k, e) ∈ c.store.entries ∧ conflicting version e.version = false ∧
      c.decode e.value = some value := by
  have hlookup : (c.lookup now k version).2 = .ok value := by
    have hget : (c.lookup now k version).2.toOption = some value := h
    cases hresult : (c.lookup now k version).2 with
    | error reason =>
      rw [hresult] at hget
      contradiction
    | ok found =>
      rw [hresult] at hget
      rw [Option.some.inj hget]
  exact exists_of_lookup hlookup

theorem mem_of_mem_makeRoom {c : Cache V} {k : CacheKey} {p : CacheKey × Entry V}
    (hp : p ∈ (c.makeRoom k).1.entries) : p ∈ c.store.entries := by
  unfold makeRoom at hp
  split at hp
  · exact hp
  split at hp
  · split at hp
    · rename_i t ht
      exact c.store.mem_of_mem_evictOldest ht hp
    · exact hp
  · exact hp

/-- After a value is stored there is its entry, and what was there before. -/
theorem mem_set {c : Cache V} {now : Instant} {k : CacheKey} {value : V} {ttl : Option Duration}
    {version : Option String} {p : CacheKey × Entry V}
    (hp : p ∈ (c.set now k value ttl version).store.entries) :
    p ∈ c.store.entries ∨
      p.1 = k ∧ p.2.value = (c.encode value).1 ∧ p.2.version = version := by
  rcases Store.mem_insert (c.makeRoom k).1 hp with hold | hnew
  · exact Or.inl (mem_of_mem_makeRoom hold)
  · subst hnew
    exact Or.inr ⟨rfl, rfl, rfl⟩

end Cache

/-- What the codec encodes, it decodes to the same value. -/
def Codec.Lossless (codec : Codec V) : Prop :=
  ∀ value bytes, codec.encode value = some bytes → codec.decode bytes = some value

/-- A value at rest can be had again, also where it is held as it is because encoding failed. -/
theorem Cache.decode_encode {c : Cache V} (h : ∀ codec, c.codec = some codec → codec.Lossless)
    (value : V) : c.decode (c.encode value).1 = some value := by
  unfold encode
  split
  · rfl
  · rename_i codec hcodec
    split
    · rename_i bytes hbytes
      simp only [decode, hcodec, Option.bind_some]
      exact h codec hcodec value bytes hbytes
    · rfl

end ActionPolicy
